import Mathlib.Data.List.DropRight
import Terminator.Java.Exec
import Terminator.Java.Regex
import Terminator.Manager.LinkControl
import Terminator.Netty.Http

/-!
# Reading a version of HTTP

`HttpVersion.java`: the two constructors and `valueOf`, with `HttpMethod.java`, which reads a name
the same way. A version is read with a regular expression and `Integer.parseInt`; `UpperCase` is
what the JDK's `toUpperCase()` does to a string.

* `ofText_eq_ok_iff`: which texts are versions, and of which: the expression has one parse at most,
  since the last slash ends the name;
* **`valueOf_getText`**: the text of a version, however it was made, is read as that version; only
  whether it keeps a connection alive is read as the default of its text;
* `ofParts_of_ofText_iff`: the constructors do not take the same names: `\S` lets control characters
  through, and white space outside ASCII;
* `HttpMethod.valueOf_eq`: a cached method is the one a constructor would make.
-/

namespace Terminator.Netty

open Terminator.Java Terminator.Java.Regex

/-! ## Strings -/

/-- What `trim()` takes off. -/
def isTrimmed (c : JChar) : Bool := c.toNat ≤ 0x20

/-- `String.trim()`. -/
def trim (s : JString) : JString := (s.dropWhile isTrimmed).rdropWhile isTrimmed

/-- `Character.isISOControl`. -/
def isISOControl (c : JChar) : Bool := c.toNat ≤ 0x1F || (0x7F ≤ c.toNat && c.toNat ≤ 0x9F)

/-- `\d` -/
def isDigit (c : JChar) : Bool := 0x30 ≤ c.toNat && c.toNat ≤ 0x39

/-- `\S` -/
def isNonSpace (c : JChar) : Bool := !(c.toNat == 0x20 || (0x09 ≤ c.toNat && c.toNat ≤ 0x0D))

/-- A digit, a dot or a slash. -/
def isNumeric (c : JChar) : Bool := 0x2E ≤ c.toNat && c.toNat ≤ 0x39

/-- `String.toUpperCase()`. -/
structure UpperCase where
  toUpperCase : JString → JString
  nil : toUpperCase [] = []
  idempotent : ∀ s, toUpperCase (toUpperCase s) = toUpperCase s
  append_numeric : ∀ s t, (∀ c ∈ t, isNumeric c) → toUpperCase (s ++ t) = toUpperCase s ++ t
  /-- No letter becomes a character that `trim()` takes off. -/
  head : ∀ c s, isTrimmed c = false →
    ∃ d t, toUpperCase (c :: s) = d :: t ∧ isTrimmed d = false

/-- What `toUpperCase()` does to ASCII text. -/
def asciiUpperCase : UpperCase where
  toUpperCase s := s.map fun c => if 0x61 ≤ c.toNat ∧ c.toNat ≤ 0x7A then c - 0x20 else c
  nil := rfl
  idempotent s := by
    rw [List.map_map]
    refine List.map_congr_left fun c _ => ?_
    simp only [Function.comp_apply]
    split
    · have : (c - 0x20).toNat = c.toNat - 0x20 := UInt16.toNat_sub_of_le _ _ (by
        rw [UInt16.le_iff_toNat_le]
        simp
        omega)
      rw [if_neg (by omega)]
    · rfl
  append_numeric s t ht := by
    rw [List.map_append, List.append_cancel_left_eq]
    refine (List.map_congr_left fun c hc => ?_).trans (List.map_id t)
    have hnumeric := ht c hc
    simp only [isNumeric, Bool.and_eq_true, decide_eq_true_eq] at hnumeric
    rw [if_neg (by omega)]
    rfl
  head c s hc := by
    refine ⟨_, _, List.map_cons, ?_⟩
    simp only [isTrimmed, decide_eq_false_iff_not] at hc ⊢
    split
    · have : (c - 0x20).toNat = c.toNat - 0x20 := UInt16.toNat_sub_of_le _ _ (by
        rw [UInt16.le_iff_toNat_le]
        simp
        omega)
      omega
    · exact hc

/-- The value of a text of digits. -/
def digits (s : JString) : Nat := s.foldl (fun n c => 10 * n + (c.toNat - 0x30)) 0

/-- `Integer.parseInt` of a text of digits; a number that is too large throws a
`NumberFormatException`. -/
def parseInt (s : JString) : Except Throwable Nat :=
  if digits s < 2147483648 then .ok (digits s) else .error .illegalArgument

theorem digits_decimal (n : Nat) : digits (decimal n) = n := by
  have hstep : ∀ (k : Nat), ∀ d ∈ Nat.toDigits 10 n,
      10 * k + ((UInt16.ofNat d.toNat).toNat - 0x30) = 10 * k + (d.toNat - '0'.toNat) := by
    intro k d hd
    rw [(toNat_digit (Nat.isDigit_of_mem_toDigits (by decide) (by decide) hd)).1]
    rfl
  calc digits (decimal n)
      = (Nat.toDigits 10 n).foldl (fun k d => 10 * k + ((UInt16.ofNat d.toNat).toNat - 0x30)) 0 :=
        List.foldl_map
    _ = (Nat.toDigits 10 n).foldl (fun k d => 10 * k + (d.toNat - '0'.toNat)) 0 :=
        List.foldl_ext _ _ 0 hstep
    _ = n := Nat.ofDigitChars_ten_toDigits

theorem decimal_ne_nil (n : Nat) : decimal n ≠ [] := by
  rw [decimal, Ne, List.map_eq_nil_iff]
  exact Nat.toDigits_ne_nil

theorem isDigit_of_mem_decimal {n : Nat} {c : JChar} (hc : c ∈ decimal n) : isDigit c := by
  obtain ⟨hlo, hhi⟩ := mem_decimal hc
  simp [isDigit, hlo, hhi]

/-- A text that starts and ends with something else. -/
theorem trim_eq_self {c d : JChar} {s t : JString} (hc : isTrimmed c = false)
    (hd : isTrimmed d = false) (h : c :: s = t ++ [d]) : trim (c :: s) = c :: s := by
  rw [trim, List.dropWhile_cons_of_neg (by simp [hc]), h]
  exact List.rdropWhile_concat_neg _ _ _ (by simp [hd])

/-- What is left starts with something else. -/
theorem isTrimmed_of_trim {c : JChar} {s t : JString} (h : trim s = c :: t) :
    isTrimmed c = false := by
  have hprefix : c :: t <+: s.dropWhile isTrimmed := h ▸ List.rdropWhile_prefix _ _
  obtain ⟨u, hu⟩ := hprefix
  have hne : s.dropWhile isTrimmed ≠ [] := by
    rw [← hu]
    exact List.cons_ne_nil _ _
  have hhead := List.head_dropWhile_not isTrimmed hne
  simpa [← hu] using hhead

theorem trim_trim (s : JString) : trim (trim s) = trim s := by
  cases h : trim s with
  | nil => rfl
  | cons c t =>
    have hlast : ¬ isTrimmed ((trim s).getLast (by rw [h]; exact List.cons_ne_nil c t)) :=
      List.rdropWhile_last_not _ _ _
    obtain ⟨u, d, hu⟩ := (List.eq_nil_or_concat' (c :: t)).resolve_left (List.cons_ne_nil c t)
    refine trim_eq_self (isTrimmed_of_trim h) (Bool.eq_false_iff.mpr ?_) hu
    simpa only [h, hu, List.getLast_concat] using hlast

/-! ## The expression -/

/-- `p+` -/
def plus (p : JChar → Bool) : Regex JChar := .seq (.one p) (.many true p)

/-- `(\S+)/(\d+)\.(\d+)`. Half of a pair is in `\S` as the pair is: units stand for characters. -/
def VERSION_PATTERN : Regex JChar :=
  .seq (.group (plus isNonSpace)) (.seq (.literal (lit "/"))
    (.seq (.group (plus isDigit)) (.seq (.literal (lit ".")) (.group (plus isDigit)))))

theorem parses_plus {p : JChar → Bool} {x : JString} {gs : List JString} :
    Parses (plus p) x gs ↔ x ≠ [] ∧ (∀ c ∈ x, p c) ∧ gs = [] := by
  simp only [plus, Parses]
  constructor
  · rintro ⟨y, gs1, z, gs2, rfl, rfl, ⟨⟨c, hc, rfl⟩, rfl⟩, hz, rfl⟩
    refine ⟨List.cons_ne_nil _ _, fun d hd => ?_, rfl⟩
    rcases List.mem_cons.mp hd with rfl | hd
    · exact hc
    · exact hz d hd
  · rintro ⟨hne, hx, rfl⟩
    obtain ⟨c, s, rfl⟩ := List.exists_cons_of_ne_nil hne
    exact ⟨[c], [], s, [], rfl, rfl, ⟨⟨c, hx c List.mem_cons_self, rfl⟩, rfl⟩,
      fun d hd => hx d (List.mem_cons_of_mem c hd), rfl⟩

/-- The text `name/a.b`. -/
def versionText (name a b : JString) : JString := name ++ 0x2F :: (a ++ 0x2E :: b)

/-- What the expression matches. -/
structure IsVersion (name a b : JString) : Prop where
  name_ne : name ≠ []
  name_nonSpace : ∀ c ∈ name, isNonSpace c
  a_ne : a ≠ []
  a_digit : ∀ c ∈ a, isDigit c
  b_ne : b ≠ []
  b_digit : ∀ c ∈ b, isDigit c

theorem parses_version {x : JString} {gs : List JString} :
    Parses VERSION_PATTERN x gs ↔
      ∃ name a b, IsVersion name a b ∧ x = versionText name a b ∧ gs = [name, a, b] := by
  have hslash : lit "/" = [0x2F] := rfl
  have hdot : lit "." = [0x2E] := rfl
  simp only [VERSION_PATTERN, Parses, parses_plus, hslash, hdot]
  constructor
  · rintro ⟨name, gs1, y, gs2, rfl, rfl, ⟨_, rfl, hname, hname', rfl⟩, _, _, z, gs3, rfl, rfl,
      ⟨rfl, rfl⟩, a, _, w, gs4, rfl, rfl, ⟨_, rfl, ha, ha', rfl⟩, _, _, b, gs5, rfl, rfl,
      ⟨rfl, rfl⟩, _, rfl, hb, hb', rfl⟩
    exact ⟨name, a, b, ⟨hname, hname', ha, ha', hb, hb'⟩, rfl, rfl⟩
  · rintro ⟨name, a, b, h, rfl, rfl⟩
    exact ⟨name, [name], _, [a, b], rfl, rfl, ⟨[], rfl, h.name_ne, h.name_nonSpace, rfl⟩,
      [0x2F], [], _, [a, b], rfl, rfl, ⟨rfl, rfl⟩,
      a, [a], _, [b], rfl, rfl, ⟨[], rfl, h.a_ne, h.a_digit, rfl⟩,
      [0x2E], [], b, [b], rfl, rfl, ⟨rfl, rfl⟩, [], rfl, h.b_ne, h.b_digit, rfl⟩

theorem notMem_of_digits {c : JChar} {s : JString} (hs : ∀ d ∈ s, isDigit d)
    (hc : isDigit c = false) : c ∉ s := fun hm => by
  rw [hs c hm] at hc
  exact Bool.noConfusion hc

/-- **One parse**: the last slash ends the name, and the only dot behind it the first number. -/
theorem versionText_inj {name a b name' a' b' : JString} (h : IsVersion name a b)
    (h' : IsVersion name' a' b') (heq : versionText name a b = versionText name' a' b') :
    name = name' ∧ a = a' ∧ b = b' := by
  have hno : ∀ {name a b : JString}, IsVersion name a b → (0x2F : JChar) ∉ a ++ 0x2E :: b := by
    intro name a b h hm
    rcases List.mem_append.mp hm with hm | hm
    · exact notMem_of_digits h.a_digit (by decide) hm
    · rcases List.mem_cons.mp hm with hm | hm
      · exact absurd hm (by decide)
      · exact notMem_of_digits h.b_digit (by decide) hm
  obtain ⟨hname, hnum⟩ := append_cons_inj_of_notMem_right (hno h) (hno h') heq
  obtain ⟨ha, -, hb⟩ := (List.append_cons_inj_of_notMem
    (notMem_of_digits (c := 0x2E) h.a_digit (by decide))
    (notMem_of_digits (c := 0x2E) h.b_digit (by decide))).mp hnum
  exact ⟨hname, ha, hb⟩

theorem groups_first_version {name a b : JString} (h : IsVersion name a b) :
    ∃ m, first VERSION_PATTERN (versionText name a b) = some m ∧ m.groups = [name, a, b] := by
  refine groups_first_of_unique (parses_version.mpr ⟨name, a, b, h, rfl, rfl⟩) fun gs hgs => ?_
  obtain ⟨name', a', b', h', heq, rfl⟩ := parses_version.mp hgs
  obtain ⟨rfl, rfl, rfl⟩ := versionText_inj h h' heq
  rfl

/-! ## `HttpVersion` -/

/-- An `HttpVersion` with all its fields; `text` is `getText()` of the others. -/
structure Version extends HttpVersion where
  keepAliveDefault : Bool
  deriving DecidableEq

namespace HttpVersion

variable (U : UpperCase)

/-- `new HttpVersion(text, keepAliveDefault)`. -/
def ofText (text : JString) (keepAliveDefault : Bool) : Except Throwable Version := do
  let text := U.toUpperCase (trim text)
  if text = [] then throw .illegalArgument
  match first VERSION_PATTERN text with
  | none => throw .illegalArgument
  | some m =>
    let majorVersion ← parseInt (m.group 2)
    let minorVersion ← parseInt (m.group 3)
    return ⟨⟨m.group 1, majorVersion, minorVersion⟩, keepAliveDefault⟩

/-- `new HttpVersion(protocolName, majorVersion, minorVersion, keepAliveDefault)`. -/
def ofParts (protocolName : JString) (majorVersion minorVersion : Int) (keepAliveDefault : Bool) :
    Except Throwable Version := do
  let protocolName := U.toUpperCase (trim protocolName)
  if protocolName = [] then throw .illegalArgument
  if protocolName.any fun c => isISOControl c || Manager.isWhitespace c then throw .illegalArgument
  if majorVersion < 0 then throw .illegalArgument
  if minorVersion < 0 then throw .illegalArgument
  return ⟨⟨protocolName, majorVersion.toNat, minorVersion.toNat⟩, keepAliveDefault⟩

/-- `valueOf(text)`. -/
def valueOf (text : JString) : Except Throwable Version :=
  let text := U.toUpperCase (trim text)
  if text = lit "HTTP/1.1" then .ok ⟨HTTP_1_1, true⟩
  else if text = lit "HTTP/1.0" then .ok ⟨HTTP_1_0, false⟩
  else ofText U text true

/-- The versions the program can have; a version number is an `int`. -/
inductive Made : Version → Prop where
  | ofText {text : JString} {k : Bool} {v : Version} (h : ofText U text k = .ok v) : Made v
  | ofParts {name : JString} {a b : Int} {k : Bool} {v : Version} (ha : a < 2147483648)
      (hb : b < 2147483648) (h : ofParts U name a b k = .ok v) : Made v
  | valueOf {text : JString} {v : Version} (h : valueOf U text = .ok v) : Made v

variable {U} {v : Version}

/-- **What `HttpVersion(text)` reads.** -/
theorem ofText_eq_ok_iff (U : UpperCase) (text : JString) (k : Bool) (v : Version) :
    ofText U text k = .ok v ↔
      ∃ a b, IsVersion v.protocolName a b ∧
        U.toUpperCase (trim text) = versionText v.protocolName a b ∧
        v.majorVersion = digits a ∧ v.minorVersion = digits b ∧
        digits a < 2147483648 ∧ digits b < 2147483648 ∧ v.keepAliveDefault = k := by
  constructor
  · intro h
    unfold ofText at h
    dsimp only at h
    split at h
    · cases h
    · split at h
      · cases h
      · next m hm =>
        obtain ⟨name, a, b, hv, htext, hgroups⟩ := parses_version.mp (parses_of_first hm)
        have h1 : m.group 1 = name := by rw [Match.group, hgroups]; rfl
        have h2 : m.group 2 = a := by rw [Match.group, hgroups]; rfl
        have h3 : m.group 3 = b := by rw [Match.group, hgroups]; rfl
        rw [h1, h2, h3] at h
        by_cases ha : digits a < 2147483648
        · by_cases hb : digits b < 2147483648
          · rw [parseInt, if_pos ha, parseInt, if_pos hb] at h
            cases h
            exact ⟨a, b, hv, htext, rfl, rfl, ha, hb, rfl⟩
          · rw [parseInt, if_pos ha, parseInt, if_neg hb] at h
            cases h
        · rw [parseInt, if_neg ha] at h
          cases h
  · obtain ⟨⟨name, major, minor⟩, k'⟩ := v
    rintro ⟨a, b, hv, htext, rfl, rfl, ha, hb, rfl⟩
    obtain ⟨m, hm, hgroups⟩ := groups_first_version hv
    have hne : versionText name a b ≠ [] := by simp [versionText]
    have h1 : m.group 1 = name := by rw [Match.group, hgroups]; rfl
    have h2 : m.group 2 = a := by rw [Match.group, hgroups]; rfl
    have h3 : m.group 3 = b := by rw [Match.group, hgroups]; rfl
    unfold ofText
    dsimp only at htext ⊢
    rw [htext, if_neg hne, hm]
    dsimp only
    rw [h1, h2, h3, parseInt, if_pos ha, parseInt, if_pos hb]
    rfl

/-- A version whose text is read as itself. -/
structure Legible (U : UpperCase) (v : HttpVersion) : Prop where
  name_ne : v.protocolName ≠ []
  name_nonSpace : ∀ c ∈ v.protocolName, isNonSpace c
  name_head : ∀ c s, v.protocolName = c :: s → isTrimmed c = false
  name_upper : U.toUpperCase v.protocolName = v.protocolName
  major_lt : v.majorVersion < 2147483648
  minor_lt : v.minorVersion < 2147483648

theorem toUpperCase_versionText (U : UpperCase) {name a b : JString} (h : IsVersion name a b) :
    U.toUpperCase (versionText name a b) = versionText (U.toUpperCase name) a b := by
  refine U.append_numeric _ _ fun c hc => ?_
  have hdigit : ∀ c : JChar, isDigit c → isNumeric c := by
    intro c hc
    simp only [isDigit, isNumeric, Bool.and_eq_true, decide_eq_true_eq] at hc ⊢
    omega
  rcases List.mem_cons.mp hc with rfl | hc
  · decide
  rcases List.mem_append.mp hc with hc | hc
  · exact hdigit c (h.a_digit c hc)
  rcases List.mem_cons.mp hc with rfl | hc
  · decide
  · exact hdigit c (h.b_digit c hc)

theorem trim_versionText {name a b : JString} (h : IsVersion name a b)
    (hhead : ∀ c s, name = c :: s → isTrimmed c = false) :
    trim (versionText name a b) = versionText name a b := by
  obtain ⟨c, s, rfl⟩ := List.exists_cons_of_ne_nil h.name_ne
  obtain ⟨t, d, rfl⟩ := (List.eq_nil_or_concat' b).resolve_left h.b_ne
  have hd : isTrimmed d = false := by
    have := h.b_digit d (by simp)
    simp only [isDigit, isTrimmed, Bool.and_eq_true, decide_eq_true_eq, decide_eq_false_iff_not]
      at this ⊢
    omega
  exact trim_eq_self (t := c :: s ++ 0x2F :: (a ++ 0x2E :: t)) (hhead c s rfl) hd (by simp)

/-- A text in upper case gives a legible version. -/
theorem legible_of_text {text a b : JString} {v : HttpVersion} (hv : IsVersion v.protocolName a b)
    (h : U.toUpperCase (trim text) = versionText v.protocolName a b)
    (hmajor : v.majorVersion < 2147483648) (hminor : v.minorVersion < 2147483648) :
    Legible U v := by
  refine ⟨hv.name_ne, hv.name_nonSpace, ?_, ?_, hmajor, hminor⟩
  · intro c s hname
    cases htrim : trim text with
    | nil =>
      rw [htrim, U.nil, versionText, hname] at h
      exact absurd h.symm (List.cons_ne_nil _ _)
    | cons d t =>
      obtain ⟨c', t', hupper, hc'⟩ := U.head d t (isTrimmed_of_trim htrim)
      rw [htrim, hupper, versionText, hname] at h
      rw [← (List.cons.inj h).1]
      exact hc'
  · have hidem := U.idempotent (trim text)
    rw [h, toUpperCase_versionText U hv] at hidem
    exact List.append_cancel_right hidem

/-- The name of the other constructor has no character below the exclamation mark. -/
theorem nonSpace_of_valid {c : JChar}
    (h : (isISOControl c || Manager.isWhitespace c) = false) :
    isNonSpace c ∧ isTrimmed c = false := by
  simp only [isISOControl, Manager.isWhitespace, isNonSpace, isTrimmed, Bool.or_eq_false_iff,
    Bool.and_eq_false_iff, decide_eq_false_iff_not, beq_eq_false_iff_ne, Bool.not_eq_true',
    ne_eq] at h ⊢
  omega

theorem ofParts_eq_ok_iff (U : UpperCase) (name : JString) (major minor : Int) (k : Bool)
    (v : Version) :
    ofParts U name major minor k = .ok v ↔
      v = ⟨⟨U.toUpperCase (trim name), major.toNat, minor.toNat⟩, k⟩ ∧
        U.toUpperCase (trim name) ≠ [] ∧
        (∀ c ∈ U.toUpperCase (trim name),
          (isISOControl c || Manager.isWhitespace c) = false) ∧ 0 ≤ major ∧ 0 ≤ minor := by
  unfold ofParts
  dsimp only
  by_cases hne : U.toUpperCase (trim name) = []
  · rw [if_pos hne]
    exact ⟨fun h => (by cases h), fun h => absurd hne h.2.1⟩
  rw [if_neg hne]
  by_cases hany : (U.toUpperCase (trim name)).any fun c => isISOControl c || Manager.isWhitespace c
  · rw [if_pos hany]
    obtain ⟨c, hc, hbad⟩ := List.any_eq_true.mp hany
    refine ⟨fun h => (by cases h), fun h => ?_⟩
    rw [h.2.2.1 c hc] at hbad
    cases hbad
  rw [if_neg hany]
  have hall : ∀ c ∈ U.toUpperCase (trim name),
      (isISOControl c || Manager.isWhitespace c) = false := by
    intro c hc
    by_contra hbad
    exact hany (List.any_eq_true.mpr ⟨c, hc, Bool.eq_true_of_not_eq_false hbad⟩)
  by_cases hmajor : major < 0
  · rw [if_pos hmajor]
    exact ⟨fun h => (by cases h), fun h => absurd h.2.2.2.1 (Int.not_le.mpr hmajor)⟩
  rw [if_neg hmajor]
  by_cases hminor : minor < 0
  · rw [if_pos hminor]
    exact ⟨fun h => (by cases h), fun h => absurd h.2.2.2.2 (Int.not_le.mpr hminor)⟩
  rw [if_neg hminor]
  constructor
  · intro h
    cases h
    exact ⟨rfl, hne, hall, Int.not_lt.mp hmajor, Int.not_lt.mp hminor⟩
  · rintro ⟨rfl, -⟩
    rfl

theorem Made.legible (h : Made U v) : Legible U v.toHttpVersion := by
  have hofText : ∀ {text : JString} {k : Bool}, HttpVersion.ofText U text k = .ok v →
      Legible U v.toHttpVersion := by
    intro text k h
    obtain ⟨a, b, hv, htext, hmajor, hminor, ha, hb, -⟩ := (ofText_eq_ok_iff U text k v).mp h
    exact legible_of_text hv htext (hmajor ▸ ha) (hminor ▸ hb)
  cases h with
  | ofText h => exact hofText h
  | @ofParts name a b k _ ha hb h =>
    obtain ⟨rfl, hne, hvalid, h0a, h0b⟩ := (ofParts_eq_ok_iff U name a b k v).mp h
    refine ⟨hne, fun c hc => (nonSpace_of_valid (hvalid c hc)).1, fun c s hname => ?_,
      U.idempotent _, ?_, ?_⟩
    · have hname : U.toUpperCase (trim name) = c :: s := hname
      exact (nonSpace_of_valid (hvalid c (by rw [hname]; exact List.mem_cons_self))).2
    · dsimp only
      omega
    · dsimp only
      omega
  | @valueOf text _ h =>
    unfold HttpVersion.valueOf at h
    dsimp only at h
    have hone : ∀ n, n < 2 → IsVersion (lit "HTTP") (lit "1") (decimal n) := by
      intro n hn
      have hname : (lit "HTTP").all isNonSpace = true := by decide
      have hmajor : (lit "1").all isDigit = true := by decide
      exact ⟨by decide, List.all_eq_true.mp hname, by decide, List.all_eq_true.mp hmajor,
        decimal_ne_nil n, fun c hc => isDigit_of_mem_decimal hc⟩
    split at h
    · next htext =>
      cases h
      exact legible_of_text (v := HTTP_1_1) (hone 1 (by decide)) htext (by decide) (by decide)
    · split at h
      · next htext =>
        cases h
        exact legible_of_text (v := HTTP_1_0) (hone 0 (by decide)) htext (by decide) (by decide)
      · exact hofText h

theorem isVersion_of_legible {v : HttpVersion} (h : Legible U v) :
    IsVersion v.protocolName (decimal v.majorVersion) (decimal v.minorVersion) :=
  ⟨h.name_ne, h.name_nonSpace, decimal_ne_nil _, fun _ hc => isDigit_of_mem_decimal hc,
    decimal_ne_nil _, fun _ hc => isDigit_of_mem_decimal hc⟩

/-- The text of a legible version passes `trim()` and `toUpperCase()`. -/
theorem toUpperCase_getText {v : HttpVersion} (h : Legible U v) :
    U.toUpperCase (trim v.getText) = v.getText := by
  have hv := isVersion_of_legible h
  have htext : v.getText = versionText v.protocolName _ _ := getText_eq v
  rw [htext, trim_versionText hv h.name_head, toUpperCase_versionText U hv, h.name_upper]

/-- **The text of a version is read as the version.** -/
theorem valueOf_getText (h : Made U v) :
    valueOf U v.getText = .ok ⟨v.toHttpVersion, decide (v.toHttpVersion ≠ HTTP_1_0)⟩ := by
  have hlegible := h.legible
  unfold valueOf
  dsimp only
  rw [toUpperCase_getText hlegible]
  have h11t : lit "HTTP/1.1" = HTTP_1_1.getText := by decide
  have h10t : lit "HTTP/1.0" = HTTP_1_0.getText := by decide
  rw [h11t, h10t]
  by_cases h11 : v.toHttpVersion = HTTP_1_1
  · rw [h11, if_pos rfl]
    rfl
  rw [if_neg fun htext => h11 (getText_inj htext)]
  by_cases h10 : v.toHttpVersion = HTTP_1_0
  · rw [h10, if_pos rfl]
    rfl
  rw [if_neg fun htext => h10 (getText_inj htext), decide_eq_true h10]
  refine (ofText_eq_ok_iff U _ true _).mpr ⟨_, _, isVersion_of_legible hlegible, ?_, ?_⟩
  · rw [toUpperCase_getText hlegible, getText_eq]
    rfl
  · simp only [digits_decimal]
    exact ⟨trivial, trivial, hlegible.major_lt, hlegible.minor_lt, trivial⟩

/-- A version that is none of the constants, from a text that is not in upper case. -/
theorem valueOf_getText_rtsp :
    valueOf asciiUpperCase (HttpVersion.getText ⟨lit "RTSP", 1, 0⟩) =
      .ok ⟨⟨lit "RTSP", 1, 0⟩, true⟩ :=
  valueOf_getText (.ofText (show ofText asciiUpperCase (lit " rtsp/01.0 ") false =
    .ok ⟨⟨lit "RTSP", 1, 0⟩, false⟩ from rfl))

/-- **The constructors do not take the same names.** -/
theorem ofParts_of_ofText_iff {text : JString} {k : Bool} (h : ofText U text k = .ok v) :
    ofParts U v.protocolName v.majorVersion v.minorVersion k = .ok v ↔
      ∀ c ∈ v.protocolName, (isISOControl c || Manager.isWhitespace c) = false := by
  have hlegible := (Made.ofText h).legible
  obtain ⟨a, b, -, -, -, -, -, -, hk⟩ := (ofText_eq_ok_iff U text k v).mp h
  rw [ofParts_eq_ok_iff]
  constructor
  · rintro ⟨hv, -, hvalid, -⟩
    have hname : v.protocolName = U.toUpperCase (trim v.protocolName) :=
      congrArg (fun w : Version => w.protocolName) hv
    rwa [hname]
  · intro hvalid
    obtain ⟨c, s, hcons⟩ := List.exists_cons_of_ne_nil hlegible.name_ne
    obtain ⟨t, d, hlast⟩ := (List.eq_nil_or_concat' v.protocolName).resolve_left hlegible.name_ne
    have hd := (nonSpace_of_valid (hvalid d (by rw [hlast]; simp))).2
    have htrim : trim v.protocolName = v.protocolName := by
      rw [hcons]
      exact trim_eq_self (hlegible.name_head c s hcons) hd (hcons ▸ hlast)
    rw [htrim, hlegible.name_upper]
    exact ⟨by rw [← hk]; rfl, hlegible.name_ne, hvalid, Int.natCast_nonneg _, Int.natCast_nonneg _⟩

/-- A name with a control character in it. -/
theorem ofParts_of_ofText_control :
    ofParts asciiUpperCase [0x41, 0x01] 1 1 true = .ok ⟨⟨[0x41, 0x01], 1, 1⟩, true⟩ ↔
      ∀ c ∈ [0x41, 0x01], (isISOControl c || Manager.isWhitespace c) = false :=
  ofParts_of_ofText_iff (show ofText asciiUpperCase ([0x41, 0x01] ++ lit "/1.1") true =
    .ok ⟨⟨[0x41, 0x01], 1, 1⟩, true⟩ from rfl)

end HttpVersion

/-! ## `HttpMethod` -/

namespace HttpMethod

/-- The constants, by their names. -/
def methodMap : List JString :=
  [lit "OPTIONS", lit "GET", lit "HEAD", lit "POST", lit "PUT", lit "PATCH", lit "DELETE",
    lit "TRACE", lit "CONNECT"]

/-- `new HttpMethod(name)`, of which the program keeps the name. -/
def ofName (name : JString) : Except Throwable JString := do
  let name := trim name
  if name = [] then throw .illegalArgument
  if name.any fun c => isISOControl c || Manager.isWhitespace c then throw .illegalArgument
  return name

/-- `valueOf(name)`. -/
def valueOf (name : JString) : Except Throwable JString := do
  let name := trim name
  if name = [] then throw .illegalArgument
  match methodMap.find? (· = name) with
  | some result => return result
  | none => ofName name

/-- A name without blanks around it, of characters a method may have. -/
def IsToken (name : JString) : Prop :=
  name ≠ [] ∧ trim name = name ∧
    ∀ c ∈ name, (isISOControl c || Manager.isWhitespace c) = false

theorem ofName_eq_ok_iff (name name' : JString) :
    ofName name = .ok name' ↔ name' = trim name ∧ IsToken name' := by
  unfold ofName
  dsimp only
  by_cases hne : trim name = []
  · rw [if_pos hne]
    refine ⟨fun h => (by cases h), ?_⟩
    rintro ⟨rfl, h, -⟩
    exact absurd hne h
  rw [if_neg hne]
  by_cases hany : (trim name).any fun c => isISOControl c || Manager.isWhitespace c
  · rw [if_pos hany]
    obtain ⟨c, hc, hbad⟩ := List.any_eq_true.mp hany
    refine ⟨fun h => (by cases h), ?_⟩
    rintro ⟨rfl, -, -, hvalid⟩
    rw [hvalid c hc] at hbad
    cases hbad
  · rw [if_neg hany]
    constructor
    · intro h
      cases h
      refine ⟨rfl, hne, trim_trim name, fun c hc => ?_⟩
      by_contra hbad
      exact hany (List.any_eq_true.mpr ⟨c, hc, Bool.eq_true_of_not_eq_false hbad⟩)
    · rintro ⟨rfl, -⟩
      rfl

theorem isToken_of_mem_methodMap {name : JString} (h : name ∈ methodMap) : IsToken name := by
  have hall : methodMap.all (fun name => name != [] && (trim name == name &&
      name.all fun c => !(isISOControl c || Manager.isWhitespace c))) = true := by decide
  have hname := List.all_eq_true.mp hall name h
  simp only [Bool.and_eq_true, bne_iff_ne, beq_iff_eq] at hname
  obtain ⟨hne, htrim, hchars⟩ := hname
  refine ⟨hne, htrim, fun c hc => ?_⟩
  exact (Bool.not_eq_true' _).mp (List.all_eq_true.mp hchars c hc)

/-- **A cached method** is the one the constructor makes of the name. -/
theorem valueOf_eq (name : JString) : valueOf name = ofName name := by
  unfold valueOf
  dsimp only
  by_cases hne : trim name = []
  · have hname : ofName name = .error .illegalArgument := by
      unfold ofName
      dsimp only
      rw [if_pos hne]
      rfl
    rw [if_pos hne, hname]
    rfl
  rw [if_neg hne]
  have htrim : ofName (trim name) = ofName name := by
    unfold ofName
    rw [trim_trim]
  split
  · next result hfind =>
    have hresult : result = trim name := by simpa using List.find?_some hfind
    have htoken := isToken_of_mem_methodMap (List.mem_of_find?_eq_some hfind)
    exact ((ofName_eq_ok_iff name result).mpr ⟨hresult, htoken⟩).symm
  · exact htrim

/-- The name of a method is read as the method. -/
theorem valueOf_name {name name' : JString} (h : ofName name = .ok name') :
    valueOf name' = .ok name' := by
  have htoken := ((ofName_eq_ok_iff name name').mp h).2
  rw [valueOf_eq]
  exact (ofName_eq_ok_iff name' name').mpr ⟨htoken.2.1.symm, htoken⟩

end HttpMethod

end Terminator.Netty
