import Terminator.Plugin.Base64ForAPP

/-!
# What `Base64ForAPP.decode` accepts

`decode` as a scan of its characters (`scan`), one at a time: a group has four of them, a character
that is not in the alphabet leaves the group as it is, and a `=` ends the text behind two or three.

A `do` loop that begins at the end of the text reads past it. So the end is safe between two groups,
which is where the `while` loop looks, and behind a character that was skipped.

* `decode_eq`: `decode` is the scan;
* **`round_trip`**: what `encode` writes is decoded to the same bytes, whatever other characters are
  put into it;
* `decode_cases`, **`decode_returns_iff`**: the strings that `decode` returns on; it reads past the
  end of any other one.
-/

namespace Terminator.Plugin.Base64ForAPP

open Terminator.Java Terminator.Java.Lines Terminator.Encoding

/-! ## The scan -/

/-- Which `do` loop reads next, and the value the one before it has read. -/
inductive Phase where
  | first
  | second (b1 : Nat)
  | third (b2 : Nat)
  | fourth (b3 : Nat)

namespace Phase

/-- The characters of the group that have been read. -/
def taken : Phase → Nat
  | first => 0
  | second _ => 1
  | third _ => 2
  | fourth _ => 3

/-- The loop returns at a `=`. -/
def pads : Phase → Bool
  | first => false
  | second _ => false
  | third _ => true
  | fourth _ => true

def next : Phase → Nat → Phase
  | first, v => second v
  | second _, v => third v
  | third _, v => fourth v
  | fourth _, _ => first

/-- What is appended once the loop has read `v`. -/
def out : Phase → Nat → JString
  | first, _ => []
  | second b1, v => [char1 b1 v]
  | third b2, v => [char2 b2 v]
  | fourth b3, v => [char3 b3 v]

theorem taken_next (p : Phase) (v : Nat) : (p.next v).taken = (p.taken + 1) % 4 := by
  cases p <;> simp [next, taken]

theorem pads_iff (p : Phase) : p.pads = true ↔ 2 ≤ p.taken := by
  cases p <;> simp [pads, taken]

theorem taken_lt (p : Phase) : p.taken < 4 := by
  cases p <;> simp [taken]

end Phase

/-- `=`. -/
def EQ : JChar := 0x3D

/-- A character of the alphabet. -/
def isBase64 (c : JChar) : Bool := (Rfc4648.value c.toNat).isSome

/-- The characters from a place on; the loop of `p` is about to begin there if `fresh`, and has
skipped some otherwise. -/
def scan (p : Phase) (fresh : Bool) : JString → Except Throwable JString
  | [] => if fresh = true ∧ p.taken ≠ 0 then .error .indexOutOfBounds else .ok []
  | c :: s =>
    match Rfc4648.value c.toNat with
    | some v => (scan (p.next v) true s).map (p.out v ++ ·)
    | none => if p.pads = true ∧ c = EQ then .ok [] else scan p false s

section Scan

variable {p : Phase} {fresh : Bool} {c : JChar} {s : JString}

theorem scan_value {v : Nat} (hv : Rfc4648.value c.toNat = some v) :
    scan p fresh (c :: s) = (scan (p.next v) true s).map (p.out v ++ ·) := by
  rw [scan, hv]

theorem scan_pad (hpads : p.pads = true) : scan p fresh (EQ :: s) = .ok [] := by
  have hv : Rfc4648.value EQ.toNat = none := rfl
  rw [scan, hv]
  exact if_pos ⟨hpads, rfl⟩

theorem scan_noise (hv : Rfc4648.value c.toNat = none) (hpad : ¬ (p.pads = true ∧ c = EQ)) :
    scan p fresh (c :: s) = scan p false s := by
  rw [scan, hv]
  exact if_neg hpad

theorem scan_nil_of_stale : scan p false [] = .ok [] := if_neg fun h => Bool.noConfusion h.1

theorem scan_nil_of_fresh (hp : p.taken ≠ 0) : scan p true [] = .error .indexOutOfBounds :=
  if_pos ⟨rfl, hp⟩

theorem map_append_append (out : Except Throwable JString) (sb sb' : JString) :
    (out.map (sb' ++ ·)).map (sb ++ ·) = out.map (sb ++ sb' ++ ·) := by
  cases out with
  | error e => rfl
  | ok s => simp [Except.map]

end Scan

/-! ## `decode` is the scan -/

section Loops

variable {data : List Byte} {i : Nat} {pads : Bool} {sb : JString}

theorem base64DecodeChars_eq :
    base64DecodeChars = (List.range 128).map fun c => (Rfc4648.value c).elim (-1) Int.ofNat := by
  decide

theorem load_decodeChars {c : Nat} (hc : c < 128) :
    load base64DecodeChars c = .ok ((Rfc4648.value c).elim (-1) Int.ofNat) := by
  rw [base64DecodeChars_eq, load_map_range _ hc]

theorem reading_at_end {rest : Read i → Except Throwable JString} (h : data.drop i = []) :
    reading pads data i sb rest = .error .indexOutOfBounds := by
  have hi : data[i]? = none := by simpa using h
  have hload : load data i = .error .indexOutOfBounds := by
    unfold load
    rw [hi]
  rw [reading, readChar, hload]
  rfl

section Character

variable {b : Byte} {tail : List Byte} {rest : Read i → Except Throwable JString}
  (h : data.drop i = b :: tail)
include h

theorem reading_pad (hpads : pads = true) (hb : b = 61) :
    reading pads data i sb rest = .ok sb := by
  rw [reading, readChar, (load_of_drop h).1]
  simp only [bind, Except.bind, if_pos (And.intro hpads hb)]
  rfl

theorem reading_value (hb : b.toNat < 128) {v : Nat} (hv : Rfc4648.value b.toNat = some v) :
    reading pads data i sb rest = rest ⟨i + 1, Nat.lt_succ_self i, v⟩ := by
  have hpad : ¬ (pads = true ∧ b = 61) := by
    rintro ⟨-, rfl⟩
    simp [Rfc4648.value] at hv
  have hvalue : ¬ Int.ofNat v = -1 := by simp
  have hmore : ¬ (i + 1 < data.length ∧ Int.ofNat v = -1) := fun hmore => hvalue hmore.2
  rw [reading, readChar, (load_of_drop h).1]
  simp only [bind, Except.bind, if_neg hpad, load_decodeChars hb, hv, Option.elim, if_neg hmore,
    pure, Except.pure, if_neg hvalue]
  rfl

theorem reading_noise (hb : b.toNat < 128) (hv : Rfc4648.value b.toNat = none)
    (hpad : ¬ (pads = true ∧ b = 61)) (hi : i + 1 < data.length) :
    reading pads data i sb rest =
      reading pads data (i + 1) sb
        fun r => rest ⟨r.next, Nat.lt_of_succ_lt r.lt_next, r.value⟩ := by
  have hmore : i + 1 < data.length ∧ True := ⟨hi, trivial⟩
  rw [reading, readChar, (load_of_drop h).1, reading]
  simp only [bind, Except.bind, if_neg hpad, load_decodeChars hb, hv, Option.elim, if_pos hmore]
  cases readChar pads data (i + 1) with
  | error e => rfl
  | ok read => cases read <;> rfl

theorem reading_last_noise (hb : b.toNat < 128) (hv : Rfc4648.value b.toNat = none)
    (hpad : ¬ (pads = true ∧ b = 61)) (hi : ¬ i + 1 < data.length) :
    reading pads data i sb rest = .ok sb := by
  have hmore : ¬ (i + 1 < data.length ∧ True) := fun hmore => hi hmore.1
  rw [reading, readChar, (load_of_drop h).1]
  simp only [bind, Except.bind, if_neg hpad, load_decodeChars hb, hv, Option.elim, if_neg hmore]
  rfl

end Character

/-- The characters of the data from an index on. -/
def charsFrom (data : List Byte) (i : Nat) : JString := chars (data.drop i)

theorem toNat_char (b : Byte) : (UInt16.ofNat b.toNat).toNat = b.toNat := by
  have hb : b.toNat < 2 ^ 16 := Nat.lt_trans b.toNat_lt (by decide)
  exact UInt16.toNat_ofNat_of_lt' hb

theorem char_eq_EQ_iff (b : Byte) : UInt16.ofNat b.toNat = EQ ↔ b = 61 := by
  rw [← UInt16.toNat_inj, toNat_char, ← UInt8.toNat_inj]
  rfl

/-- A `do` loop, as far as what follows reads on as the scan does. -/
theorem reading_eq_scan (hdata : ∀ b ∈ data, b.toNat < 128) {p : Phase}
    {rest : Read i → Except Throwable JString}
    (hrest : ∀ (r : Read i) (v : Nat), r.value = v → rest r =
      (scan (p.next v) true (charsFrom data r.next)).map (sb ++ p.out v ++ ·))
    {fresh : Bool} (h : i < data.length ∨ (fresh = true ∧ p.taken ≠ 0)) :
    reading p.pads data i sb rest = (scan p fresh (charsFrom data i)).map (sb ++ ·) := by
  unfold charsFrom at hrest ⊢
  induction htail : data.drop i generalizing i fresh with
  | nil =>
    have hfresh : fresh = true ∧ p.taken ≠ 0 := by
      refine h.resolve_left fun hi => ?_
      rw [List.drop_eq_getElem_cons hi] at htail
      cases htail
    obtain ⟨rfl, hp⟩ := hfresh
    rw [reading_at_end htail, chars, List.map_nil, scan_nil_of_fresh hp]
    rfl
  | cons b tail ih =>
    obtain ⟨-, hlength, hdrop⟩ := load_of_drop htail
    have hb : b.toNat < 128 :=
      hdata b (List.mem_of_mem_drop (htail ▸ List.mem_cons_self))
    rw [chars, List.map_cons]
    cases hv : Rfc4648.value b.toNat with
    | some v =>
      rw [reading_value htail hb hv, scan_value (by rw [toNat_char, hv]), map_append_append]
      have hafter := hrest ⟨i + 1, Nat.lt_succ_self i, v⟩ v rfl
      rw [hdrop] at hafter
      exact hafter
    | none =>
      have hchar : Rfc4648.value (UInt16.ofNat b.toNat).toNat = none := by rw [toNat_char, hv]
      by_cases hpad : p.pads = true ∧ b = 61
      · rw [reading_pad htail hpad.1 hpad.2, (char_eq_EQ_iff b).mpr hpad.2, scan_pad hpad.1]
        simp [Except.map]
      · rw [scan_noise hchar (by rwa [char_eq_EQ_iff])]
        by_cases hi : i + 1 < data.length
        · rw [reading_noise htail hb hv hpad hi]
          exact ih (i := i + 1)
            (fun r v hr => hrest ⟨r.next, Nat.lt_of_succ_lt r.lt_next, r.value⟩ v hr)
            (Or.inl hi) hdrop
        · have hnil : tail = [] := List.eq_nil_of_length_eq_zero (by omega)
          rw [reading_last_noise htail hb hv hpad hi, hnil, List.map_nil, scan_nil_of_stale]
          simp [Except.map]

/-- The `while` loop. -/
theorem decodeFrom_eq (hdata : ∀ b ∈ data, b.toNat < 128) (i : Nat) (sb : JString) :
    decodeFrom data i sb = (scan .first true (charsFrom data i)).map (sb ++ ·) := by
  by_cases hi : i < data.length
  · rw [decodeFrom, if_pos hi]
    refine reading_eq_scan hdata (p := .first) (fun b1 v1 hv1 => ?_) (Or.inl hi)
    rw [hv1, Int.toNat_natCast, Phase.out, List.append_nil]
    refine reading_eq_scan hdata (p := .second v1) (fun b2 v2 hv2 => ?_)
      (Or.inr ⟨rfl, Nat.succ_ne_zero 0⟩)
    rw [hv2, Int.toNat_natCast]
    refine reading_eq_scan hdata (p := .third v2) (fun b3 v3 hv3 => ?_)
      (Or.inr ⟨rfl, Nat.succ_ne_zero 1⟩)
    rw [hv3, Int.toNat_natCast]
    refine reading_eq_scan hdata (p := .fourth v3) (fun b4 v4 hv4 => ?_)
      (Or.inr ⟨rfl, Nat.succ_ne_zero 2⟩)
    rw [hv4, Int.toNat_natCast]
    exact decodeFrom_eq hdata b4.next _
  · have hdrop : data.drop i = [] := List.drop_eq_nil_of_le (Nat.not_lt.mp hi)
    rw [decodeFrom, if_neg hi, charsFrom, hdrop]
    simp [chars, scan, Phase.taken, Except.map, pure, Except.pure]
termination_by data.length - i
decreasing_by
  have := b1.lt_next
  have := b2.lt_next
  have := b3.lt_next
  have := b4.lt_next
  omega

end Loops

/-! ## Characters that are not ASCII -/

section NotAscii

variable {p : Phase} {fresh : Bool} {c : JChar} {s s' : JString}

theorem usAscii_lt (s : JString) : ∀ b ∈ usAscii s, b.toNat < 128 := by
  have hascii : ∀ c : JChar, c.toNat < 0x80 → (UInt8.ofNat c.toNat).toNat < 128 := by
    intro c hc
    rw [UInt8.toNat_ofNat_of_lt' (Nat.lt_trans hc (by decide))]
    exact hc
  induction s using usAscii.induct with
  | case1 => simp [usAscii]
  | case2 c =>
    rw [usAscii]
    split_ifs with hc
    · simpa using hascii c hc
    · simp
  | case3 c d s hc ih =>
    rw [usAscii, if_pos hc]
    simpa using And.intro (hascii c hc) ih
  | case4 c d s hc hpair ih =>
    rw [usAscii, if_neg hc, if_pos hpair]
    simpa using ih
  | case5 c d s hc hpair ih =>
    rw [usAscii, if_neg hc, if_neg hpair]
    simpa using ih

/-- An ASCII character is read as it is. -/
theorem char_of_ascii (hc : c.toNat < 0x80) : UInt16.ofNat (UInt8.ofNat c.toNat).toNat = c := by
  rw [UInt8.toNat_ofNat_of_lt' (Nat.lt_trans hc (by decide))]
  exact UInt16.ofNat_toNat

theorem scan_skip (hv : Rfc4648.value c.toNat = none) (hc : c ≠ EQ) :
    scan p fresh (c :: s) = scan p false s :=
  scan_noise hv fun h => hc h.2

/-- Any other character is skipped, and so is the `?` that is read for it. -/
theorem scan_not_ascii (hc : ¬ c.toNat < 0x80) : scan p fresh (c :: s) = scan p false s := by
  refine scan_skip ?_ ?_
  · cases hv : Rfc4648.value c.toNat with
    | none => rfl
    | some v =>
      obtain ⟨hv, hdigit⟩ := Rfc4648.value_eq_some_iff.mp hv
      have hlt := Rfc4648.digit_lt hv
      omega
  · rintro rfl
    exact hc (by decide)

theorem scan_question : scan p fresh (0x3F :: s) = scan p false s :=
  scan_skip rfl (by decide)

theorem scan_cons_congr (h : ∀ p fresh, scan p fresh s = scan p fresh s') :
    scan p fresh (c :: s) = scan p fresh (c :: s') := by
  rw [scan, scan]
  simp only [h]

/-- A pair of surrogates is skipped as one character, which makes no difference. -/
theorem scan_usAscii (s : JString) :
    ∀ p fresh, scan p fresh (chars (usAscii s)) = scan p fresh s := by
  induction s using usAscii.induct with
  | case1 => exact fun p fresh => rfl
  | case2 c =>
    intro p fresh
    rw [usAscii]
    split_ifs with hc
    · rw [chars, List.map_singleton, char_of_ascii hc]
    · exact scan_question.trans (scan_not_ascii hc).symm
  | case3 c d s hc ih =>
    intro p fresh
    rw [usAscii, if_pos hc, chars, List.map_cons, char_of_ascii hc]
    exact scan_cons_congr ih
  | case4 c d s hc hpair ih =>
    intro p fresh
    have hd : ¬ d.toNat < 0x80 := by
      have hlow : 0xDC00 ≤ d.toNat ∧ d.toNat < 0xE000 := by
        simpa [Utf8.isLowSurrogate] using hpair.2
      omega
    rw [usAscii, if_neg hc, if_pos hpair, scan_not_ascii hc, scan_not_ascii hd]
    exact scan_question.trans (ih p false)
  | case5 c d s hc hpair ih =>
    intro p fresh
    rw [usAscii, if_neg hc, if_neg hpair, scan_not_ascii hc]
    exact scan_question.trans (ih p false)

end NotAscii

/-- **`decode` is the scan** of its characters. -/
theorem decode_eq (s : JString) : decode s = (scan .first true s).map latin1 := by
  have hloop := decodeFrom_eq (usAscii_lt s) 0 []
  rw [charsFrom, List.drop_zero, scan_usAscii] at hloop
  rw [decode, hloop]
  cases scan .first true s <;> rfl

/-! ## The round trip -/

/-- The characters a text is written with. -/
def inText (c : JChar) : Bool := isBase64 c || c == EQ

section RoundTrip

variable {p : Phase} {fresh : Bool} {c : JChar} {s : JString}

theorem scan_nil_eq_ok {out : JString} (h : scan p fresh [] = .ok out) :
    scan p false [] = .ok out := by
  rw [scan] at h
  split_ifs at h
  rw [scan_nil_of_stale]
  exact h

/-- **Other characters put into a text** leave what it is decoded to. -/
theorem scan_of_filter {fresh' : Bool} {out : JString}
    (h : scan p fresh (s.filter inText) = .ok out) (hfresh : fresh' = true → fresh = true) :
    scan p fresh' s = .ok out := by
  induction s generalizing p fresh fresh' out with
  | nil =>
    cases fresh' with
    | true => rwa [hfresh rfl] at h
    | false => exact scan_nil_eq_ok h
  | cons c s ih =>
    cases hv : Rfc4648.value c.toNat with
    | some v =>
      have hin : inText c = true := by simp [inText, isBase64, hv]
      rw [List.filter_cons_of_pos hin, scan_value hv] at h
      cases hrest : scan (p.next v) true (s.filter inText) with
      | error e =>
        rw [hrest] at h
        cases h
      | ok rest =>
        rw [scan_value hv, ih hrest (fun _ => rfl), ← h, hrest]
    | none =>
      by_cases hc : c = EQ
      · have hin : inText c = true := by simp [inText, hc]
        rw [List.filter_cons_of_pos hin] at h
        by_cases hpads : p.pads = true
        · rw [hc, scan_pad hpads] at h ⊢
          exact h
        · rw [scan_noise hv fun hpad => hpads hpad.1] at h ⊢
          exact ih h id
      · have hout : ¬ inText c = true := by simp [inText, isBase64, hv, hc]
        rw [List.filter_cons_of_neg hout] at h
        rw [scan_skip hv hc]
        exact ih h fun hfalse => Bool.noConfusion hfalse

theorem value_unit_digit {v : Nat} (hv : v < 64) :
    Rfc4648.value (unit (Rfc4648.digit v)).toNat = some v := by
  have hdigit := Rfc4648.digit_lt hv
  have hunit : (unit (Rfc4648.digit v)).toNat = Rfc4648.digit v :=
    UInt16.toNat_ofNat_of_lt' (Nat.lt_trans hdigit (by decide))
  rw [hunit, Rfc4648.value_digit hv]

/-- A character of a text. -/
theorem scan_digit {v : Nat} (hv : v < 64) :
    scan p fresh (unit (Rfc4648.digit v) :: s) =
      (scan (p.next v) true s).map (p.out v ++ ·) :=
  scan_value (value_unit_digit hv)

theorem char1_eq (b1 : Nat) {b2 : Nat} (hb : b2 < 64) : char1 b1 b2 = unit (b1 * 4 + b2 / 16) := by
  rw [char1, high_two_of_six hb, or_two b1 (by omega)]
  rfl

theorem char2_eq (b2 : Nat) {b3 : Nat} (hb : b3 < 64) :
    char2 b2 b3 = unit (b2 % 16 * 16 + b3 / 4) := by
  rw [char2, high_four_of_six hb, or_four _ (by omega), low_four]
  rfl

theorem char3_eq (b3 : Nat) {b4 : Nat} (hb : b4 < 64) : char3 b3 b4 = unit (b3 % 4 * 64 + b4) := by
  rw [char3, or_six _ hb, low_two]
  rfl

theorem unit_pad : unit Rfc4648.pad = EQ := rfl

/-- The text of some bytes is decoded to them. -/
theorem scan_encode : ∀ data : List Byte,
    scan .first true ((Rfc4648.encode data).map unit) = .ok (chars data)
  | [] => by
    rw [Rfc4648.encode_nil]
    rfl
  | [a] => by
    have ha := a.toNat_lt
    have hfirst : a.toNat / 4 * 4 + a.toNat % 4 * 16 / 16 = a.toNat := by omega
    rw [Rfc4648.encode_one]
    simp only [List.map_cons, unit_pad]
    rw [scan_digit (by omega), scan_digit (by omega)]
    simp only [Phase.next, Phase.out]
    rw [scan_pad rfl, char1_eq _ (by omega), hfirst]
    rfl
  | [a, b] => by
    have ha := a.toNat_lt
    have hb := b.toNat_lt
    have hfirst : a.toNat / 4 * 4 + (a.toNat % 4 * 16 + b.toNat / 16) / 16 = a.toNat := by omega
    have hsecond :
        (a.toNat % 4 * 16 + b.toNat / 16) % 16 * 16 + b.toNat % 16 * 4 / 4 = b.toNat := by omega
    rw [Rfc4648.encode_two]
    simp only [List.map_cons, unit_pad]
    rw [scan_digit (by omega), scan_digit (by omega), scan_digit (by omega)]
    simp only [Phase.next, Phase.out]
    rw [scan_pad rfl, char1_eq _ (by omega), char2_eq _ (by omega), hfirst, hsecond]
    rfl
  | a :: b :: c :: data => by
    have ha := a.toNat_lt
    have hb := b.toNat_lt
    have hc := c.toNat_lt
    obtain ⟨hfirst, hsecond, hthird⟩ := Rfc4648.octets_of_values (a := a.toNat) hb hc
    rw [Rfc4648.encode_three]
    simp only [List.map_cons]
    rw [scan_digit (by omega), scan_digit (by omega), scan_digit (by omega), scan_digit (by omega)]
    simp only [Phase.next, Phase.out]
    rw [scan_encode data, char1_eq _ (by omega), char2_eq _ (by omega), char3_eq _ (by omega),
      hfirst, hsecond, hthird]
    rfl

/-- **The round trip**: `encode` writes the text of RFC 4648, and `decode` returns the bytes for
every string that is this text but for characters of no text. -/
theorem round_trip (data : List Byte) :
    encode data = .ok ((Rfc4648.encode data).map unit) ∧
      ∀ s : JString, s.filter inText = (Rfc4648.encode data).map unit → decode s = .ok data := by
  refine ⟨encode_eq data, fun s hs => ?_⟩
  have htext := scan_encode data
  rw [← hs] at htext
  rw [decode_eq, scan_of_filter htext (fun _ => rfl)]
  exact congrArg Except.ok (latin1_chars data)

end RoundTrip

/-! ## The strings it returns on -/

section Returns

variable {p : Phase} {fresh : Bool} {s : JString}

/-- A `=` that ends the text: two or three characters of a group stand in front of it. -/
def Closed (taken : Nat) (s : JString) : Prop :=
  ∃ front back, s = front ++ EQ :: back ∧ 2 ≤ (taken + front.countP isBase64) % 4

/-- The end comes behind a character that is skipped. -/
def Skipped (fresh : Bool) (s : JString) : Prop :=
  s.getLast?.elim (fresh = false) fun c => isBase64 c = false

theorem closed_cons_iff (taken : Nat) (c : JChar) :
    Closed taken (c :: s) ↔
      (c = EQ ∧ 2 ≤ taken % 4) ∨ Closed (taken + [c].countP isBase64) s := by
  constructor
  · rintro ⟨front, back, hs, htaken⟩
    cases front with
    | nil =>
      rw [List.nil_append, List.cons.injEq] at hs
      exact Or.inl ⟨hs.1, by simpa using htaken⟩
    | cons d front =>
      rw [List.cons_append, List.cons.injEq] at hs
      refine Or.inr ⟨front, back, hs.2, ?_⟩
      rw [hs.1, Nat.add_assoc, ← List.countP_append]
      exact htaken
  · rintro (⟨rfl, htaken⟩ | ⟨front, back, rfl, htaken⟩)
    · exact ⟨[], s, rfl, by simpa using htaken⟩
    · refine ⟨c :: front, back, rfl, ?_⟩
      rw [Nat.add_assoc, ← List.countP_append] at htaken
      exact htaken

theorem skipped_cons_iff (c : JChar) :
    Skipped fresh (c :: s) ↔ Skipped (isBase64 c) s := by
  cases s with
  | nil => simp [Skipped]
  | cons d s =>
    rw [Skipped, Skipped, List.getLast?_cons_cons, List.getLast?_cons]
    exact Iff.rfl

theorem not_closed_nil (taken : Nat) : ¬ Closed taken [] := by
  rintro ⟨front, back, hs, -⟩
  simp at hs

@[simp] theorem closed_mod_iff (taken : Nat) : Closed (taken % 4) s ↔ Closed taken s := by
  simp [Closed]

theorem ok_map_iff (out : Except Throwable JString) (f : JString → JString) :
    (∃ s, out.map f = .ok s) ↔ ∃ s, out = .ok s := by
  cases out with
  | error e => simp [Except.map]
  | ok s => simp [Except.map]

/-- The scan returns iff a `=` ends the text, a group is complete at its end, or its last character
is skipped. -/
theorem scan_returns_iff : (∃ out, scan p fresh s = .ok out) ↔
    Closed p.taken s ∨ (p.taken + s.countP isBase64) % 4 = 0 ∨ Skipped fresh s := by
  induction s generalizing p fresh with
  | nil =>
    have htaken := p.taken_lt
    rw [or_iff_right (not_closed_nil p.taken), scan]
    by_cases hfresh : fresh = true ∧ p.taken ≠ 0
    · have hmod : ¬ p.taken % 4 = 0 := by omega
      simp [hfresh, Skipped, hmod]
    · rw [if_neg hfresh]
      refine iff_of_true ⟨[], rfl⟩ ?_
      cases fresh with
      | true =>
        have hzero : p.taken = 0 := by simpa using hfresh
        exact Or.inl (by simp [hzero])
      | false => exact Or.inr rfl
  | cons c s ih =>
    rw [closed_cons_iff, skipped_cons_iff]
    cases hv : Rfc4648.value c.toNat with
    | some v =>
      have hc : isBase64 c = true := by simp [isBase64, hv]
      have hEQ : c ≠ EQ := by
        rintro rfl
        cases hv
      have hone : [c].countP isBase64 = 1 := by simp [hc]
      have hcount : p.taken + (c :: s).countP isBase64 = p.taken + 1 + s.countP isBase64 := by
        rw [List.countP_cons_of_pos hc]
        omega
      have hopen : ¬ (c = EQ ∧ 2 ≤ p.taken % 4) := fun hpad => hEQ hpad.1
      rw [scan_value hv, ok_map_iff, ih, Phase.taken_next, closed_mod_iff, Nat.mod_add_mod,
        or_iff_right hopen, hone, hcount, hc]
    | none =>
      have hc : isBase64 c = false := by simp [isBase64, hv]
      by_cases hpad : p.pads = true ∧ c = EQ
      · have htaken := p.taken_lt
        have htwo := p.pads_iff.mp hpad.1
        rw [hpad.2, scan_pad hpad.1]
        exact iff_of_true ⟨[], rfl⟩ (Or.inl (Or.inl ⟨rfl, by omega⟩))
      · have hopen : ¬ (c = EQ ∧ 2 ≤ p.taken % 4) := by
          rintro ⟨hEQ, htwo⟩
          have htaken := p.taken_lt
          exact hpad ⟨p.pads_iff.mpr (by omega), hEQ⟩
        have hcount : [c].countP isBase64 = 0 := by simp [hc]
        rw [scan_noise hv hpad, ih, or_iff_right hopen, hcount, Nat.add_zero, hc,
          List.countP_cons_of_neg (by simp [hc])]

/-- A string is refused at its end only: the loop that begins there has nothing to read. -/
theorem scan_error {e : Throwable} (h : scan p fresh s = .error e) : e = .indexOutOfBounds := by
  induction s generalizing p fresh with
  | nil =>
    rw [scan] at h
    split_ifs at h
    exact (Except.error.inj h).symm
  | cons c s ih =>
    cases hv : Rfc4648.value c.toNat with
    | some v =>
      rw [scan_value hv] at h
      cases hrest : scan (p.next v) true s with
      | error e' =>
        rw [hrest] at h
        obtain rfl : e' = e := Except.error.inj h
        exact ih hrest
      | ok rest =>
        rw [hrest] at h
        cases h
    | none =>
      by_cases hpad : p.pads = true ∧ c = EQ
      · rw [hpad.2, scan_pad hpad.1] at h
        cases h
      · rw [scan_noise hv hpad] at h
        exact ih h

/-- Where it does not return, it has read past the end. -/
theorem decode_cases (s : JString) :
    (∃ data, decode s = .ok data) ∨ decode s = .error .indexOutOfBounds := by
  rw [decode_eq]
  cases hscan : scan .first true s with
  | error e =>
    rw [scan_error hscan]
    exact Or.inr rfl
  | ok out => exact Or.inl ⟨latin1 out, rfl⟩

/-- **The exact condition**: the number of characters of the alphabet is a multiple of four, or the
last character is none of them, or a `=` stands behind two or three characters of a group. -/
theorem decode_returns_iff (s : JString) : (∃ data, decode s = .ok data) ↔
    s.countP isBase64 % 4 = 0 ∨ (∃ c, s.getLast? = some c ∧ isBase64 c = false) ∨
      ∃ front back, s = front ++ EQ :: back ∧ 2 ≤ front.countP isBase64 % 4 := by
  have hscan : (∃ data, decode s = .ok data) ↔ ∃ out, scan .first true s = .ok out := by
    rw [decode_eq]
    cases scan .first true s <;> simp [Except.map]
  have hclosed : Closed Phase.first.taken s ↔
      ∃ front back, s = front ++ EQ :: back ∧ 2 ≤ front.countP isBase64 % 4 := by
    simp [Closed, Phase.taken]
  have hskipped : Skipped true s ↔ ∃ c, s.getLast? = some c ∧ isBase64 c = false := by
    rw [Skipped]
    cases s.getLast? <;> simp
  rw [hscan, scan_returns_iff, hclosed, hskipped, Phase.taken, Nat.zero_add,
    or_comm, or_assoc]

/-- A single character of a group: the second loop begins at the end of the data. -/
theorem not_decode_returns : ¬ ∀ s : JString, ∃ data, decode s = .ok data := by
  intro h
  obtain ⟨data, hdata⟩ := h (lit "A")
  rw [decode_eq] at hdata
  have hscan : scan .first true (lit "A") = .error .indexOutOfBounds := rfl
  rw [hscan] at hdata
  cases hdata

end Returns

end Terminator.Plugin.Base64ForAPP
