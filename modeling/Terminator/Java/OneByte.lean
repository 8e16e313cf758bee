import Terminator.Java.Text

/-!
# Strings with as many bytes as code units

The UTF-8 encoding of a string is at least as long as the string. The two lengths are the same
exactly when each unit is a byte (`length_encode_eq_iff`): it is ASCII, or a surrogate without its
pair, which the encoder replaces with `?`.

* `high_byte_of_not_oneByte`: otherwise a byte that is not ASCII comes early;
* `differ_in_last`: to every string there is another one whose encoding differs in the last byte
  alone.
-/

namespace Terminator.Java.Utf8

/-- Half of a pair. -/
def isSurrogate (c : JChar) : Bool := isHighSurrogate c || isLowSurrogate c

/-- Every unit is encoded as one byte. -/
def OneByte : JString → Prop
  | [] => True
  | [c] => c.toNat < 0x80 ∨ isSurrogate c
  | c :: d :: rest =>
    (c.toNat < 0x80 ∨ (isSurrogate c ∧ ¬(isHighSurrogate c && isLowSurrogate d))) ∧
      OneByte (d :: rest)

instance decidableOneByte : DecidablePred OneByte
  | [] => isTrue trivial
  | [c] => inferInstanceAs (Decidable (c.toNat < 0x80 ∨ isSurrogate c = true))
  | c :: d :: rest =>
    have := decidableOneByte (d :: rest)
    inferInstanceAs (Decidable ((c.toNat < 0x80 ∨
      (isSurrogate c = true ∧ ¬(isHighSurrogate c && isLowSurrogate d) = true)) ∧
        OneByte (d :: rest)))

/-! ## The bytes of a unit -/

theorem surrogate_bounds {c : JChar} (h : isSurrogate c = true) :
    0xD800 ≤ c.toNat ∧ c.toNat < 0xE000 := by
  simp [isSurrogate, isHighSurrogate, isLowSurrogate] at h
  omega

theorem not_surrogate_bounds {c : JChar} (h : ¬isSurrogate c = true) :
    c.toNat < 0xD800 ∨ 0xE000 ≤ c.toNat := by
  simp [isSurrogate, isHighSurrogate, isLowSurrogate] at h
  omega

theorem unitBytes_ascii {c : JChar} (h : c.toNat < 0x80) :
    unitBytes c = [UInt8.ofNat c.toNat] := by
  simp [unitBytes, h]

theorem unitBytes_surrogate {c : JChar} (h : isSurrogate c = true) : unitBytes c = [0x3F] := by
  have hb := surrogate_bounds h
  have h1 : ¬c.toNat < 0x80 := by omega
  have h2 : ¬c.toNat < 0x800 := by omega
  unfold isSurrogate at h
  simp [unitBytes, h1, h2, h]

theorem unitBytes_two {c : JChar} (h1 : ¬c.toNat < 0x80) (h2 : c.toNat < 0x800) :
    unitBytes c = [UInt8.ofNat (0xC0 + c.toNat / 64), UInt8.ofNat (0x80 + c.toNat % 64)] := by
  simp [unitBytes, h1, h2]

theorem unitBytes_three {c : JChar} (h : ¬c.toNat < 0x800) (hs : ¬isSurrogate c = true) :
    unitBytes c = [UInt8.ofNat (0xE0 + c.toNat / 0x1000), UInt8.ofNat (0x80 + c.toNat / 64 % 64),
      UInt8.ofNat (0x80 + c.toNat % 64)] := by
  have h1 : ¬c.toNat < 0x80 := by omega
  unfold isSurrogate at hs
  simp [unitBytes, h1, h, hs]

/-- A unit is one byte, below `0x80`, or its first byte is not. -/
theorem unitBytes_cases (c : JChar) :
    ((c.toNat < 0x80 ∨ isSurrogate c = true) ∧ ∃ b, unitBytes c = [b] ∧ b.toNat < 0x80) ∨
      (¬(c.toNat < 0x80 ∨ isSurrogate c = true) ∧
        ∃ b bs, unitBytes c = b :: bs ∧ bs ≠ [] ∧ 0x80 ≤ b.toNat) := by
  have hc : c.toNat < 65536 := c.toNat_lt
  by_cases h1 : c.toNat < 0x80
  · refine .inl ⟨.inl h1, _, unitBytes_ascii h1, ?_⟩
    simp
    omega
  by_cases hs : isSurrogate c = true
  · exact .inl ⟨.inr hs, _, unitBytes_surrogate hs, by decide⟩
  refine .inr ⟨by simp [h1, hs], ?_⟩
  by_cases h2 : c.toNat < 0x800
  · refine ⟨_, _, unitBytes_two h1 h2, by simp, ?_⟩
    simp
    omega
  · refine ⟨_, _, unitBytes_three h2 hs, by simp, ?_⟩
    simp
    omega

theorem encode_pair {c d : JChar} (h : (isHighSurrogate c && isLowSurrogate d) = true)
    (rest : JString) : encode (c :: d :: rest) =
      fourBytes (0x10000 + (c.toNat - 0xD800) * 0x400 + (d.toNat - 0xDC00)) ++ encode rest := by
  rw [encode, if_pos h]

theorem encode_unpaired {c d : JChar} (h : ¬(isHighSurrogate c && isLowSurrogate d) = true)
    (rest : JString) : encode (c :: d :: rest) = unitBytes c ++ encode (d :: rest) := by
  rw [encode, if_neg h]

/-! ## Strings of one-byte units -/

theorem oneByte_cons {c d : JChar} (h : ¬(isHighSurrogate c && isLowSurrogate d) = true)
    (rest : JString) : OneByte (c :: d :: rest) ↔
      (c.toNat < 0x80 ∨ isSurrogate c = true) ∧ OneByte (d :: rest) := by
  simp only [OneByte, h]
  simp

theorem not_oneByte_pair {c d : JChar} (h : (isHighSurrogate c && isLowSurrogate d) = true)
    (rest : JString) : ¬OneByte (c :: d :: rest) := by
  intro hone
  have hc : isSurrogate c = true := by
    simp only [Bool.and_eq_true] at h
    simp [isSurrogate, h.1]
  have hb := surrogate_bounds hc
  obtain ⟨hascii | ⟨-, hpair⟩, -⟩ := hone
  · omega
  · exact hpair h

/-- **The lengths agree exactly on the strings of one-byte units.** -/
theorem length_encode_eq_iff (s : JString) : (encode s).length = s.length ↔ OneByte s := by
  induction s using encode.induct with
  | case1 => simp [encode, OneByte]
  | case2 c =>
    have hone : OneByte [c] ↔ c.toNat < 0x80 ∨ isSurrogate c = true := Iff.rfl
    rw [encode, hone]
    obtain ⟨h, b, hb, -⟩ | ⟨h, b, bs, hb, hbs, -⟩ := unitBytes_cases c
    · simp [hb, h]
    · simp [hb, h, hbs]
  | case3 c d rest h ih =>
    have hlen := length_le_encode rest
    refine iff_of_false ?_ (not_oneByte_pair h rest)
    rw [encode_pair h]
    simp only [List.length_append, List.length_cons, fourBytes, List.length_nil]
    omega
  | case4 c d rest h ih =>
    have hlen := length_le_encode (d :: rest)
    rw [encode_unpaired h, oneByte_cons h, ← ih]
    obtain ⟨hc, b, hb, -⟩ | ⟨hc, b, bs, hb, hbs, -⟩ := unitBytes_cases c
    · simp [hb, hc]
    · have hpos := List.length_pos_iff.mpr hbs
      simp [hb, hc]
      simp at hlen
      omega

/-- One-byte units give ASCII bytes. -/
theorem bytes_lt_of_oneByte {s : JString} (h : OneByte s) : ∀ b ∈ encode s, b.toNat < 0x80 := by
  induction s using encode.induct with
  | case1 => simp [encode]
  | case2 c =>
    obtain ⟨-, b, hb, hlt⟩ | ⟨hc, -⟩ := unitBytes_cases c
    · simp [encode, hb, hlt]
    · exact absurd h hc
  | case3 c d rest hpair ih => exact absurd h (not_oneByte_pair hpair rest)
  | case4 c d rest hpair ih =>
    obtain ⟨hc, hrest⟩ := (oneByte_cons hpair rest).mp h
    obtain ⟨-, b, hb, hlt⟩ | ⟨hc', -⟩ := unitBytes_cases c
    · rw [encode_unpaired hpair, hb]
      intro b' hb'
      rcases List.mem_cons.mp hb' with rfl | hmem
      · exact hlt
      · exact ih hrest b' hmem
    · exact absurd hc hc'

/-- The first unit that is not one byte starts with a byte that is not ASCII, and starts no later
than in the string. -/
theorem high_byte_of_not_oneByte {s : JString} (h : ¬OneByte s) :
    ∃ b ∈ (encode s).take s.length, 0x80 ≤ b.toNat := by
  induction s using encode.induct with
  | case1 => exact absurd trivial h
  | case2 c =>
    obtain ⟨hc, -⟩ | ⟨-, b, bs, hb, -, hle⟩ := unitBytes_cases c
    · exact absurd hc h
    · exact ⟨b, by simp [encode, hb], hle⟩
  | case3 c d rest hpair ih =>
    have hd : d.toNat < 65536 := d.toNat_lt
    have hc : c.toNat < 65536 := c.toNat_lt
    refine ⟨UInt8.ofNat (0xF0 +
      (0x10000 + (c.toNat - 0xD800) * 0x400 + (d.toNat - 0xDC00)) / 0x40000), ?_, ?_⟩
    · rw [encode_pair hpair]
      simp [fourBytes]
    · simp [isHighSurrogate, isLowSurrogate] at hpair
      simp
      omega
  | case4 c d rest hpair ih =>
    rw [encode_unpaired hpair]
    obtain ⟨hc, b, hb, -⟩ | ⟨-, b, bs, hb, -, hle⟩ := unitBytes_cases c
    · have hrest : ¬OneByte (d :: rest) := by
        intro hrest
        exact h ((oneByte_cons hpair rest).mpr ⟨hc, hrest⟩)
      obtain ⟨b', hmem, hle⟩ := ih hrest
      refine ⟨b', ?_, hle⟩
      rw [hb]
      simp only [List.cons_append, List.nil_append, List.length_cons, List.take_succ_cons]
      exact List.mem_cons_of_mem _ hmem
    · exact ⟨b, by simp [hb], hle⟩

/-! ## Strings that differ in the last byte -/

/-- The other number with the same half. -/
def other (n : Nat) : Nat := n / 2 * 2 + (1 - n % 2)

theorem toNat_ofNat_other (c : JChar) : (UInt16.ofNat (other c.toNat)).toNat = other c.toNat := by
  have hc : c.toNat < 65536 := c.toNat_lt
  rw [UInt16.toNat_ofNat', Nat.mod_eq_of_lt]
  unfold other
  omega

theorem ofNat_ne {x y : Nat} (hx : x < 256) (hy : y < 256) (h : x ≠ y) :
    UInt8.ofNat x ≠ UInt8.ofNat y := by
  intro heq
  have hnat := congrArg UInt8.toNat heq
  rw [UInt8.toNat_ofNat', UInt8.toNat_ofNat'] at hnat
  omega

/-- Another unit whose bytes differ in the last one. -/
theorem unit_differ_in_last (c : JChar) : ∃ c' p b b', unitBytes c = p ++ [b] ∧
    unitBytes c' = p ++ [b'] ∧ b ≠ b' ∧ isLowSurrogate c' = false := by
  have hc : c.toNat < 65536 := c.toNat_lt
  have hother := toNat_ofNat_other c
  have hdef : other c.toNat = c.toNat / 2 * 2 + (1 - c.toNat % 2) := rfl
  by_cases h1 : c.toNat < 0x80
  · refine ⟨UInt16.ofNat (other c.toNat), [], _, _, unitBytes_ascii h1, unitBytes_ascii (by omega),
      ofNat_ne (by omega) (by omega) (by omega), ?_⟩
    simp only [isLowSurrogate, hother]
    simp
    omega
  by_cases hs : isSurrogate c = true
  · exact ⟨0x61, [], _, 0x61, unitBytes_surrogate hs, by decide, by decide, by decide⟩
  have hb := not_surrogate_bounds hs
  have hlow : isLowSurrogate (UInt16.ofNat (other c.toNat)) = false := by
    simp only [isLowSurrogate, hother]
    simp
    omega
  by_cases h2 : c.toNat < 0x800
  · have hsame : other c.toNat / 64 = c.toNat / 64 := by omega
    refine ⟨UInt16.ofNat (other c.toNat), [UInt8.ofNat (0xC0 + c.toNat / 64)],
      UInt8.ofNat (0x80 + c.toNat % 64), UInt8.ofNat (0x80 + other c.toNat % 64),
      unitBytes_two h1 h2, ?_, ofNat_ne (by omega) (by omega) (by omega), hlow⟩
    rw [unitBytes_two (by omega) (by omega), hother, hsame]
    rfl
  · have hsame : other c.toNat / 64 = c.toNat / 64 := by omega
    have hsame' : other c.toNat / 0x1000 = c.toNat / 0x1000 := by omega
    have hsur : ¬isSurrogate (UInt16.ofNat (other c.toNat)) = true := by
      simp only [isSurrogate, isHighSurrogate, isLowSurrogate, hother]
      simp
      omega
    refine ⟨UInt16.ofNat (other c.toNat),
      [UInt8.ofNat (0xE0 + c.toNat / 0x1000), UInt8.ofNat (0x80 + c.toNat / 64 % 64)],
      UInt8.ofNat (0x80 + c.toNat % 64), UInt8.ofNat (0x80 + other c.toNat % 64),
      unitBytes_three h2 hs, ?_, ofNat_ne (by omega) (by omega) (by omega), hlow⟩
    rw [unitBytes_three (by omega) hsur, hother, hsame, hsame']
    rfl

/-- Another code point whose bytes differ in the last one. -/
theorem fourBytes_differ_in_last (cp : Nat) : ∃ p b b', fourBytes cp = p ++ [b] ∧
    fourBytes (other cp) = p ++ [b'] ∧ b ≠ b' := by
  have hdef : other cp = cp / 2 * 2 + (1 - cp % 2) := rfl
  have hsame1 : other cp / 64 = cp / 64 := by omega
  have hsame2 : other cp / 0x1000 = cp / 0x1000 := by omega
  have hsame3 : other cp / 0x40000 = cp / 0x40000 := by omega
  refine ⟨[UInt8.ofNat (0xF0 + cp / 0x40000), UInt8.ofNat (0x80 + cp / 0x1000 % 64),
    UInt8.ofNat (0x80 + cp / 64 % 64)], UInt8.ofNat (0x80 + cp % 64),
    UInt8.ofNat (0x80 + other cp % 64), rfl, ?_, ofNat_ne (by omega) (by omega) (by omega)⟩
  unfold fourBytes
  rw [hsame1, hsame2, hsame3]
  rfl

/-- Another low surrogate, with which a pair's bytes differ in the last one. -/
theorem pair_differ_in_last {c d : JChar} (h : (isHighSurrogate c && isLowSurrogate d) = true) :
    ∃ d' p b b', encode [c, d] = p ++ [b] ∧ encode [c, d'] = p ++ [b'] ∧ b ≠ b' := by
  have hother := toNat_ofNat_other d
  have hdef : other d.toNat = d.toNat / 2 * 2 + (1 - d.toNat % 2) := rfl
  have ⟨hhigh, hlow⟩ := (Bool.and_eq_true _ _).mp h
  have hbounds : 0xDC00 ≤ d.toNat ∧ d.toNat < 0xE000 := by
    simpa [isLowSurrogate] using hlow
  have hlow' : isLowSurrogate (UInt16.ofNat (other d.toNat)) = true := by
    simp only [isLowSurrogate, hother]
    simp
    omega
  have hpair' : (isHighSurrogate c && isLowSurrogate (UInt16.ofNat (other d.toNat))) = true := by
    rw [hhigh, hlow']
    rfl
  have hcp : 0x10000 + (c.toNat - 0xD800) * 0x400 + (other d.toNat - 0xDC00) =
      other (0x10000 + (c.toNat - 0xD800) * 0x400 + (d.toNat - 0xDC00)) := by
    have heven : other (0x10000 + (c.toNat - 0xD800) * 0x400 + (d.toNat - 0xDC00)) =
      (0x10000 + (c.toNat - 0xD800) * 0x400 + (d.toNat - 0xDC00)) / 2 * 2 +
        (1 - (0x10000 + (c.toNat - 0xD800) * 0x400 + (d.toNat - 0xDC00)) % 2) := rfl
    omega
  obtain ⟨p, b, b', hb, hb', hne⟩ := fourBytes_differ_in_last
    (0x10000 + (c.toNat - 0xD800) * 0x400 + (d.toNat - 0xDC00))
  refine ⟨UInt16.ofNat (other d.toNat), p, b, b', ?_, ?_, hne⟩
  · rw [encode_pair h, hb]
    simp [encode]
  · rw [encode_pair hpair', hother, hcp, hb']
    simp [encode]

/-- **To every string there is another one of the same length whose encoding differs in the last
byte alone.** -/
theorem differ_in_last {s : JString} (hs : s ≠ []) : ∃ t p b b', t.length = s.length ∧
    encode s = p ++ [b] ∧ encode t = p ++ [b'] ∧ b ≠ b' ∧
      (t.head?.any isLowSurrogate = true → s.head?.any isLowSurrogate = true) := by
  induction s using encode.induct with
  | case1 => exact absurd rfl hs
  | case2 c =>
    obtain ⟨c', p, b, b', hb, hb', hne, hlow⟩ := unit_differ_in_last c
    exact ⟨[c'], p, b, b', rfl, hb, hb', hne, by simp [hlow]⟩
  | case3 c d rest hpair ih =>
    by_cases hrest : rest = []
    · subst hrest
      obtain ⟨d', p, b, b', hb, hb', hne⟩ := pair_differ_in_last hpair
      exact ⟨[c, d'], p, b, b', rfl, hb, hb', hne, by simp⟩
    · obtain ⟨t, p, b, b', hlen, hb, hb', hne, -⟩ := ih hrest
      generalize hfour :
        fourBytes (0x10000 + (c.toNat - 0xD800) * 0x400 + (d.toNat - 0xDC00)) = four
      refine ⟨c :: d :: t, four ++ p, b, b', by simp [hlen], ?_, ?_, hne, by simp⟩
      · rw [encode_pair hpair, hfour, hb, List.append_assoc]
      · rw [encode_pair hpair, hfour, hb', List.append_assoc]
  | case4 c d rest hpair ih =>
    obtain ⟨t, p, b, b', hlen, hb, hb', hne, hlow⟩ := ih (List.cons_ne_nil d rest)
    cases t with
    | nil => simp at hlen
    | cons d' t =>
      -- the unit behind `c` has not become the other half of a pair
      have hpair' : ¬(isHighSurrogate c && isLowSurrogate d') = true := by
        simp at hpair hlow ⊢
        intro hhigh
        cases hd' : isLowSurrogate d' with
        | false => rfl
        | true => exact absurd (hlow hd') (by simp [hpair hhigh])
      refine ⟨c :: d' :: t, unitBytes c ++ p, b, b', by simp at hlen ⊢; omega, ?_, ?_, hne,
        by simp⟩
      · rw [encode_unpaired hpair, hb, List.append_assoc]
      · rw [encode_unpaired hpair', hb', List.append_assoc]

end Terminator.Java.Utf8
