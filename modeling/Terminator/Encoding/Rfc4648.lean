import Mathlib.Data.List.Basic
import Mathlib.Data.Nat.Bitwise

/-!
# The Base 64 encoding of RFC 4648

The text of a list of octets: their bits are taken six at a time, the most significant one first,
and each six is a character of the alphabet; the last bits are filled up with zeros, and the last
four characters with `=`. A character is its ASCII code.

* `value_eq_some_iff`: the value of a character of the alphabet;
* `encode_nil`, `encode_one`, `encode_two`, **`encode_three`**: the text by groups of three octets.
-/

namespace Terminator.Encoding.Rfc4648

/-! ## The alphabet -/

/-- The character of a value below 64. -/
def digit (v : Nat) : Nat :=
  if v < 26 then 0x41 + v
  else if v < 52 then 0x61 + (v - 26)
  else if v < 62 then 0x30 + (v - 52)
  else if v = 62 then 0x2B
  else 0x2F

/-- The value of a character of the alphabet. -/
def value (c : Nat) : Option Nat :=
  if 0x41 ≤ c ∧ c ≤ 0x5A then some (c - 0x41)
  else if 0x61 ≤ c ∧ c ≤ 0x7A then some (c - 0x61 + 26)
  else if 0x30 ≤ c ∧ c ≤ 0x39 then some (c - 0x30 + 52)
  else if c = 0x2B then some 62
  else if c = 0x2F then some 63
  else none

/-- `=`. -/
def pad : Nat := 0x3D

/-- The two tables are inverse to each other. -/
theorem value_eq_some_iff {c v : Nat} : value c = some v ↔ v < 64 ∧ digit v = c := by
  unfold value digit
  constructor
  · intro h
    split_ifs at h <;> rw [Option.some.injEq] at h <;> split_ifs <;> omega
  · rintro ⟨hv, rfl⟩
    split_ifs <;> first | omega | (rw [Option.some.injEq]; omega)

theorem value_digit {v : Nat} (hv : v < 64) : value (digit v) = some v :=
  value_eq_some_iff.mpr ⟨hv, rfl⟩

/-- Characters are ASCII. -/
theorem digit_lt {v : Nat} (hv : v < 64) : digit v < 128 := by
  unfold digit
  split_ifs <;> omega

/-! ## The text -/

/-- The bits of an octet. -/
def octetBits (b : UInt8) : List Bool := [7, 6, 5, 4, 3, 2, 1, 0].map b.toNat.testBit

/-- The number some bits stand for. -/
def number (bits : List Bool) : Nat := bits.foldl (fun n bit => 2 * n + bit.toNat) 0

/-- The values of the bits, six at a time. -/
def sextets (bits : List Bool) : List Nat :=
  match bits with
  | [] => []
  | b :: bits =>
    number ((b :: bits).take 6 ++ List.replicate (6 - (b :: bits).length) false) ::
      sextets (bits.drop 5)
termination_by bits.length
decreasing_by
  simp only [List.length_drop, List.length_cons]
  omega

/-- The characters of some values, filled up to a multiple of four. -/
def text (values : List Nat) : List Nat :=
  values.map digit ++ List.replicate ((4 - values.length % 4) % 4) pad

/-- **The Base 64 text** of some octets. -/
def encode (data : List UInt8) : List Nat := text (sextets (data.flatMap octetBits))

/-! ## Groups of three octets -/

@[simp] theorem sextets_nil : sextets [] = [] := by rw [sextets]

theorem sextets_six (b0 b1 b2 b3 b4 b5 : Bool) (bits : List Bool) :
    sextets (b0 :: b1 :: b2 :: b3 :: b4 :: b5 :: bits) =
      number [b0, b1, b2, b3, b4, b5] :: sextets bits := by
  rw [sextets]
  simp

theorem sextets_four (b0 b1 b2 b3 : Bool) :
    sextets [b0, b1, b2, b3] = [number [b0, b1, b2, b3, false, false]] := by
  rw [sextets]
  simp [List.replicate]

theorem sextets_two (b0 b1 : Bool) :
    sextets [b0, b1] = [number [b0, b1, false, false, false, false]] := by
  rw [sextets]
  simp [List.replicate]

/-- Four characters are a whole group. -/
theorem text_four (v1 v2 v3 v4 : Nat) (values : List Nat) :
    text (v1 :: v2 :: v3 :: v4 :: values) =
      digit v1 :: digit v2 :: digit v3 :: digit v4 :: text values := by
  have hlength : (v1 :: v2 :: v3 :: v4 :: values).length % 4 = values.length % 4 := by
    simp only [List.length_cons]
    omega
  simp only [text, hlength, List.map_cons, List.cons_append]

/-- Two bits of a number. -/
theorem number_pair (n i : Nat) : number [n.testBit (i + 1), n.testBit i] = n >>> i % 4 := by
  have hhigh : (n.testBit (i + 1)).toNat = n >>> i / 2 % 2 := by
    rw [Nat.toNat_testBit, Nat.pow_succ, ← Nat.div_div_eq_div_mul, Nat.shiftRight_eq_div_pow]
  have hlow : (n.testBit i).toNat = n >>> i % 2 := by
    rw [Nat.toNat_testBit, Nat.shiftRight_eq_div_pow]
  simp only [number, List.foldl_cons, List.foldl_nil, hhigh, hlow]
  omega

/-- A sextet is three pairs of bits. -/
theorem number_six (b5 b4 b3 b2 b1 b0 : Bool) : number [b5, b4, b3, b2, b1, b0] =
    number [b5, b4] * 16 + number [b3, b2] * 4 + number [b1, b0] := by
  simp only [number, List.foldl_cons, List.foldl_nil]
  omega

@[simp] theorem number_zeros : number [false, false] = 0 := rfl

section Groups

variable (a b : UInt8)

theorem pair_6 : number [a.toNat.testBit 7, a.toNat.testBit 6] = a.toNat / 64 := by
  have ha := a.toNat_lt
  have hpair : number [a.toNat.testBit 7, a.toNat.testBit 6] = a.toNat / 64 % 4 :=
    (number_pair a.toNat 6).trans (by rw [Nat.shiftRight_eq_div_pow])
  omega

theorem pair_4 : number [a.toNat.testBit 5, a.toNat.testBit 4] = a.toNat / 16 % 4 :=
  (number_pair a.toNat 4).trans (by rw [Nat.shiftRight_eq_div_pow])

theorem pair_2 : number [a.toNat.testBit 3, a.toNat.testBit 2] = a.toNat / 4 % 4 :=
  (number_pair a.toNat 2).trans (by rw [Nat.shiftRight_eq_div_pow])

theorem pair_0 : number [a.toNat.testBit 1, a.toNat.testBit 0] = a.toNat % 4 :=
  number_pair a.toNat 0

theorem number_high : number [a.toNat.testBit 7, a.toNat.testBit 6, a.toNat.testBit 5,
    a.toNat.testBit 4, a.toNat.testBit 3, a.toNat.testBit 2] = a.toNat / 4 := by
  rw [number_six, pair_6, pair_4, pair_2]
  omega

theorem number_low : number [a.toNat.testBit 5, a.toNat.testBit 4, a.toNat.testBit 3,
    a.toNat.testBit 2, a.toNat.testBit 1, a.toNat.testBit 0] = a.toNat % 64 := by
  rw [number_six, pair_4, pair_2, pair_0]
  omega

theorem number_two_four : number [a.toNat.testBit 1, a.toNat.testBit 0, b.toNat.testBit 7,
    b.toNat.testBit 6, b.toNat.testBit 5, b.toNat.testBit 4] =
      a.toNat % 4 * 16 + b.toNat / 16 := by
  rw [number_six, pair_0, pair_6, pair_4]
  omega

theorem number_four_two : number [a.toNat.testBit 3, a.toNat.testBit 2, a.toNat.testBit 1,
    a.toNat.testBit 0, b.toNat.testBit 7, b.toNat.testBit 6] =
      a.toNat % 16 * 4 + b.toNat / 64 := by
  rw [number_six, pair_2, pair_0, pair_6]
  omega

theorem number_two : number [a.toNat.testBit 1, a.toNat.testBit 0, false, false, false, false] =
    a.toNat % 4 * 16 := by
  rw [number_six, pair_0, number_zeros]
  omega

theorem number_four : number [a.toNat.testBit 3, a.toNat.testBit 2, a.toNat.testBit 1,
    a.toNat.testBit 0, false, false] = a.toNat % 16 * 4 := by
  rw [number_six, pair_2, pair_0, number_zeros]
  omega

theorem octetBits_append (bits : List Bool) : octetBits a ++ bits =
    a.toNat.testBit 7 :: a.toNat.testBit 6 :: a.toNat.testBit 5 :: a.toNat.testBit 4 ::
      a.toNat.testBit 3 :: a.toNat.testBit 2 :: a.toNat.testBit 1 :: a.toNat.testBit 0 :: bits :=
  rfl

@[simp] theorem encode_nil : encode [] = [] := by simp [encode, text]

theorem encode_one :
    encode [a] = [digit (a.toNat / 4), digit (a.toNat % 4 * 16), pad, pad] := by
  have hvalues : sextets ([a].flatMap octetBits) = [a.toNat / 4, a.toNat % 4 * 16] := by
    rw [List.flatMap_cons, List.flatMap_nil, octetBits_append, sextets_six, sextets_two,
      number_high, number_two]
  rw [encode, hvalues]
  rfl

theorem encode_two : encode [a, b] =
    [digit (a.toNat / 4), digit (a.toNat % 4 * 16 + b.toNat / 16), digit (b.toNat % 16 * 4),
      pad] := by
  have hvalues : sextets ([a, b].flatMap octetBits) =
      [a.toNat / 4, a.toNat % 4 * 16 + b.toNat / 16, b.toNat % 16 * 4] := by
    rw [List.flatMap_cons, List.flatMap_cons, List.flatMap_nil, octetBits_append, octetBits_append,
      sextets_six, sextets_six, sextets_four, number_high, number_two_four, number_four]
  rw [encode, hvalues]
  rfl

/-- **A group of three octets** is four characters. -/
theorem encode_three (c : UInt8) (data : List UInt8) : encode (a :: b :: c :: data) =
    digit (a.toNat / 4) :: digit (a.toNat % 4 * 16 + b.toNat / 16) ::
      digit (b.toNat % 16 * 4 + c.toNat / 64) :: digit (c.toNat % 64) :: encode data := by
  rw [encode, List.flatMap_cons, List.flatMap_cons, List.flatMap_cons, octetBits_append,
    octetBits_append, octetBits_append, sextets_six, sextets_six, sextets_six, sextets_six,
    text_four, number_high, number_two_four, number_four_two, number_low]
  rfl

end Groups

/-- The three octets a group of four values stands for. -/
theorem octets_of_values {a b c : Nat} (hb : b < 256) (hc : c < 256) :
    a / 4 * 4 + (a % 4 * 16 + b / 16) / 16 = a ∧
      (a % 4 * 16 + b / 16) % 16 * 16 + (b % 16 * 4 + c / 64) / 4 = b ∧
        (b % 16 * 4 + c / 64) % 4 * 64 + c % 64 = c := by
  omega

example : encode [0x66, 0x6F, 0x6F, 0x62] = [0x5A, 0x6D, 0x39, 0x76, 0x59, 0x67, pad, pad] := by
  rw [encode_three, encode_one]
  rfl

end Terminator.Encoding.Rfc4648
