import Terminator.Encoding.Rfc4648
import Terminator.Java.Exec
import Terminator.Java.Lines

/-!
# The Base64 of the login signer

`Base64ForAPP.java`, which `RSAUtil.getPublicKey` decodes its keys with: `encode`, a loop over
groups of three bytes, and `decode`, four `do` loops in a `while` loop, each of which skips the
characters that are not in the alphabet.

The `do` loops read before they look at the length. Reads of the arrays are checked here (`load`).

* **`encode_eq`**: `encode` writes the text of RFC 4648, and reads no array out of bounds.
-/

namespace Terminator.Plugin.Base64ForAPP

open Terminator.Java Terminator.Java.Lines Terminator.Encoding

def base64EncodeChars : JString :=
  ['A', 'B', 'C', 'D', 'E', 'F', 'G', 'H', 'I', 'J', 'K', 'L', 'M', 'N', 'O', 'P', 'Q', 'R',
   'S', 'T', 'U', 'V', 'W', 'X', 'Y', 'Z', 'a', 'b', 'c', 'd', 'e', 'f', 'g', 'h', 'i', 'j',
   'k', 'l', 'm', 'n', 'o', 'p', 'q', 'r', 's', 't', 'u', 'v', 'w', 'x', 'y', 'z', '0', '1',
   '2', '3', '4', '5', '6', '7', '8', '9', '+', '/'].map
    fun c => UInt16.ofNat c.toNat

def base64DecodeChars : List Int :=
  [-1, -1, -1, -1, -1, -1, -1, -1, -1, -1, -1, -1, -1, -1, -1, -1, -1, -1, -1, -1, -1, -1, -1,
   -1, -1, -1, -1, -1, -1, -1, -1, -1, -1, -1, -1, -1, -1, -1, -1, -1, -1, -1, -1, 62, -1, -1,
   -1, 63, 52, 53, 54, 55, 56, 57, 58, 59, 60, 61, -1, -1, -1, -1, -1, -1, -1, 0, 1, 2, 3, 4, 5,
   6, 7, 8, 9, 10, 11, 12, 13, 14, 15, 16, 17, 18, 19, 20, 21, 22, 23, 24, 25, -1, -1, -1, -1,
   -1, -1, 26, 27, 28, 29, 30, 31, 32, 33, 34, 35, 36, 37, 38, 39, 40, 41, 42, 43, 44, 45, 46,
   47, 48, 49, 50, 51, -1, -1, -1, -1, -1]

/-! ## `encode` -/

/-- The `while` loop at `i`; a `Byte` has no sign that `& 0xff` would take away. -/
def encodeFrom (data : List Byte) (i : Nat) (sb : JString) : Except Throwable JString :=
  if i < data.length then do
    let b1 := (← load data i).toNat
    if i + 1 = data.length then
      let c1 ← load base64EncodeChars (b1 >>> 2)
      let c2 ← load base64EncodeChars ((b1 &&& 0x3) <<< 4)
      pure (sb ++ [c1, c2] ++ lit "==")
    else
      let b2 := (← load data (i + 1)).toNat
      if i + 2 = data.length then
        let c1 ← load base64EncodeChars (b1 >>> 2)
        let c2 ← load base64EncodeChars (((b1 &&& 0x03) <<< 4) ||| ((b2 &&& 0xf0) >>> 4))
        let c3 ← load base64EncodeChars ((b2 &&& 0x0f) <<< 2)
        pure (sb ++ [c1, c2, c3] ++ lit "=")
      else
        let b3 := (← load data (i + 2)).toNat
        let c1 ← load base64EncodeChars (b1 >>> 2)
        let c2 ← load base64EncodeChars (((b1 &&& 0x03) <<< 4) ||| ((b2 &&& 0xf0) >>> 4))
        let c3 ← load base64EncodeChars (((b2 &&& 0x0f) <<< 2) ||| ((b3 &&& 0xc0) >>> 6))
        let c4 ← load base64EncodeChars (b3 &&& 0x3f)
        encodeFrom data (i + 3) (sb ++ [c1, c2, c3, c4])
  else pure sb
termination_by data.length - i
decreasing_by
  have := ‹i < data.length›
  omega

def encode (data : List Byte) : Except Throwable JString := encodeFrom data 0 []

/-! ## `decode` -/

/-- `getBytes("US-ASCII")`: what is not ASCII becomes `?`, a pair of surrogates a single one. -/
def usAscii : JString → List Byte
  | [] => []
  | [c] => [if c.toNat < 0x80 then UInt8.ofNat c.toNat else 0x3F]
  | c :: d :: s =>
    if c.toNat < 0x80 then UInt8.ofNat c.toNat :: usAscii (d :: s)
    else if Utf8.isHighSurrogate c ∧ Utf8.isLowSurrogate d then 0x3F :: usAscii s
    else 0x3F :: usAscii (d :: s)

/-- What a `do` loop that starts at `i` leaves: the index behind it, and the value it has read. -/
structure Read (i : Nat) where
  next : Nat
  lt_next : i < next
  value : Int

/-- A `do` loop at `i`. The last two return at a `=` (`pads`), which is `none`. -/
def readChar (pads : Bool) (data : List Byte) (i : Nat) : Except Throwable (Option (Read i)) := do
  let c ← load data i
  if pads ∧ c = 61 then pure none
  else
    let b ← load base64DecodeChars c.toNat
    if i + 1 < data.length ∧ b = -1 then
      let read ← readChar pads data (i + 1)
      pure (read.map fun r => ⟨r.next, Nat.lt_of_succ_lt r.lt_next, r.value⟩)
    else pure (some ⟨i + 1, Nat.lt_succ_self i, b⟩)
termination_by data.length - i
decreasing_by
  have := ‹i + 1 < data.length ∧ _›
  omega

/-- A `do` loop and the `break` behind it; as the `return` at a `=`, it ends with `sb`. -/
def reading (pads : Bool) (data : List Byte) (i : Nat) (sb : JString)
    (rest : Read i → Except Throwable JString) : Except Throwable JString := do
  match ← readChar pads data i with
  | none => pure sb
  | some r => if r.value = -1 then pure sb else rest r

/-- `(char) ((b1 << 2) | ((b2 & 0x30) >>> 4))`. -/
def char1 (b1 b2 : Nat) : JChar := UInt16.ofNat ((b1 <<< 2) ||| ((b2 &&& 0x30) >>> 4))

/-- `(char) (((b2 & 0x0f) << 4) | ((b3 & 0x3c) >>> 2))`. -/
def char2 (b2 b3 : Nat) : JChar := UInt16.ofNat (((b2 &&& 0x0f) <<< 4) ||| ((b3 &&& 0x3c) >>> 2))

/-- `(char) (((b3 & 0x03) << 6) | b4)`. -/
def char3 (b3 b4 : Nat) : JChar := UInt16.ofNat (((b3 &&& 0x03) <<< 6) ||| b4)

/-- The `while` loop at `i`. -/
def decodeFrom (data : List Byte) (i : Nat) (sb : JString) : Except Throwable JString :=
  if i < data.length then
    reading false data i sb fun b1 =>
    reading false data b1.next sb fun b2 =>
    let sb := sb ++ [char1 b1.value.toNat b2.value.toNat]
    reading true data b2.next sb fun b3 =>
    let sb := sb ++ [char2 b2.value.toNat b3.value.toNat]
    reading true data b3.next sb fun b4 =>
    decodeFrom data b4.next (sb ++ [char3 b3.value.toNat b4.value.toNat])
  else pure sb
termination_by data.length - i
decreasing_by
  have := ‹i < data.length›
  have := b1.lt_next
  have := b2.lt_next
  have := b3.lt_next
  have := b4.lt_next
  omega

def decode (str : JString) : Except Throwable (List Byte) := do
  let sb ← decodeFrom (usAscii str) 0 []
  pure (latin1 sb)

/-! ## The masks -/

theorem low_two (n : Nat) : n &&& 0x3 = n % 4 := Nat.and_two_pow_sub_one_eq_mod n 2

theorem low_four (n : Nat) : n &&& 0xf = n % 16 := Nat.and_two_pow_sub_one_eq_mod n 4

theorem low_six (n : Nat) : n &&& 0x3f = n % 64 := Nat.and_two_pow_sub_one_eq_mod n 6

/-- `n & (m << k)` moved down is `n` moved down, where the mask reaches to its highest bit. -/
theorem high_two {n : Nat} (hn : n < 256) : (n &&& 0xc0) >>> 6 = n / 64 := by
  have hmask : 0xc0 >>> 6 = 0x3 := rfl
  rw [Nat.shiftRight_and_distrib, hmask, low_two, Nat.shiftRight_eq_div_pow]
  omega

theorem high_four {n : Nat} (hn : n < 256) : (n &&& 0xf0) >>> 4 = n / 16 := by
  have hmask : 0xf0 >>> 4 = 0xf := rfl
  rw [Nat.shiftRight_and_distrib, hmask, low_four, Nat.shiftRight_eq_div_pow]
  omega

theorem high_two_of_six {n : Nat} (hn : n < 64) : (n &&& 0x30) >>> 4 = n / 16 := by
  have hmask : 0x30 >>> 4 = 0x3 := rfl
  rw [Nat.shiftRight_and_distrib, hmask, low_two, Nat.shiftRight_eq_div_pow]
  omega

theorem high_four_of_six {n : Nat} (hn : n < 64) : (n &&& 0x3c) >>> 2 = n / 4 := by
  have hmask : 0x3c >>> 2 = 0xf := rfl
  rw [Nat.shiftRight_and_distrib, hmask, low_four, Nat.shiftRight_eq_div_pow]
  omega

/-- Bits that do not overlap are added. -/
theorem or_two (m : Nat) {n : Nat} (hn : n < 4) : (m <<< 2) ||| n = m * 4 + n := by
  have hor : m <<< 2 + n = (m <<< 2) ||| n := Nat.shiftLeft_add_eq_or_of_lt hn m
  rw [← hor, Nat.shiftLeft_eq]

theorem or_four (m : Nat) {n : Nat} (hn : n < 16) : (m <<< 4) ||| n = m * 16 + n := by
  have hor : m <<< 4 + n = (m <<< 4) ||| n := Nat.shiftLeft_add_eq_or_of_lt hn m
  rw [← hor, Nat.shiftLeft_eq]

theorem or_six (m : Nat) {n : Nat} (hn : n < 64) : (m <<< 6) ||| n = m * 64 + n := by
  have hor : m <<< 6 + n = (m <<< 6) ||| n := Nat.shiftLeft_add_eq_or_of_lt hn m
  rw [← hor, Nat.shiftLeft_eq]

/-! ## The text it writes -/

section Values

variable (a b : Byte)

theorem first_value : a.toNat >>> 2 = a.toNat / 4 := Nat.shiftRight_eq_div_pow a.toNat 2

theorem second_value :
    ((a.toNat &&& 0x03) <<< 4) ||| ((b.toNat &&& 0xf0) >>> 4) =
      a.toNat % 4 * 16 + b.toNat / 16 := by
  have hb := b.toNat_lt
  rw [high_four hb, or_four _ (by omega), low_two]

theorem third_value :
    ((a.toNat &&& 0x0f) <<< 2) ||| ((b.toNat &&& 0xc0) >>> 6) =
      a.toNat % 16 * 4 + b.toNat / 64 := by
  have hb := b.toNat_lt
  rw [high_two hb, or_two _ (by omega), low_four]

theorem second_value_alone : (a.toNat &&& 0x3) <<< 4 = a.toNat % 4 * 16 := by
  rw [low_two, Nat.shiftLeft_eq]

theorem third_value_alone : (a.toNat &&& 0x0f) <<< 2 = a.toNat % 16 * 4 := by
  rw [low_four, Nat.shiftLeft_eq]

end Values

/-- A character of a text, as a code unit. -/
def unit (c : Nat) : JChar := UInt16.ofNat c

theorem base64EncodeChars_eq :
    base64EncodeChars = (List.range 64).map fun v => unit (Rfc4648.digit v) := by decide

/-- A read of a table that is given by a function. -/
theorem load_map_range {α : Type} (f : Nat → α) {n i : Nat} (hi : i < n) :
    load ((List.range n).map f) i = .ok (f i) := by
  have hlength : i < ((List.range n).map f).length := by simpa
  rw [load_of_lt hlength, List.getElem_map, List.getElem_range]

theorem load_encodeChars {v : Nat} (hv : v < 64) :
    load base64EncodeChars v = .ok (unit (Rfc4648.digit v)) := by
  rw [base64EncodeChars_eq, load_map_range _ hv]

theorem load_of_drop {data : List Byte} {i : Nat} {b : Byte} {rest : List Byte}
    (h : data.drop i = b :: rest) :
    load data i = .ok b ∧ data.length = i + 1 + rest.length ∧ data.drop (i + 1) = rest := by
  have hlength : data.length = i + 1 + rest.length := by
    have := congrArg List.length h
    rw [List.length_drop, List.length_cons] at this
    omega
  have hi : i < data.length := by omega
  rw [List.drop_eq_getElem_cons hi, List.cons.injEq] at h
  exact ⟨by rw [load_of_lt hi, h.1], hlength, h.2⟩

/-- The loop writes the text of the bytes it has not read yet. -/
theorem encodeFrom_eq (data : List Byte) :
    ∀ (rest : List Byte) (i : Nat) (sb : JString), data.drop i = rest →
      encodeFrom data i sb = .ok (sb ++ (Rfc4648.encode rest).map unit)
  | [], i, sb, h => by
    have hi : ¬ i < data.length := by simpa using h
    rw [encodeFrom, if_neg hi, Rfc4648.encode_nil, List.map_nil, List.append_nil]
    rfl
  | [a], i, sb, h => by
    obtain ⟨ha, hlength, -⟩ := load_of_drop h
    rw [List.length_nil] at hlength
    have ha' := a.toNat_lt
    rw [encodeFrom, if_pos (by omega), ha]
    simp only [bind, Except.bind, if_pos hlength.symm]
    rw [first_value, second_value_alone, load_encodeChars (by omega), load_encodeChars (by omega),
      Rfc4648.encode_one]
    simp [pure, Except.pure, lit, unit, Rfc4648.pad]
  | [a, b], i, sb, h => by
    obtain ⟨ha, hlength, hdrop⟩ := load_of_drop h
    obtain ⟨hb, -, -⟩ := load_of_drop hdrop
    have ha' := a.toNat_lt
    have hb' := b.toNat_lt
    have hone : ¬ i + 1 = data.length := by simp [hlength]
    have htwo : i + 2 = data.length := hlength.symm
    rw [encodeFrom, if_pos (by omega), ha]
    simp only [bind, Except.bind, if_neg hone, hb, if_pos htwo]
    rw [first_value, second_value, third_value_alone, load_encodeChars (by omega),
      load_encodeChars (by omega), load_encodeChars (by omega), Rfc4648.encode_two]
    simp [pure, Except.pure, lit, unit, Rfc4648.pad]
  | a :: b :: c :: rest, i, sb, h => by
    obtain ⟨ha, hlength, hdrop⟩ := load_of_drop h
    obtain ⟨hb, -, hdrop'⟩ := load_of_drop hdrop
    obtain ⟨hc, -, hrest⟩ := load_of_drop hdrop'
    rw [List.length_cons, List.length_cons] at hlength
    have ha' := a.toNat_lt
    have hb' := b.toNat_lt
    have hc' := c.toNat_lt
    have hone : ¬ i + 1 = data.length := by omega
    have htwo : ¬ i + 2 = data.length := by omega
    have hc2 : load data (i + 2) = .ok c := hc
    rw [encodeFrom, if_pos (by omega), ha]
    simp only [bind, Except.bind, if_neg hone, hb, if_neg htwo, hc2]
    rw [first_value, second_value, third_value, low_six, load_encodeChars (by omega),
      load_encodeChars (by omega), load_encodeChars (by omega), load_encodeChars (by omega),
      Rfc4648.encode_three]
    simp only
    rw [encodeFrom_eq data rest (i + 3) _ hrest]
    simp

/-- **`encode` writes the text of RFC 4648**, and reads no array out of bounds. -/
theorem encode_eq (data : List Byte) : encode data = .ok ((Rfc4648.encode data).map unit) :=
  encodeFrom_eq data data 0 [] rfl

end Terminator.Plugin.Base64ForAPP
