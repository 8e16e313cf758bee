import Mathlib.Data.Vector.Basic
import Terminator.Java.Exec
import Terminator.Java.Text

/-!
# The MD5 engine

`MD5.java`. A `long` is a `BitVec 64` and an `int` of the word arithmetic a `BitVec 32`; array
indices are naturals, none of which comes near the end of the `int` range: `i + 63` of the block
loop is taken of multiples of 64 below the length. An access whose index the program computes
goes through `load` or `storeAt` and throws when it is out of range; an access whose index is a
literal is checked by the type of the array.

`md5Transform` is written with the word it assigns always in front: the four statements
`a = FF(a, b, c, d, …)`, `d = FF(d, a, b, c, …)`, `c = FF(c, d, a, b, …)`,
`b = FF(b, c, d, a, …)` are one step and a turn of the four registers (`step`), and the tables
list what the 64 statements pass.

What the engine computes is the subject of `MD5Refines`.
-/

namespace Terminator.Plugin

open Terminator.Java

/-- `MD5`: the four state words, the bit count, the block buffer. -/
structure MD5 where
  state : Vector (BitVec 64) 4
  count : Vector (BitVec 64) 2
  buffer : Vector Byte 64
  deriving DecidableEq

namespace MD5

/-! ## The round functions -/

def F (x y z : BitVec 64) : BitVec 64 := (x &&& y) ||| (~~~x &&& z)

def G (x y z : BitVec 64) : BitVec 64 := (x &&& z) ||| (y &&& ~~~z)

def H (x y z : BitVec 64) : BitVec 64 := x ^^^ y ^^^ z

def I (x y z : BitVec 64) : BitVec 64 := y ^^^ (x ||| ~~~z)

/-- `FF`, `GG`, `HH` and `II` differ in the function `f` they mix with. The two shifts are shifts
of `(int) a`; their `int` result is sign-extended when it is assigned. -/
def mix (f : BitVec 64 → BitVec 64 → BitVec 64 → BitVec 64) (a b c d x : BitVec 64) (s : Nat)
    (ac : BitVec 64) : BitVec 64 :=
  let sum := a + (f b c d + x + ac)
  let low := sum.setWidth 32
  let rotated : BitVec 32 := (low <<< s) ||| (low >>> (32 - s))
  rotated.signExtend 64 + b

def FF := mix F
def GG := mix G
def HH := mix H
def II := mix I

/-- The mixing function of a statement of `md5Transform`. -/
inductive Mix where
  | FF | GG | HH | II

def Mix.apply : Mix → BitVec 64 → BitVec 64 → BitVec 64 → BitVec 64 → BitVec 64 → Nat →
    BitVec 64 → BitVec 64
  | .FF => MD5.FF
  | .GG => MD5.GG
  | .HH => MD5.HH
  | .II => MD5.II

def S11 := 7
def S12 := 12
def S13 := 17
def S14 := 22
def S21 := 5
def S22 := 9
def S23 := 14
def S24 := 20
def S31 := 4
def S32 := 11
def S33 := 16
def S34 := 23
def S41 := 6
def S42 := 10
def S43 := 15
def S44 := 21

/-- A statement of `md5Transform`: the word of `x`, the shift and the constant it passes. -/
abbrev Pass := Fin 16 × Nat × BitVec 64

/-- Round 1. -/
def round1 : List Pass :=
  [(0, S11, 0xd76aa478), (1, S12, 0xe8c7b756), (2, S13, 0x242070db), (3, S14, 0xc1bdceee),
    (4, S11, 0xf57c0faf), (5, S12, 0x4787c62a), (6, S13, 0xa8304613), (7, S14, 0xfd469501),
    (8, S11, 0x698098d8), (9, S12, 0x8b44f7af), (10, S13, 0xffff5bb1), (11, S14, 0x895cd7be),
    (12, S11, 0x6b901122), (13, S12, 0xfd987193), (14, S13, 0xa679438e), (15, S14, 0x49b40821)]

/-- Round 2. -/
def round2 : List Pass :=
  [(1, S21, 0xf61e2562), (6, S22, 0xc040b340), (11, S23, 0x265e5a51), (0, S24, 0xe9b6c7aa),
    (5, S21, 0xd62f105d), (10, S22, 0x2441453), (15, S23, 0xd8a1e681), (4, S24, 0xe7d3fbc8),
    (9, S21, 0x21e1cde6), (14, S22, 0xc33707d6), (3, S23, 0xf4d50d87), (8, S24, 0x455a14ed),
    (13, S21, 0xa9e3e905), (2, S22, 0xfcefa3f8), (7, S23, 0x676f02d9), (12, S24, 0x8d2a4c8a)]

/-- Round 3. -/
def round3 : List Pass :=
  [(5, S31, 0xfffa3942), (8, S32, 0x8771f681), (11, S33, 0x6d9d6122), (14, S34, 0xfde5380c),
    (1, S31, 0xa4beea44), (4, S32, 0x4bdecfa9), (7, S33, 0xf6bb4b60), (10, S34, 0xbebfbc70),
    (13, S31, 0x289b7ec6), (0, S32, 0xeaa127fa), (3, S33, 0xd4ef3085), (6, S34, 0x4881d05),
    (9, S31, 0xd9d4d039), (12, S32, 0xe6db99e5), (15, S33, 0x1fa27cf8), (2, S34, 0xc4ac5665)]

/-- Round 4. -/
def round4 : List Pass :=
  [(0, S41, 0xf4292244), (7, S42, 0x432aff97), (14, S43, 0xab9423a7), (5, S44, 0xfc93a039),
    (12, S41, 0x655b59c3), (3, S42, 0x8f0ccc92), (10, S43, 0xffeff47d), (1, S44, 0x85845dd1),
    (8, S41, 0x6fa87e4f), (15, S42, 0xfe2ce6e0), (6, S43, 0xa3014314), (13, S44, 0x4e0811a1),
    (4, S41, 0xf7537e82), (11, S42, 0xbd3af235), (2, S43, 0x2ad7d2bb), (9, S44, 0xeb86d391)]

/-- The 64 statements. -/
def rounds : List (Mix × Pass) :=
  round1.map (Mix.FF, ·) ++ round2.map (Mix.GG, ·) ++ round3.map (Mix.HH, ·) ++
    round4.map (Mix.II, ·)

/-- The registers, the one the next statement assigns in front. -/
structure Regs where
  a : BitVec 64
  b : BitVec 64
  c : BitVec 64
  d : BitVec 64

/-- One statement: assign the front register, then turn the registers. -/
def step (x : Vector (BitVec 64) 16) (r : Regs) (p : Mix × Pass) : Regs :=
  ⟨r.d, p.1.apply r.a r.b r.c r.d x[p.2.1] p.2.2.1 p.2.2.2, r.b, r.c⟩

/-! ## Bytes and words -/

/-- `b2iu`: `&` binds weaker than `+`, so a negative byte is masked with `0xff`. -/
def b2iu (b : Byte) : BitVec 64 :=
  let i : BitVec 32 := b.toBitVec.signExtend 32
  if i.slt 0 then (i &&& (0x7F + 128)).signExtend 64 else i.signExtend 64

/-- `Decode(x, block, 64)`. -/
def Decode (block : Vector Byte 64) : Vector (BitVec 64) 16 :=
  Vector.ofFn fun i =>
    b2iu block[4 * i.val] ||| (b2iu block[4 * i.val + 1] <<< 8) |||
      (b2iu block[4 * i.val + 2] <<< 16) ||| (b2iu block[4 * i.val + 3] <<< 24)

/-- The byte `k` of a word, `(byte) ((w >>> 8 * k) & 0xffL)`. -/
def byteOf (w : BitVec 64) (k : Nat) : Byte := ⟨((w >>> (8 * k)) &&& 0xff).setWidth 8⟩

/-- `Encode(output, input, len)` over the whole of `input`. -/
def Encode {n : Nat} (input : Vector (BitVec 64) n) : List Byte :=
  input.toList.flatMap fun w => [byteOf w 0, byteOf w 1, byteOf w 2, byteOf w 3]

/-- `md5Transform`. -/
def md5Transform (state : Vector (BitVec 64) 4) (block : Vector Byte 64) :
    Vector (BitVec 64) 4 :=
  let x := Decode block
  let r := rounds.foldl (step x) ⟨state[0], state[1], state[2], state[3]⟩
  #v[state[0] + r.a, state[1] + r.b, state[2] + r.c, state[3] + r.d]

/-- The registers before the first statement. -/
def regs (state : Vector (BitVec 64) 4) : Regs := ⟨state[0], state[1], state[2], state[3]⟩

/-! ## Buffering -/

/-- `output[i] = b` of a 64-byte array. -/
def storeAt (output : Vector Byte 64) (i : Nat) (b : Byte) : Except Throwable (Vector Byte 64) :=
  if h : i < 64 then .ok (output.set i b) else .error .indexOutOfBounds

/-- `md5Memcpy`. -/
def md5Memcpy (output : Vector Byte 64) (input : List Byte) (outpos inpos : Nat) :
    Nat → Except Throwable (Vector Byte 64)
  | 0 => .ok output
  | len + 1 => do
    let output ← md5Memcpy output input outpos inpos len
    let b ← load input (inpos + len)
    storeAt output (outpos + len) b

/-- The loop `for (i = partLen; i + 63 < inputLen; i += 64)`: the value of `i` behind it, and the
state. `block` is overwritten whole in every round. -/
def blockLoop (inbuf : List Byte) (inputLen : Nat) :
    Nat → Nat → Vector (BitVec 64) 4 → Except Throwable (Nat × Vector (BitVec 64) 4)
  | 0, i, state => .ok (i, state)
  | fuel + 1, i, state =>
    if i + 63 < inputLen then do
      let block ← md5Memcpy (Vector.replicate 64 0) inbuf 0 i 64
      blockLoop inbuf inputLen fuel (i + 64) (md5Transform state block)
    else .ok (i, state)

/-- `(int) (count[0] >>> 3) & 0x3F`. -/
def bufferIndex (m : MD5) : Nat := ((m.count[0] >>> 3).setWidth 32 &&& (0x3F : BitVec 32)).toNat

/-- The update of `count`; both shifts are shifts of the `int` `inputLen`. -/
def addCount (count : Vector (BitVec 64) 2) (inputLen : Nat) : Vector (BitVec 64) 2 :=
  let len : BitVec 32 := BitVec.ofNat 32 inputLen
  let bits : BitVec 64 := (len <<< 3).signExtend 64
  let count0 := count[0] + bits
  let count1 := if count0.slt bits then count[1] + 1 else count[1]
  #v[count0, count1 + (len >>> 29).signExtend 64]

/-- The number of bits, modulo `2 ^ 64`. -/
def bitCount (count : Vector (BitVec 64) 2) : Nat := count[0].toNat

/-- `md5Update(inbuf, inputLen)`. -/
def md5Update (m : MD5) (inbuf : List Byte) (inputLen : Nat) : Except Throwable MD5 := do
  let index := m.bufferIndex
  let count := addCount m.count inputLen
  let partLen := 64 - index
  if partLen ≤ inputLen then
    let buffer ← md5Memcpy m.buffer inbuf index 0 partLen
    let (i, state) ← blockLoop inbuf inputLen inputLen partLen (md5Transform m.state buffer)
    let buffer ← md5Memcpy buffer inbuf 0 i (inputLen - i)
    pure ⟨state, count, buffer⟩
  else
    let buffer ← md5Memcpy m.buffer inbuf index 0 inputLen
    pure ⟨m.state, count, buffer⟩

/-- `PADDING`. -/
def PADDING : List Byte := 0x80 :: List.replicate 63 0

/-- `md5Final`: the digest. -/
def md5Final (m : MD5) : Except Throwable (List Byte) := do
  let bits := Encode m.count
  let index := m.bufferIndex
  let padLen := if index < 56 then 56 - index else 120 - index
  let m ← md5Update m PADDING padLen
  let m ← md5Update m bits 8
  pure (Encode m.state)

/-- `md5Init`. The buffer keeps what it held. -/
def md5Init (m : MD5) : MD5 :=
  { m with state := #v[0x67452301, 0xefcdab89, 0x98badcfe, 0x10325476], count := #v[0, 0] }

/-- `new MD5()`. -/
def new : MD5 := md5Init ⟨Vector.replicate 4 0, Vector.replicate 2 0, Vector.replicate 64 0⟩

/-! ## The digest of a string -/

/-- `Digit` of `byteHEX`. -/
def Digit : Vector JChar 16 :=
  #v[0x30, 0x31, 0x32, 0x33, 0x34, 0x35, 0x36, 0x37, 0x38, 0x39,
    0x41, 0x42, 0x43, 0x44, 0x45, 0x46]

/-- `byteHEX`. -/
def byteHEX (ib : Byte) : JString :=
  have : ib.toNat < 256 := ib.toNat_lt
  [Digit[ib.toNat / 16], Digit[ib.toNat % 16]]

/-- `getMD5ofStr`: `inputLen` is the length of the string, not of its encoding. -/
def getMD5ofStr (cs : Charset) (inbuf : JString) : Except Throwable JString := do
  let m ← md5Update new (cs.encode inbuf) inbuf.length
  let digest ← md5Final m
  pure ((digest.flatMap byteHEX).map lowerAscii)

/-! ## Small steps -/

theorem storeAt_of_lt {output : Vector Byte 64} {i : Nat} (h : i < 64) (b : Byte) :
    storeAt output i b = .ok (output.set i b) := dif_pos h

theorem bufferIndex_eq (m : MD5) : m.bufferIndex = bitCount m.count / 8 % 64 := by
  have hmask : (0x3F : BitVec 32).toNat = 2 ^ 6 - 1 := rfl
  unfold bufferIndex bitCount
  rw [BitVec.toNat_and, hmask, Nat.and_two_pow_sub_one_eq_mod, BitVec.toNat_setWidth,
    BitVec.toNat_ushiftRight, Nat.shiftRight_eq_div_pow]
  omega

/-- What `md5Memcpy` leaves: the bytes before, the bytes it copies, the bytes behind. -/
theorem md5Memcpy_spec (output : Vector Byte 64) (input : List Byte) (outpos inpos : Nat) :
    ∀ len : Nat, outpos + len ≤ 64 → inpos + len ≤ input.length →
      ∃ out, md5Memcpy output input outpos inpos len = .ok out ∧
        out.toList = output.toList.take outpos ++ (input.drop inpos).take len ++
          output.toList.drop (outpos + len)
  | 0, _, _ => ⟨output, rfl, by simp⟩
  | len + 1, hout, hin => by
    obtain ⟨out, hok, hlist⟩ :=
      md5Memcpy_spec output input outpos inpos len (by omega) (by omega)
    have hpos : outpos + len < 64 := by omega
    have hread : inpos + len < input.length := by omega
    refine ⟨out.set (outpos + len) (input.get ⟨inpos + len, hread⟩) hpos, ?_, ?_⟩
    · rw [md5Memcpy, hok]
      simp only [bind, Except.bind]
      rw [load_of_lt hread]
      exact storeAt_of_lt hpos _
    · have hbefore : (output.toList.take outpos ++ (input.drop inpos).take len).length =
          outpos + len := by
        simp
        omega
      have hbehind : output.toList.drop (outpos + len) =
          output[outpos + len] :: output.toList.drop (outpos + (len + 1)) := by
        rw [List.drop_eq_getElem_cons (by simpa using hpos)]
        simp [Nat.add_assoc]
      have hcopy : (input.drop inpos).take (len + 1) =
          (input.drop inpos).take len ++ [input.get ⟨inpos + len, hread⟩] := by
        rw [List.take_succ_eq_append_getElem (by simp; omega)]
        simp
      rw [Vector.toList_set, hlist, List.set_append_right _ _ (by omega), hbefore, Nat.sub_self,
        hbehind, List.set_cons_zero, hcopy]
      simp

theorem length_Encode {n : Nat} (input : Vector (BitVec 64) n) : (Encode input).length = 4 * n := by
  unfold Encode
  rw [List.length_flatMap]
  simp [Nat.mul_comm]

/-- A lower-case hexadecimal digit. -/
def IsLowerHex (c : JChar) : Prop :=
  (0x30 ≤ c.toNat ∧ c.toNat ≤ 0x39) ∨ (0x61 ≤ c.toNat ∧ c.toNat ≤ 0x66)

instance : DecidablePred IsLowerHex := fun c => inferInstanceAs
  (Decidable ((0x30 ≤ c.toNat ∧ c.toNat ≤ 0x39) ∨ (0x61 ≤ c.toNat ∧ c.toNat ≤ 0x66)))

end MD5

end Terminator.Plugin
