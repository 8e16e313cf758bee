import Mathlib.Data.List.Basic

/-!
# The MD5 message digest of RFC 1321

The digest of a message of bytes, as the RFC defines it: the message is padded to whole blocks of 16
words, each block is compressed into four 32-bit words in 64 operations, and the digest is the four
words, low-order byte first. Operation `i` of round `i / 16` reads the word and uses the shift that
the RFC's tables give by rule (`wordIndex`, `shift`); the sine table is given by its values.

* `absorb`: the blocks of a list of bytes, one after the other; **`absorb_append`** splits it at the
  end of a block;
* `pad`: the padded message; **`length_padding_mod`**: with its length it is made of whole blocks;
* **`digest_of_short`**: a message of less than 56 bytes is digested by one block, whose words are
  read off one number.
-/

namespace Terminator.Digest.Rfc1321

abbrev Word := BitVec 32

/-! ## The auxiliary functions -/

def F (x y z : Word) : Word := (x &&& y) ||| (~~~x &&& z)

def G (x y z : Word) : Word := (x &&& z) ||| (y &&& ~~~z)

def H (x y z : Word) : Word := x ^^^ y ^^^ z

def I (x y z : Word) : Word := y ^^^ (x ||| ~~~z)

/-! ## The operations -/

/-- The function of operation `i`. -/
def auxiliary (i : Nat) : Word → Word → Word → Word :=
  match i / 16 with
  | 0 => F
  | 1 => G
  | 2 => H
  | _ => I

def mod16 (n : Nat) : Fin 16 := ⟨n % 16, Nat.mod_lt n (Nat.succ_pos 15)⟩

/-- The word of the block that operation `i` adds. -/
def wordIndex (i : Nat) : Fin 16 :=
  match i / 16 with
  | 0 => mod16 i
  | 1 => mod16 (5 * i + 1)
  | 2 => mod16 (3 * i + 5)
  | _ => mod16 (7 * i)

/-- How far operation `i` shifts. -/
def shift (i : Nat) : Nat :=
  match i / 16, i % 4 with
  | 0, 0 => 7
  | 0, 1 => 12
  | 0, 2 => 17
  | 0, _ => 22
  | 1, 0 => 5
  | 1, 1 => 9
  | 1, 2 => 14
  | 1, _ => 20
  | 2, 0 => 4
  | 2, 1 => 11
  | 2, 2 => 16
  | 2, _ => 23
  | _, 0 => 6
  | _, 1 => 10
  | _, 2 => 15
  | _, _ => 21

/-- The table `T`: the integer part of 4294967296 times `abs(sin(i))`, for `i` from 1 to 64. -/
def T : List Word :=
  [0xd76aa478, 0xe8c7b756, 0x242070db, 0xc1bdceee, 0xf57c0faf, 0x4787c62a, 0xa8304613, 0xfd469501,
    0x698098d8, 0x8b44f7af, 0xffff5bb1, 0x895cd7be, 0x6b901122, 0xfd987193, 0xa679438e, 0x49b40821,
    0xf61e2562, 0xc040b340, 0x265e5a51, 0xe9b6c7aa, 0xd62f105d, 0x02441453, 0xd8a1e681, 0xe7d3fbc8,
    0x21e1cde6, 0xc33707d6, 0xf4d50d87, 0x455a14ed, 0xa9e3e905, 0xfcefa3f8, 0x676f02d9, 0x8d2a4c8a,
    0xfffa3942, 0x8771f681, 0x6d9d6122, 0xfde5380c, 0xa4beea44, 0x4bdecfa9, 0xf6bb4b60, 0xbebfbc70,
    0x289b7ec6, 0xeaa127fa, 0xd4ef3085, 0x04881d05, 0xd9d4d039, 0xe6db99e5, 0x1fa27cf8, 0xc4ac5665,
    0xf4292244, 0x432aff97, 0xab9423a7, 0xfc93a039, 0x655b59c3, 0x8f0ccc92, 0xffeff47d, 0x85845dd1,
    0x6fa87e4f, 0xfe2ce6e0, 0xa3014314, 0x4e0811a1, 0xf7537e82, 0xbd3af235, 0x2ad7d2bb, 0xeb86d391]

/-- The four words. -/
structure Words where
  a : Word
  b : Word
  c : Word
  d : Word
  deriving DecidableEq

/-- `a = b + ((a + f(b,c,d) + X[k] + T[i]) <<< s)`, and the registers turn. -/
def operation (x : Fin 16 → Word) (r : Words) (i : Nat) : Words :=
  let sum := r.a + auxiliary i r.b r.c r.d + x (wordIndex i) + T.getD i 0
  ⟨r.d, r.b + sum.rotateLeft (shift i), r.b, r.c⟩

/-- A word of four bytes, the low-order one first. -/
def word (b0 b1 b2 b3 : UInt8) : Word :=
  b0.toBitVec.setWidth 32 ||| (b1.toBitVec.setWidth 32 <<< 8) |||
    (b2.toBitVec.setWidth 32 <<< 16) ||| (b3.toBitVec.setWidth 32 <<< 24)

/-- The words of a block. -/
def wordsOf (block : List UInt8) (j : Fin 16) : Word :=
  word (block.getD (4 * j) 0) (block.getD (4 * j + 1) 0) (block.getD (4 * j + 2) 0)
    (block.getD (4 * j + 3) 0)

/-- The registers after the first operations on a block. -/
def operations (block : List UInt8) (h : Words) (k : Nat) : Words :=
  (List.range k).foldl (operation (wordsOf block)) h

/-- One block. -/
def compress (h : Words) (block : List UInt8) : Words :=
  let r := operations block h 64
  ⟨h.a + r.a, h.b + r.b, h.c + r.c, h.d + r.d⟩

/-! ## The message -/

/-- `n` blocks. -/
def blocks : Nat → Words → List UInt8 → Words
  | 0, h, _ => h
  | n + 1, h, bytes => blocks n (compress h (bytes.take 64)) (bytes.drop 64)

/-- All whole blocks. -/
def absorb (h : Words) (bytes : List UInt8) : Words := blocks (bytes.length / 64) h bytes

/-- The words before the first block. -/
def init : Words := ⟨0x67452301, 0xefcdab89, 0x98badcfe, 0x10325476⟩

/-- The low-order 64 bits of the number of bits, low-order byte first. -/
def lengthBytes (length : Nat) : List UInt8 :=
  (List.range 8).map fun i => UInt8.ofNat ((8 * length) >>> (8 * i))

/-- A single 1 bit, and 0 bits up to 448 modulo 512. -/
def padding (length : Nat) : List UInt8 := 0x80 :: List.replicate ((119 - length % 64) % 64) 0

/-- The padded message. -/
def pad (message : List UInt8) : List UInt8 :=
  message ++ padding message.length ++ lengthBytes message.length

/-- The bytes of a word, the low-order one first. -/
def bytesOf (w : Word) : List UInt8 :=
  (List.range 4).map fun k => ⟨(w >>> (8 * k)).setWidth 8⟩

/-- The digest of four words. -/
def output (h : Words) : List UInt8 := bytesOf h.a ++ bytesOf h.b ++ bytesOf h.c ++ bytesOf h.d

/-- **The MD5 message digest.** -/
def digest (message : List UInt8) : List UInt8 := output (absorb init (pad message))

/-- `MD5 ("abc")`. -/
example : digest [0x61, 0x62, 0x63] =
    [0x90, 0x01, 0x50, 0x98, 0x3c, 0xd2, 0x4f, 0xb0, 0xd6, 0x96, 0x3f, 0x7d, 0x28, 0xe1, 0x7f,
      0x72] := by
  decide +kernel

/-! ## Blocks of blocks -/

theorem absorb_of_lt (h : Words) {bytes : List UInt8} (hlt : bytes.length < 64) :
    absorb h bytes = h := by
  unfold absorb
  rw [Nat.div_eq_of_lt hlt, blocks]

@[simp] theorem absorb_nil (h : Words) : absorb h [] = h := absorb_of_lt h (by decide)

theorem absorb_cons_block (h : Words) {block : List UInt8} (hblock : block.length = 64)
    (rest : List UInt8) : absorb h (block ++ rest) = absorb (compress h block) rest := by
  have hdiv : (block ++ rest).length / 64 = rest.length / 64 + 1 := by
    rw [List.length_append, hblock]
    omega
  unfold absorb
  rw [hdiv, blocks, List.take_left' hblock, List.drop_left' hblock]

/-- Whole blocks are absorbed first. -/
theorem absorb_append (h : Words) {bytes : List UInt8} (hbytes : bytes.length % 64 = 0)
    (rest : List UInt8) : absorb h (bytes ++ rest) = absorb (absorb h bytes) rest := by
  obtain ⟨n, hn⟩ := Nat.dvd_of_mod_eq_zero hbytes
  induction n generalizing h bytes with
  | zero =>
    have hnil : bytes = [] := List.eq_nil_of_length_eq_zero (by omega)
    rw [hnil, List.nil_append, absorb_nil]
  | succ n ih =>
    have hsplit : bytes = bytes.take 64 ++ bytes.drop 64 := (List.take_append_drop 64 bytes).symm
    have htake : (bytes.take 64).length = 64 := by
      rw [List.length_take]
      omega
    have hdrop : (bytes.drop 64).length = 64 * n := by
      rw [List.length_drop]
      omega
    rw [hsplit, List.append_assoc, absorb_cons_block h htake, absorb_cons_block h htake]
    exact ih _ (by omega) hdrop

/-- The padding ends eight bytes before the end of a block. -/
theorem length_padding_mod (length : Nat) : (length + (padding length).length) % 64 = 56 := by
  unfold padding
  rw [List.length_cons, List.length_replicate]
  omega

/-! ## A short message -/

/-- The bytes as one number, the first byte the low-order one. -/
def numberOf (bytes : List UInt8) : Nat := bytes.foldr (fun b n => b.toNat ||| n <<< 8) 0

theorem numberOf_drop (k : Nat) (bytes : List UInt8) :
    numberOf (bytes.drop k) = numberOf bytes >>> (8 * k) := by
  induction k generalizing bytes with
  | zero => rfl
  | succ k ih =>
    cases bytes with
    | nil => rw [List.drop_nil, numberOf, List.foldr_nil, Nat.zero_shiftRight]
    | cons b bytes =>
      have hbyte : b.toNat >>> 8 = 0 := Nat.shiftRight_eq_zero _ _ b.toNat_lt
      have hcons : numberOf (b :: bytes) >>> 8 = numberOf bytes := by
        have hunfold : numberOf (b :: bytes) = b.toNat ||| numberOf bytes <<< 8 := rfl
        rw [hunfold, Nat.shiftRight_or_distrib, hbyte, Nat.zero_or, Nat.shiftLeft_shiftRight]
      rw [List.drop_succ_cons, ih, Nat.mul_succ, Nat.add_comm, Nat.shiftRight_add, hcons]

theorem ofNat_shiftLeft (n k : Nat) : BitVec.ofNat 32 (n <<< k) = BitVec.ofNat 32 n <<< k := by
  refine BitVec.eq_of_toNat_eq ?_
  rw [BitVec.toNat_shiftLeft, BitVec.toNat_ofNat, BitVec.toNat_ofNat, Nat.shiftLeft_eq,
    Nat.shiftLeft_eq, Nat.mod_mul_mod]

/-- Four bytes of the number are a word. -/
theorem ofNat_numberOf (b0 b1 b2 b3 : UInt8) (rest : List UInt8) :
    BitVec.ofNat 32 (numberOf (b0 :: b1 :: b2 :: b3 :: rest)) = word b0 b1 b2 b3 := by
  have hbehind : BitVec.ofNat 32 (numberOf rest) <<< 32 = 0#32 :=
    BitVec.shiftLeft_eq_zero (Nat.le_refl _)
  have hbyte : ∀ b : UInt8, BitVec.ofNat 32 b.toNat = b.toBitVec.setWidth 32 :=
    fun b => BitVec.ofNat_toNat 32 b.toBitVec
  have hcons : ∀ b bytes, BitVec.ofNat 32 (numberOf (b :: bytes))
      = b.toBitVec.setWidth 32 ||| BitVec.ofNat 32 (numberOf bytes) <<< 8 := by
    intro b bytes
    rw [← hbyte, ← ofNat_shiftLeft, ← BitVec.ofNat_or]
    rfl
  simp only [hcons, BitVec.shiftLeft_or_distrib, ← BitVec.shiftLeft_add]
  rw [hbehind, BitVec.or_zero, word, BitVec.or_assoc, BitVec.or_assoc]

/-- The words of a block are those of its number. -/
theorem wordsOf_eq {block : List UInt8} (h : block.length = 64) (j : Fin 16) :
    wordsOf block j = BitVec.ofNat 32 (numberOf block >>> (32 * j.val)) := by
  have hj := j.isLt
  have hdrop : block.drop (4 * j) = block.getD (4 * j) 0 :: block.getD (4 * j + 1) 0 ::
      block.getD (4 * j + 2) 0 :: block.getD (4 * j + 3) 0 :: block.drop (4 * j + 4) := by
    have hcons : ∀ i < 64, block.drop i = block.getD i 0 :: block.drop (i + 1) := by
      intro i hi
      rw [List.drop_eq_getElem_cons (h ▸ hi), List.getD, List.getElem?_eq_getElem (h ▸ hi),
        Option.getD_some]
    rw [hcons _ (by omega), hcons _ (by omega), hcons _ (by omega), hcons _ (by omega)]
  have hshift : 32 * j.val = 8 * (4 * j.val) := by omega
  rw [hshift, ← numberOf_drop, hdrop, ofNat_numberOf, wordsOf]

/-- The digest of a message that fits into one block with its padding, from the number of it. -/
def digestOfNumber (n : Nat) : List UInt8 :=
  let r := (List.range 64).foldl (operation fun j => BitVec.ofNat 32 (n >>> (32 * j.val))) init
  output ⟨init.a + r.a, init.b + r.b, init.c + r.c, init.d + r.d⟩

theorem length_pad_of_short {message : List UInt8} (h : message.length < 56) :
    (pad message).length = 64 := by
  have h8 : (lengthBytes message.length).length = 8 := by simp [lengthBytes]
  rw [pad, List.length_append, List.length_append, h8, padding, List.length_cons,
    List.length_replicate]
  omega

/-- **A short message** is digested by one block. -/
theorem digest_of_short {message : List UInt8} (h : message.length < 56) :
    digest message = digestOfNumber (numberOf (pad message)) := by
  have hlen := length_pad_of_short h
  have hblock := absorb_cons_block init hlen []
  rw [List.append_nil, absorb_nil] at hblock
  have hwords : wordsOf (pad message)
      = fun j => BitVec.ofNat 32 (numberOf (pad message) >>> (32 * j.val)) := by
    funext j
    exact wordsOf_eq hlen j
  rw [digest, hblock, compress, operations, hwords, digestOfNumber]

end Terminator.Digest.Rfc1321
