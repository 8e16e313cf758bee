import Mathlib.Data.List.Basic

/-!
# Java text: strings, bytes and charsets

A Java `String` is its list of UTF-16 code units and a `byte[]` its list of bytes (the sign of a
byte never matters here). `new String(bytes)` and `s.getBytes()` go through the default charset
of the virtual machine, a parameter (`Charset`). Its laws are that nothing is decoded from and
encoded to nothing, and that a string has no more code units than its encoding has bytes, which
the digest of `MD5.java` relies on. `utf8` is that charset as the JDK documents it, with its
replacement of malformed input.
-/

namespace Terminator.Java

/-- A UTF-16 code unit. -/
abbrev JChar := UInt16

/-- `java.lang.String`. -/
abbrev JString := List JChar

/-- A byte of a `byte[]`. -/
abbrev Byte := UInt8

/-- A string literal of the source (all of them are in the basic plane). -/
def lit (s : String) : JString := s.toList.map fun c => UInt16.ofNat c.toNat

/-- The lower case of an ASCII letter, every other unit as it is. -/
def lowerAscii (c : JChar) : JChar := if 0x41 ≤ c.toNat ∧ c.toNat ≤ 0x5A then c + 0x20 else c

/-- The pieces of `s` between the occurrences of `sep`. -/
def pieces (sep : JChar) : JString → List JString
  | [] => [[]]
  | c :: s =>
    if c = sep then [] :: pieces sep s
    else
      match pieces sep s with
      | [] => [[c]]
      | p :: ps => (c :: p) :: ps

/-- `s.split(regex)` for a regular expression that matches one unit: the string itself when
nothing matches, else its pieces without the trailing empty ones. -/
def split (sep : JChar) (s : JString) : List JString :=
  if sep ∈ s then ((pieces sep s).reverse.dropWhile List.isEmpty).reverse else [s]

/-- `s.replace(target, replacement)`: while `skip` is positive, the unit read belongs to the
occurrence replaced last. -/
def replace (target replacement : JString) : Nat → JString → JString
  | _, [] => []
  | skip + 1, _ :: s => replace target replacement skip s
  | 0, c :: s =>
    if target.isPrefixOf (c :: s) then
      replacement ++ replace target replacement (target.length - 1) s
    else c :: replace target replacement 0 s

/-- A default charset: `new String(bytes)` and `getBytes()`. -/
structure Charset where
  decode : List Byte → JString
  encode : JString → List Byte
  decode_nil : decode [] = []
  encode_nil : encode [] = []
  /-- Every code unit takes part in at least one byte of its own. -/
  length_le_encode : ∀ s : JString, s.length ≤ (encode s).length

/-- The decoder represents `bytes` faithfully: encoding the decoded string gives them back. -/
def Charset.Faithful (cs : Charset) (bytes : List Byte) : Prop :=
  cs.encode (cs.decode bytes) = bytes

instance (cs : Charset) (bytes : List Byte) : Decidable (cs.Faithful bytes) :=
  inferInstanceAs (Decidable (cs.encode (cs.decode bytes) = bytes))

/-- Decoding is injective on what it represents faithfully. -/
theorem Charset.Faithful.decode_inj {cs : Charset} {b b' : List Byte} (h : cs.Faithful b)
    (h' : cs.Faithful b') (heq : cs.decode b = cs.decode b') : b = b' := by
  unfold Charset.Faithful at h h'
  rw [← h, ← h', heq]

/-! ## UTF-8 -/

namespace Utf8

/-- U+FFFD, what the decoder writes for malformed input. -/
def replacement : JChar := 0xFFFD

/-- `Character.isHighSurrogate`. -/
def isHighSurrogate (c : JChar) : Bool := 0xD800 ≤ c.toNat && c.toNat < 0xDC00

/-- `Character.isLowSurrogate`. -/
def isLowSurrogate (c : JChar) : Bool := 0xDC00 ≤ c.toNat && c.toNat < 0xE000

/-- The bytes of a supplementary code point. -/
def fourBytes (cp : Nat) : List Byte :=
  [UInt8.ofNat (0xF0 + cp / 0x40000), UInt8.ofNat (0x80 + cp / 0x1000 % 64),
    UInt8.ofNat (0x80 + cp / 64 % 64), UInt8.ofNat (0x80 + cp % 64)]

/-- The bytes of a code unit that stands alone; a lone surrogate is encoded as `?`. -/
def unitBytes (c : JChar) : List Byte :=
  let n := c.toNat
  if n < 0x80 then [UInt8.ofNat n]
  else if n < 0x800 then [UInt8.ofNat (0xC0 + n / 64), UInt8.ofNat (0x80 + n % 64)]
  else if isHighSurrogate c || isLowSurrogate c then [0x3F]
  else [UInt8.ofNat (0xE0 + n / 0x1000), UInt8.ofNat (0x80 + n / 64 % 64),
    UInt8.ofNat (0x80 + n % 64)]

/-- `s.getBytes("UTF-8")`. -/
def encode : JString → List Byte
  | [] => []
  | [c] => unitBytes c
  | c :: d :: rest =>
    if isHighSurrogate c && isLowSurrogate d then
      fourBytes (0x10000 + (c.toNat - 0xD800) * 0x400 + (d.toNat - 0xDC00)) ++ encode rest
    else unitBytes c ++ encode (d :: rest)

theorem unitBytes_length_pos (c : JChar) : 1 ≤ (unitBytes c).length := by
  unfold unitBytes
  simp only
  split_ifs <;> simp

theorem length_le_encode (s : JString) : s.length ≤ (encode s).length := by
  induction s using encode.induct with
  | case1 => exact Nat.zero_le _
  | case2 c => exact unitBytes_length_pos c
  | case3 c d rest h ih =>
    rw [encode, if_pos h]
    simp only [List.length_cons, List.length_append, fourBytes, List.length_nil]
    omega
  | case4 c d rest h ih =>
    rw [encode, if_neg h]
    have := unitBytes_length_pos c
    simp only [List.length_cons, List.length_append] at ih ⊢
    omega

/-- A continuation byte, `10xxxxxx`. -/
def isContinuation (b : Byte) : Bool := b.toNat / 64 == 2

/-- The second byte of a three-byte form is out of its range. -/
def isMalformed3_2 (b1 b2 : Byte) : Bool :=
  (b1 == 0xE0 && b2.toNat / 32 == 4) || !isContinuation b2

/-- The second byte of a four-byte form is out of its range. -/
def isMalformed4_2 (b1 b2 : Byte) : Bool :=
  (b1 == 0xF0 && b2.toNat / 16 == 8) || (b1 == 0xF4 && b2.toNat / 16 != 8) || !isContinuation b2

/-- One step of the decoder at the byte `b1`: the code units written, and how many of the bytes
after `b1` are consumed. -/
def decodeStep (b1 : Byte) (rest : List Byte) : JString × Nat :=
  let malformed (n : Nat) : JString × Nat := ([replacement], n)
  let n1 := b1.toNat
  if n1 < 0x80 then ([UInt16.ofNat n1], 0)
  else if 0xC2 ≤ n1 ∧ n1 < 0xE0 then
    match rest with
    | b2 :: _ =>
      if isContinuation b2 then ([UInt16.ofNat (n1 % 32 * 64 + b2.toNat % 64)], 1)
      else malformed 0
    | [] => malformed 0
  else if 0xE0 ≤ n1 ∧ n1 < 0xF0 then
    match rest with
    | b2 :: b3 :: _ =>
      let cp := n1 % 16 * 0x1000 + b2.toNat % 64 * 64 + b3.toNat % 64
      if isMalformed3_2 b1 b2 then malformed 0
      else if !isContinuation b3 then malformed 1
      else if 0xD800 ≤ cp ∧ cp < 0xE000 then malformed 2
      else ([UInt16.ofNat cp], 2)
    | [b2] => if isMalformed3_2 b1 b2 then malformed 0 else malformed 1
    | [] => malformed 0
  else if 0xF0 ≤ n1 ∧ n1 < 0xF5 then
    match rest with
    | b2 :: b3 :: b4 :: _ =>
      let cp := n1 % 8 * 0x40000 + b2.toNat % 64 * 0x1000 + b3.toNat % 64 * 64 + b4.toNat % 64
      if isMalformed4_2 b1 b2 then malformed 0
      else if !isContinuation b3 then malformed 1
      else if !isContinuation b4 then malformed 2
      else ([UInt16.ofNat (0xD800 + (cp - 0x10000) / 0x400),
        UInt16.ofNat (0xDC00 + (cp - 0x10000) % 0x400)], 3)
    | b2 :: b3 :: _ =>
      if isMalformed4_2 b1 b2 then malformed 0
      else if !isContinuation b3 then malformed 1
      else malformed 2
    | [b2] => if isMalformed4_2 b1 b2 then malformed 0 else malformed 1
    | [] => malformed 0
  else malformed 0

/-- The decoding loop; every step consumes a byte, so the number of bytes is fuel enough. -/
def decodeLoop : Nat → List Byte → JString
  | 0, _ => []
  | _ + 1, [] => []
  | n + 1, b :: rest =>
    (decodeStep b rest).1 ++ decodeLoop n (rest.drop (decodeStep b rest).2)

/-- `new String(bytes, "UTF-8")`. -/
def decode (bytes : List Byte) : JString := decodeLoop bytes.length bytes

end Utf8

/-- UTF-8 as the default charset. -/
def utf8 : Charset where
  decode := Utf8.decode
  encode := Utf8.encode
  decode_nil := rfl
  encode_nil := rfl
  length_le_encode := Utf8.length_le_encode

/-- A two-byte character survives the round trip; a stray continuation byte does not. -/
example : utf8.Faithful [0x61, 0xC3, 0xA9] ∧ ¬ utf8.Faithful [0x61, 0xA9] := by decide

end Terminator.Java
