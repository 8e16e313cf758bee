import Terminator.Java.OneByte
import Terminator.Plugin.MD5Refines

/-!
# The MD5 of a string

`getMD5ofStr` passes `inbuf.getBytes()` and `inbuf.length()` to `md5Update`: as many bytes of the
encoding as the string has characters (`digested`). It returns the digest of these bytes
(`getMD5ofStr_eq`).

`IsMD5 s` says that the result is the digest of the whole encoding and that no string with another
encoding is digested as the same bytes. **`isMD5_iff`**: with UTF-8 this holds of the strings of
one-byte units and of no other. A string with a longer encoding loses its last bytes, so there is
another one, of the same length, that differs from it in a byte that is not digested.
-/

namespace Terminator.Plugin.MD5

open Terminator.Java Terminator.Digest

/-- The lower-case hexadecimal digit of a number below 16. -/
def lowerDigit (n : Nat) : JChar := UInt16.ofNat (if n < 10 then 0x30 + n else 0x61 + (n - 10))

/-- The lower-case hexadecimal form of bytes. -/
def lowerHex (bytes : List Byte) : JString :=
  bytes.flatMap fun b => [lowerDigit (b.toNat / 16), lowerDigit (b.toNat % 16)]

/-- `byteHEX` of each byte, in lower case. -/
theorem byteHEX_lower (bytes : List Byte) :
    (bytes.flatMap byteHEX).map lowerAscii = lowerHex bytes := by
  have hbyte : ∀ b : Byte, (byteHEX b).map lowerAscii = lowerHex [b] := by
    intro b
    have hall : ∀ v : BitVec 8, (byteHEX ⟨v⟩).map lowerAscii = lowerHex [⟨v⟩] := by decide +kernel
    exact hall b.toBitVec
  induction bytes with
  | nil => rfl
  | cons b bytes ih =>
    have hcons : lowerHex (b :: bytes) = lowerHex [b] ++ lowerHex bytes := rfl
    rw [List.flatMap_cons, List.map_append, hbyte, ih, hcons]

theorem isLowerHex_lowerDigit {n : Nat} (h : n < 16) : IsLowerHex (lowerDigit n) := by
  unfold IsLowerHex lowerDigit
  rw [UInt16.toNat_ofNat']
  split <;> omega

/-- Lower-case hexadecimal is made of such digits. -/
theorem isLowerHex_lowerHex (bytes : List Byte) : ∀ c ∈ lowerHex bytes, IsLowerHex c := by
  intro c hc
  obtain ⟨b, -, hb⟩ := List.mem_flatMap.mp hc
  have hlt : b.toNat < 256 := b.toNat_lt
  simp only [List.mem_cons, List.not_mem_nil, or_false] at hb
  obtain rfl | rfl := hb
  · exact isLowerHex_lowerDigit (by omega)
  · exact isLowerHex_lowerDigit (by omega)

theorem lowerDigit_inj {m n : Nat} (hm : m < 16) (hn : n < 16)
    (h : lowerDigit m = lowerDigit n) : m = n := by
  have heq := congrArg UInt16.toNat h
  unfold lowerDigit at heq
  rw [UInt16.toNat_ofNat', UInt16.toNat_ofNat'] at heq
  split at heq <;> split at heq <;> omega

/-- The lower-case hexadecimal form tells bytes apart. -/
theorem lowerHex_inj {bytes bytes' : List Byte} (h : lowerHex bytes = lowerHex bytes') :
    bytes = bytes' := by
  induction bytes generalizing bytes' with
  | nil =>
    cases bytes' with
    | nil => rfl
    | cons b' bytes' => cases h
  | cons b bytes ih =>
    cases bytes' with
    | nil => cases h
    | cons b' bytes' =>
      obtain ⟨hhigh, hrest⟩ := List.cons.inj h
      obtain ⟨hlow, hrest⟩ := List.cons.inj hrest
      have hlt : b.toNat < 256 := b.toNat_lt
      have hlt' : b'.toNat < 256 := b'.toNat_lt
      have hdiv := lowerDigit_inj (by omega) (by omega) hhigh
      have hmod := lowerDigit_inj (by omega) (by omega) hlow
      have hbyte : b = b' := UInt8.toNat_inj.mp (by omega)
      rw [hbyte, ih hrest]

/-- **`getMD5ofStr` never throws**, and its result is lower-case hexadecimal. A charset gives a
string at least as many bytes as it has code units, so the digest never reads past them. -/
theorem getMD5ofStr_ok (cs : Charset) (s : JString) :
    ∃ key, getMD5ofStr cs s = .ok key ∧ ∀ c ∈ key, IsLowerHex c := by
  obtain ⟨m, whole, rest, hupdate, hholds, -, -⟩ :=
    md5Update_spec holds_new (cs.length_le_encode s)
  have hfinal := md5Final_spec hholds
  generalize Rfc1321.output _ = digest at hfinal
  refine ⟨lowerHex digest, ?_, isLowerHex_lowerHex digest⟩
  unfold getMD5ofStr
  simp only [hupdate, hfinal, bind, Except.bind, pure, Except.pure]
  rw [byteHEX_lower]

/-- The bytes of the encoding that `getMD5ofStr` has `md5Update` take in. -/
def digested (cs : Charset) (s : JString) : List Byte := (cs.encode s).take s.length

/-- A `byte[]` can hold the encoding. -/
def Encodable (cs : Charset) (s : JString) : Prop := (cs.encode s).length < 2 ^ 31

/-- **`getMD5ofStr`** is the digest of the bytes it takes in. -/
theorem getMD5ofStr_eq {cs : Charset} {s : JString} (hs : Encodable cs s) :
    getMD5ofStr cs s = .ok (lowerHex (Rfc1321.digest (digested cs s))) := by
  obtain ⟨m, -, -, hupdate, -, -, -, hfinal⟩ :=
    digest_of_update holds_new rfl hs (cs.length_le_encode s)
  unfold getMD5ofStr
  simp only [hupdate, hfinal, bind, Except.bind, pure, Except.pure]
  rw [byteHEX_lower]
  rfl

/-- The result is the digest of the whole encoding of `s`, and a string that is digested as the same
bytes has the same encoding. -/
def IsMD5 (cs : Charset) (s : JString) : Prop :=
  getMD5ofStr cs s = .ok (lowerHex (Rfc1321.digest (cs.encode s))) ∧
    ∀ t, Encodable cs t → digested cs t = digested cs s → cs.encode t = cs.encode s

/-- All of the string is digested: its encoding has a byte for each unit, and it is decoded to the
string again. -/
structure DigestedWhole (cs : Charset) (s : JString) : Prop where
  encodable : Encodable cs s
  whole : (cs.encode s).length = s.length
  decodes : cs.decode (cs.encode s) = s

theorem DigestedWhole.digested_eq {cs : Charset} {s : JString} (hs : DigestedWhole cs s) :
    digested cs s = cs.encode s := List.take_of_length_le (Nat.le_of_eq hs.whole)

/-- **Strings that are digested whole** have different results, but for collisions of MD5. -/
theorem eq_of_getMD5ofStr_eq {cs : Charset} {s t : JString} (hs : DigestedWhole cs s)
    (ht : DigestedWhole cs t) (h : getMD5ofStr cs s = getMD5ofStr cs t)
    (hcollision : Rfc1321.digest (cs.encode s) = Rfc1321.digest (cs.encode t) →
      cs.encode s = cs.encode t) : s = t := by
  rw [getMD5ofStr_eq hs.encodable, getMD5ofStr_eq ht.encodable, Except.ok.injEq, hs.digested_eq,
    ht.digested_eq] at h
  rw [← hs.decodes, ← ht.decodes, hcollision (lowerHex_inj h)]

/-- All of the encoding is digested when each unit is a byte. -/
theorem digested_of_oneByte {s : JString} (hs : Utf8.OneByte s) :
    digested utf8 s = utf8.encode s :=
  List.take_of_length_le (Nat.le_of_eq ((Utf8.length_encode_eq_iff s).mpr hs))

/-- A string with a longer encoding shares its digested bytes with another one. -/
theorem exists_same_digested {s : JString} (henc : Encodable utf8 s) (hs : ¬Utf8.OneByte s) :
    ∃ t, Encodable utf8 t ∧ digested utf8 t = digested utf8 s ∧ utf8.encode t ≠ utf8.encode s := by
  have hne : s ≠ [] := by
    rintro rfl
    exact hs trivial
  obtain ⟨t, p, b, b', hlen, hb, hb', hbyte, -⟩ := Utf8.differ_in_last hne
  have hb : utf8.encode s = p ++ [b] := hb
  have hb' : utf8.encode t = p ++ [b'] := hb'
  -- the last byte of the encoding is not digested
  have hshort : s.length ≤ p.length := by
    have hle := utf8.length_le_encode s
    have hlt : (utf8.encode s).length ≠ s.length := fun heq =>
      hs ((Utf8.length_encode_eq_iff s).mp heq)
    rw [hb, List.length_append, List.length_singleton] at hle hlt
    omega
  refine ⟨t, ?_, ?_, ?_⟩
  · unfold Encodable at henc ⊢
    rw [hb] at henc
    rw [hb']
    simpa using henc
  · unfold digested
    rw [hb, hb', hlen, List.take_append_of_le_length hshort, List.take_append_of_le_length hshort]
  · rw [hb, hb']
    intro heq
    simp at heq
    exact hbyte heq.symm

/-- **The result is the MD5 of the string exactly when each unit is one byte.** -/
theorem isMD5_iff {s : JString} (hs : Encodable utf8 s) : IsMD5 utf8 s ↔ Utf8.OneByte s := by
  constructor
  · rintro ⟨-, hinj⟩
    by_contra hone
    obtain ⟨t, ht, hsame, hne⟩ := exists_same_digested hs hone
    exact hne (hinj t ht hsame)
  · intro hone
    refine ⟨by rw [getMD5ofStr_eq hs, digested_of_oneByte hone], fun t _ hsame => ?_⟩
    rw [digested_of_oneByte hone] at hsame
    -- the digested bytes are ASCII, so `t` is made of one-byte units too
    have honet : Utf8.OneByte t := by
      by_contra hnot
      obtain ⟨b, hmem, hhigh⟩ := Utf8.high_byte_of_not_oneByte hnot
      have hmem' : b ∈ utf8.encode s := by
        rw [← hsame]
        exact hmem
      have hlow := Utf8.bytes_lt_of_oneByte hone b hmem'
      omega
    rw [← digested_of_oneByte honet, hsame]

/-- The string `abc`. -/
theorem isMD5_abc : IsMD5 utf8 (lit "abc") := by
  have hs : Encodable utf8 (lit "abc") := by
    unfold Encodable
    decide
  exact (isMD5_iff hs).mpr (by decide)

/-- `é` and `à`: the digest is that of the byte they begin with, for both. -/
theorem not_isMD5_accent : ¬IsMD5 utf8 [0xE9] ∧
    getMD5ofStr utf8 [0xE9] ≠ .ok (lowerHex (Rfc1321.digest (utf8.encode [0xE9]))) ∧
    getMD5ofStr utf8 [0xE9] = getMD5ofStr utf8 [0xE0] := by
  have hresult : getMD5ofStr utf8 [0xE9] ≠
      .ok (lowerHex (Rfc1321.digest (utf8.encode [0xE9]))) := by
    decide +kernel
  refine ⟨fun h => hresult h.1, hresult, ?_⟩
  decide +kernel

end Terminator.Plugin.MD5
