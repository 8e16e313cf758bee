import Terminator.Digest.Rfc1321
import Terminator.Plugin.MD5

/-!
# The MD5 engine computes the RFC 1321 digest

`MD5.java` keeps each 32-bit word of the RFC in a `long`: a sum is not reduced, a rotation is
sign-extended when it is assigned, and only the low half of a word is ever read
(`(int) a`, `Encode`). `low` takes a `long` to the word it stands for, and every operation of the
program commutes with it.

* `words_statements`: the registers stand for the words of the RFC after each of the 64 statements,
  and `words_md5Transform` after a block.
* `Holds`: what the state and the buffer hold of the bytes taken in so far; `md5Update_spec` is the
  step it makes.
* **`md5_refines`**: for every array and every number of its bytes the digest is that of the RFC.

The length is an `int`, so it is below `2 ^ 31`: `inputLen << 3` overflows from `2 ^ 28` on, and
`Encode_count` says that the eight bytes of the length are right all the same.
-/

namespace Terminator.Plugin.MD5

open Terminator.Java Terminator.Digest

/-! ## Words -/

/-- The 32-bit word a `long` stands for. -/
def low (w : BitVec 64) : Rfc1321.Word := w.setWidth 32

@[simp] theorem low_add (x y : BitVec 64) : low (x + y) = low x + low y :=
  BitVec.setWidth_add x y (by omega)

@[simp] theorem low_or (x y : BitVec 64) : low (x ||| y) = low x ||| low y := BitVec.setWidth_or

@[simp] theorem low_and (x y : BitVec 64) : low (x &&& y) = low x &&& low y := BitVec.setWidth_and

@[simp] theorem low_xor (x y : BitVec 64) : low (x ^^^ y) = low x ^^^ low y := BitVec.setWidth_xor

@[simp] theorem low_not (x : BitVec 64) : low (~~~x) = ~~~low x := BitVec.setWidth_not (by omega)

@[simp] theorem low_shiftLeft (x : BitVec 64) (s : Nat) : low (x <<< s) = low x <<< s :=
  BitVec.setWidth_shiftLeft_of_le (by omega)

/-- Sign extension leaves the low half alone. -/
@[simp] theorem low_signExtend (w : BitVec 32) : low (w.signExtend 64) = w := by
  apply BitVec.eq_of_getLsbD_eq
  intro i hi
  have hi64 : i < 64 := by omega
  simp [low, BitVec.getElem_signExtend, hi, hi64]

/-- The two shifts of `(int) a` are a rotation. -/
theorem shifts_eq_rotateLeft (w : BitVec 32) {s : Nat} (hs : s < 32) :
    (w <<< s) ||| (w >>> (32 - s)) = w.rotateLeft s := by
  rw [BitVec.rotateLeft_def, Nat.mod_eq_of_lt hs]

/-- The function of the RFC that a statement's function stands for. -/
def Mix.word : Mix → Rfc1321.Word → Rfc1321.Word → Rfc1321.Word → Rfc1321.Word
  | .FF => Rfc1321.F
  | .GG => Rfc1321.G
  | .HH => Rfc1321.H
  | .II => Rfc1321.I

/-- **`FF`, `GG`, `HH` and `II`** on the low halves. -/
theorem low_apply (f : Mix) (a b c d x : BitVec 64) {s : Nat} (hs : s < 32) (ac : BitVec 64) :
    low (f.apply a b c d x s ac) =
      low b + (low a + f.word (low b) (low c) (low d) + low x + low ac).rotateLeft s := by
  have hmix : ∀ g : BitVec 64 → BitVec 64 → BitVec 64 → BitVec 64,
      low (mix g a b c d x s ac) =
        low b + (low a + low (g b c d) + low x + low ac).rotateLeft s := by
    intro g
    have hsum : (a + (g b c d + x + ac)).setWidth 32 = low a + low (g b c d) + low x + low ac := by
      show low (a + (g b c d + x + ac)) = _
      rw [low_add, low_add, low_add, ← BitVec.add_assoc, ← BitVec.add_assoc]
    unfold mix
    dsimp only
    rw [low_add, low_signExtend, shifts_eq_rotateLeft _ hs, hsum, BitVec.add_comm]
  cases f with
  | FF => simpa [Mix.apply, FF, Mix.word, F, Rfc1321.F] using hmix F
  | GG => simpa [Mix.apply, GG, Mix.word, G, Rfc1321.G] using hmix G
  | HH => simpa [Mix.apply, HH, Mix.word, H, Rfc1321.H] using hmix H
  | II => simpa [Mix.apply, II, Mix.word, I, Rfc1321.I] using hmix I

/-! ## Bytes -/

/-- **`b2iu`** is the byte, from 0 to 255. -/
theorem b2iu_eq (b : Byte) : b2iu b = b.toBitVec.setWidth 64 := by
  have hall : ∀ v : BitVec 8, b2iu ⟨v⟩ = v.setWidth 64 := by decide +kernel
  exact hall b.toBitVec

theorem low_b2iu (b : Byte) : low (b2iu b) = b.toBitVec.setWidth 32 := by
  rw [b2iu_eq]
  exact BitVec.setWidth_setWidth_of_le _ (by omega)

theorem low_Decode (block : Vector Byte 64) (j : Fin 16) :
    low ((Decode block).get j) = Rfc1321.wordsOf block.toList j := by
  have hget : ∀ i (hi : i < 64), block.toList.getD i 0 = block[i] := by
    intro i hi
    simp [hi]
  have hread : (Decode block).get j = (Decode block)[j.val] := rfl
  rw [hread]
  unfold Decode Rfc1321.wordsOf Rfc1321.word
  rw [hget _ (by omega), hget _ (by omega), hget _ (by omega), hget _ (by omega)]
  simp [low_b2iu]

/-! ## The statements of `md5Transform` -/

/-- The four words the registers stand for. -/
def Regs.words (r : Regs) : Rfc1321.Words := ⟨low r.a, low r.b, low r.c, low r.d⟩

/-- The four words the state stands for. -/
def words (state : Vector (BitVec 64) 4) : Rfc1321.Words := (regs state).words

/-- Which function statement `i` mixes with. -/
def mixOf (i : Nat) : Mix :=
  match i / 16 with
  | 0 => .FF
  | 1 => .GG
  | 2 => .HH
  | _ => .II

theorem word_mixOf (i : Nat) : (mixOf i).word = Rfc1321.auxiliary i := by
  unfold mixOf Rfc1321.auxiliary
  rcases i / 16 with _ | _ | _ | r <;> rfl

/-- **The tables** of the program are those of the RFC. -/
theorem rounds_eq : rounds = (List.range 64).map fun i =>
    (mixOf i, Rfc1321.wordIndex i, Rfc1321.shift i, (Rfc1321.T.getD i 0).setWidth 64) := by
  rfl

theorem shift_lt (i : Nat) : Rfc1321.shift i < 32 := by
  unfold Rfc1321.shift
  split <;> omega

theorem words_step (x : Vector (BitVec 64) 16) (r : Regs) (i : Nat) :
    (step x r (mixOf i, Rfc1321.wordIndex i, Rfc1321.shift i,
        (Rfc1321.T.getD i 0).setWidth 64)).words =
      Rfc1321.operation (fun j => low (x.get j)) r.words i := by
  have hac : low ((Rfc1321.T.getD i 0).setWidth 64) = Rfc1321.T.getD i 0 :=
    BitVec.setWidth_setWidth_of_le _ (by omega)
  unfold step Regs.words Rfc1321.operation
  dsimp only
  rw [low_apply _ _ _ _ _ _ (shift_lt i), hac, word_mixOf]
  rfl

/-- **After every statement** the registers stand for the words of the RFC. -/
theorem words_statements (block : Vector Byte 64) (r : Regs) {k : Nat} (hk : k ≤ 64) :
    ((rounds.take k).foldl (step (Decode block)) r).words =
      Rfc1321.operations block.toList r.words k := by
  have hwords : (fun j => low ((Decode block).get j)) = Rfc1321.wordsOf block.toList := by
    funext j
    exact low_Decode block j
  have htake : (List.range 64).take k = List.range k := by
    rw [List.take_range, Nat.min_eq_left hk]
  unfold Rfc1321.operations
  rw [rounds_eq, ← List.map_take, htake, List.foldl_map, ← hwords]
  exact (List.foldl_hom Regs.words fun r i => (words_step (Decode block) r i).symm).symm

/-- **`md5Transform`** compresses the block. -/
theorem words_md5Transform (state : Vector (BitVec 64) 4) (block : Vector Byte 64) :
    words (md5Transform state block) = Rfc1321.compress (words state) block.toList := by
  have h := words_statements block (regs state) (Nat.le_refl 64)
  have hall : rounds.take 64 = rounds := List.take_of_length_le (Nat.le_of_eq rfl)
  rw [hall] at h
  change _ = Rfc1321.operations block.toList (words state) 64 at h
  unfold Rfc1321.compress
  dsimp only
  rw [← h]
  simp [words, md5Transform, regs, Regs.words]

/-! ## Buffering -/

/-- **The block loop** absorbs the whole blocks of the input. -/
theorem blockLoop_spec {inbuf : List Byte} {inputLen : Nat} (hlen : inputLen ≤ inbuf.length) :
    ∀ (fuel i : Nat) (state : Vector (BitVec 64) 4), i ≤ inputLen →
      inputLen < i + 64 * (fuel + 1) →
      ∃ j st, blockLoop inbuf inputLen fuel i state = .ok (i + 64 * j, st) ∧
        i + 64 * j ≤ inputLen ∧ inputLen < i + 64 * j + 64 ∧
        words st = Rfc1321.absorb (words state) ((inbuf.drop i).take (64 * j))
  | 0, i, state, hi, hf => ⟨0, state, rfl, hi, by omega, by simp⟩
  | fuel + 1, i, state, hi, hf => by
    rw [blockLoop]
    by_cases hc : i + 63 < inputLen
    · obtain ⟨block, hb, hlist⟩ :=
        md5Memcpy_spec (Vector.replicate 64 0) inbuf 0 i 64 (by omega) (by omega)
      have hblock : block.toList = (inbuf.drop i).take 64 := by
        rw [hlist]
        simp
      obtain ⟨j, st, hrun, hj, hj', hst⟩ := blockLoop_spec hlen fuel (i + 64)
        (md5Transform state block) (by omega) (by omega)
      have hnext : i + 64 + 64 * j = i + 64 * (j + 1) := by omega
      have hsplit : (inbuf.drop i).take (64 * (j + 1)) =
          block.toList ++ (inbuf.drop (i + 64)).take (64 * j) := by
        rw [hblock, show 64 * (j + 1) = 64 + 64 * j by omega, List.take_add, List.drop_drop]
      rw [if_pos hc, hb]
      refine ⟨j + 1, st, ?_, by omega, by omega, ?_⟩
      · rw [← hnext]
        exact hrun
      · rw [hst, words_md5Transform, hsplit, Rfc1321.absorb_cons_block _ (by simp)]
    · rw [if_neg hc]
      exact ⟨0, state, rfl, hi, by omega, by simp⟩

theorem toNat_low (w : BitVec 64) : (low w).toNat = w.toNat % 2 ^ 32 := BitVec.toNat_setWidth 32 w

/-- The number of bits, as far as the buffering reads it. -/
theorem addCount_mod (count : Vector (BitVec 64) 2) (n : Nat) :
    bitCount (addCount count n) % 512 = (bitCount count + 8 * n) % 512 := by
  have hlow := toNat_low ((BitVec.ofNat 32 n <<< 3).signExtend 64)
  rw [low_signExtend, BitVec.toNat_shiftLeft, BitVec.toNat_ofNat, Nat.shiftLeft_eq] at hlow
  have hsum : bitCount (addCount count n) =
      (bitCount count + ((BitVec.ofNat 32 n <<< 3).signExtend 64).toNat) % 2 ^ 64 := rfl
  rw [hsum]
  omega

/-- **The engine has taken in `whole` and `rest`**: the state has absorbed the blocks of `whole`,
and `rest`, less than a block, is in the buffer. -/
structure Holds (m : MD5) (whole rest : List Byte) : Prop where
  blocks : whole.length % 64 = 0
  pending : rest.length < 64
  state : words m.state = Rfc1321.absorb Rfc1321.init whole
  buffer : m.buffer.toList.take rest.length = rest
  count : bitCount m.count % 512 = 8 * rest.length

theorem Holds.bufferIndex {m : MD5} {whole rest : List Byte} (h : Holds m whole rest) :
    m.bufferIndex = rest.length := by
  have hcount := h.count
  have hpending := h.pending
  rw [bufferIndex_eq]
  omega

theorem holds_md5Init (m : MD5) : Holds (md5Init m) [] [] where
  blocks := rfl
  pending := by decide
  state := by
    rw [Rfc1321.absorb_nil]
    rfl
  buffer := rfl
  count := rfl

theorem holds_new : Holds new [] [] := holds_md5Init _

/-- **An update takes in** the first `inputLen` bytes of the input. -/
def TakesIn (m : MD5) (whole rest inbuf : List Byte) (inputLen : Nat) : Prop :=
  ∃ m' whole' rest', md5Update m inbuf inputLen = .ok m' ∧ Holds m' whole' rest' ∧
    whole' ++ rest' = whole ++ rest ++ inbuf.take inputLen ∧
    m'.count = addCount m.count inputLen

/-- An input that does not fill the buffer is added to it. -/
theorem takesIn_of_lt {m : MD5} {whole rest : List Byte} (h : Holds m whole rest)
    {inbuf : List Byte} {inputLen : Nat} (hlen : inputLen ≤ inbuf.length)
    (hp : ¬64 - rest.length ≤ inputLen) : TakesIn m whole rest inbuf inputLen := by
  have hcount := h.count
  have hadd := addCount_mod m.count inputLen
  obtain ⟨buffer, hb, hlist⟩ := md5Memcpy_spec m.buffer inbuf rest.length 0 inputLen
    (by omega) (by omega)
  have hlength : (rest ++ inbuf.take inputLen).length = rest.length + inputLen := by
    simp
    omega
  refine ⟨⟨m.state, addCount m.count inputLen, buffer⟩, whole, rest ++ inbuf.take inputLen, ?_,
    ⟨h.blocks, by omega, h.state, ?_, ?_⟩, (List.append_assoc _ _ _).symm, rfl⟩
  · unfold md5Update
    dsimp only
    rw [h.bufferIndex, if_neg hp, hb]
    rfl
  · rw [hlength]
    simp only
    rw [hlist, h.buffer, List.drop_zero, List.take_left' hlength]
  · rw [hlength]
    simp only
    rw [hadd]
    omega

/-- An input that fills the buffer: the buffer is absorbed, then the blocks of the input. -/
theorem takesIn_of_le {m : MD5} {whole rest : List Byte} (h : Holds m whole rest)
    {inbuf : List Byte} {inputLen : Nat} (hlen : inputLen ≤ inbuf.length)
    (hp : 64 - rest.length ≤ inputLen) : TakesIn m whole rest inbuf inputLen := by
  have hblocks := h.blocks
  have hpending := h.pending
  have hcount := h.count
  have hadd := addCount_mod m.count inputLen
  obtain ⟨buffer, hb, hlist⟩ := md5Memcpy_spec m.buffer inbuf rest.length 0
    (64 - rest.length) (by omega) (by omega)
  have hfull : buffer.toList = rest ++ inbuf.take (64 - rest.length) := by
    rw [hlist, h.buffer, List.drop_zero, List.drop_eq_nil_of_le (by simp; omega), List.append_nil]
  obtain ⟨j, st, hloop, hj, hj', hst⟩ := blockLoop_spec hlen inputLen (64 - rest.length)
    (md5Transform m.state buffer) hp (by omega)
  generalize hi : 64 - rest.length + 64 * j = i at hloop hj hj'
  obtain ⟨buffer', hb', hlist'⟩ := md5Memcpy_spec buffer inbuf 0 i (inputLen - i) (by omega)
    (by omega)
  have hlength : ((inbuf.drop i).take (inputLen - i)).length = inputLen - i := by
    simp
    omega
  refine ⟨⟨st, addCount m.count inputLen, buffer'⟩,
    whole ++ (buffer.toList ++ (inbuf.drop (64 - rest.length)).take (64 * j)),
    (inbuf.drop i).take (inputLen - i), ?_, ⟨?_, ?_, ?_, ?_, ?_⟩, ?_, rfl⟩
  · unfold md5Update
    dsimp only
    rw [h.bufferIndex, if_pos hp, hb]
    simp only [bind, Except.bind]
    rw [hloop]
    simp only
    rw [hb']
    rfl
  · simp
    omega
  · omega
  · rw [hst, words_md5Transform, h.state, Rfc1321.absorb_append _ hblocks,
      Rfc1321.absorb_cons_block _ (by simp)]
  · rw [hlength]
    simp only
    rw [hlist', List.take_zero, List.nil_append, List.take_left' hlength]
  · rw [hlength]
    simp only
    rw [hadd]
    omega
  · have htake : inputLen = 64 - rest.length + 64 * j + (inputLen - i) := by omega
    rw [hfull]
    conv_rhs => rw [htake, List.take_add, List.take_add, hi]
    simp

/-- **`md5Update`** takes in the bytes it is told to read. -/
theorem md5Update_spec {m : MD5} {whole rest : List Byte} (h : Holds m whole rest)
    {inbuf : List Byte} {inputLen : Nat} (hlen : inputLen ≤ inbuf.length) :
    TakesIn m whole rest inbuf inputLen := by
  by_cases hp : 64 - rest.length ≤ inputLen
  · exact takesIn_of_le h hlen hp
  · exact takesIn_of_lt h hlen hp

/-! ## The digest -/

theorem lt_four_cases {k : Nat} (h : k < 4) : k = 0 ∨ k = 1 ∨ k = 2 ∨ k = 3 := by
  omega

/-- A byte of a `long` is a byte of its word. -/
theorem byteOf_eq (w : BitVec 64) {k : Nat} (hk : k < 4) :
    byteOf w k = ⟨(low w >>> (8 * k)).setWidth 8⟩ := by
  have hmask : (0xff : BitVec 64).setWidth 8 = BitVec.allOnes 8 := by decide
  have hbits : (w >>> (8 * k)).setWidth 8 = (low w >>> (8 * k)).setWidth 8 := by
    apply BitVec.eq_of_getLsbD_eq
    intro i hi
    have hin : 8 * k + i < 32 := by omega
    simp [low, hi, hin]
  unfold byteOf
  rw [BitVec.setWidth_and, hmask, BitVec.and_allOnes, hbits]

/-- The bytes of a word. -/
theorem bytes_eq (w : BitVec 64) :
    [byteOf w 0, byteOf w 1, byteOf w 2, byteOf w 3] = Rfc1321.bytesOf (low w) := by
  rw [byteOf_eq w (by omega), byteOf_eq w (by omega), byteOf_eq w (by omega),
    byteOf_eq w (by omega)]
  rfl

/-- **`Encode(digest, state, 16)`**. -/
theorem Encode_state (state : Vector (BitVec 64) 4) :
    Encode state = Rfc1321.output (words state) := by
  have hlist : state.toList = [state[0], state[1], state[2], state[3]] := by
    apply List.ext_getElem
    · simp
    · intro i hi hi'
      obtain rfl | rfl | rfl | rfl := lt_four_cases hi' <;> simp
  unfold Encode Rfc1321.output words
  rw [hlist]
  simp [bytes_eq, regs, Regs.words]

theorem bytesOf_eq (w : Rfc1321.Word) :
    Rfc1321.bytesOf w = (List.range 4).map fun k => UInt8.ofNat (w.toNat >>> (8 * k)) :=
  rfl

/-- **`Encode(bits, count, 8)`** after one update: the number of bits, where `inputLen << 3`
overflows too. -/
theorem Encode_count {n : Nat} (hn : n < 2 ^ 31) :
    Encode (addCount #v[0, 0] n) = Rfc1321.lengthBytes n := by
  have hcount : addCount #v[0, 0] n = #v[(BitVec.ofNat 32 n <<< 3).signExtend 64,
      (BitVec.ofNat 32 n >>> 29).signExtend 64] := by
    have hlt : ((BitVec.ofNat 32 n <<< 3).signExtend 64).slt
        ((BitVec.ofNat 32 n <<< 3).signExtend 64) = false := by
      simp [BitVec.slt]
    simp [addCount, hlt]
  have hlow : (BitVec.ofNat 32 n <<< 3).toNat = 8 * n % 2 ^ 32 := by
    rw [BitVec.toNat_shiftLeft, BitVec.toNat_ofNat, Nat.shiftLeft_eq]
    omega
  have hhigh : (BitVec.ofNat 32 n >>> 29).toNat = n / 2 ^ 29 := by
    rw [BitVec.toNat_ushiftRight, BitVec.toNat_ofNat, Nat.shiftRight_eq_div_pow,
      Nat.mod_eq_of_lt (by omega)]
  have hbyte : ∀ x y : Nat, x % 256 = y % 256 → UInt8.ofNat x = UInt8.ofNat y := by
    intro x y hxy
    apply UInt8.toNat_inj.mp
    rw [UInt8.toNat_ofNat', UInt8.toNat_ofNat']
    exact hxy
  have hsplit : Rfc1321.lengthBytes n =
      (List.range 4).map (fun k => UInt8.ofNat ((8 * n) >>> (8 * k))) ++
        (List.range 4).map (fun k => UInt8.ofNat ((8 * n) >>> (8 * (4 + k)))) := rfl
  have hencode : Encode (addCount #v[0, 0] n) =
      Rfc1321.bytesOf (BitVec.ofNat 32 n <<< 3) ++ Rfc1321.bytesOf (BitVec.ofNat 32 n >>> 29) := by
    rw [hcount]
    simp [Encode, bytes_eq]
  rw [hencode, bytesOf_eq, bytesOf_eq, hlow, hhigh, hsplit]
  congr 1
  · refine List.map_congr_left fun k hk => hbyte _ _ ?_
    obtain rfl | rfl | rfl | rfl := lt_four_cases (List.mem_range.mp hk) <;> omega
  · refine List.map_congr_left fun k hk => hbyte _ _ ?_
    obtain rfl | rfl | rfl | rfl := lt_four_cases (List.mem_range.mp hk) <;> omega

theorem PADDING_take {index : Nat} (length : Nat) (hindex : index = length % 64) :
    PADDING.take (if index < 56 then 56 - index else 120 - index) = Rfc1321.padding length := by
  have hpad : (if index < 56 then 56 - index else 120 - index) = (119 - length % 64) % 64 + 1 := by
    split <;> omega
  have hmin : min ((119 - length % 64) % 64) 63 = (119 - length % 64) % 64 := by omega
  unfold PADDING Rfc1321.padding
  rw [hpad, List.take_succ_cons, List.take_replicate, hmin]

/-- **`md5Final`** takes in the padding and the count, which complete the last block. -/
theorem md5Final_spec {m : MD5} {whole rest : List Byte} (h : Holds m whole rest) :
    md5Final m = .ok (Rfc1321.output (Rfc1321.absorb Rfc1321.init
      (whole ++ rest ++ Rfc1321.padding (whole ++ rest).length ++ Encode m.count))) := by
  have hblocks := h.blocks
  have hpending := h.pending
  have hindex : m.bufferIndex = (whole ++ rest).length % 64 := by
    rw [h.bufferIndex, List.length_append]
    omega
  have hpad : (if m.bufferIndex < 56 then 56 - m.bufferIndex else 120 - m.bufferIndex) ≤
      PADDING.length := by
    have : PADDING.length = 64 := by simp [PADDING]
    split <;> omega
  obtain ⟨m1, whole1, rest1, hok1, h1, happend1, -⟩ := md5Update_spec h hpad
  have hlen8 : 8 ≤ (Encode m.count).length := by rw [length_Encode]
  obtain ⟨m2, whole2, rest2, hok2, h2, happend2, -⟩ := md5Update_spec h1 hlen8
  have hmessage : whole2 ++ rest2 =
      whole ++ rest ++ Rfc1321.padding (whole ++ rest).length ++ Encode m.count := by
    have htake : (Encode m.count).take 8 = Encode m.count :=
      List.take_of_length_le (by rw [length_Encode])
    rw [happend2, happend1, PADDING_take _ hindex, htake]
  -- the message is made of whole blocks now, so nothing is left in the buffer
  have hnil : rest2 = [] := by
    have hmod := Rfc1321.length_padding_mod (whole ++ rest).length
    have hblocks2 := h2.blocks
    have hpending2 := h2.pending
    have hlength := congrArg List.length hmessage
    rw [List.length_append, List.length_append, List.length_append, length_Encode] at hlength
    exact List.eq_nil_of_length_eq_zero (by omega)
  rw [← hmessage, hnil, List.append_nil]
  unfold md5Final
  simp only [hok1, hok2, bind, Except.bind, pure, Except.pure]
  rw [Encode_state, h2.state]

/-- The first update from an empty engine, and the end. -/
theorem digest_of_update {m : MD5} (h : Holds m [] []) (hcount : m.count = #v[0, 0])
    {buf : List Byte} {n : Nat} (hbuf : buf.length < 2 ^ 31) (hn : n ≤ buf.length) :
    ∃ m1 whole rest, md5Update m buf n = .ok m1 ∧ Holds m1 whole rest ∧
      whole ++ rest = buf.take n ∧ Encode m1.count = Rfc1321.lengthBytes n ∧
      md5Final m1 = .ok (Rfc1321.digest (buf.take n)) := by
  obtain ⟨m1, whole, rest, hok, hholds, happend, hcount1⟩ := md5Update_spec h hn
  have htaken : whole ++ rest = buf.take n := happend
  have hlength : (whole ++ rest).length = n := by
    rw [htaken, List.length_take, Nat.min_eq_left hn]
  have hbits : Encode m1.count = Rfc1321.lengthBytes n := by
    rw [hcount1, hcount]
    exact Encode_count (by omega)
  have hdigest : whole ++ rest ++ Rfc1321.padding (whole ++ rest).length ++ Encode m1.count =
      Rfc1321.pad (buf.take n) := by
    unfold Rfc1321.pad
    rw [← htaken, hbits, hlength]
  have hfinal := md5Final_spec hholds
  rw [hdigest] at hfinal
  exact ⟨m1, whole, rest, hok, hholds, htaken, hbits, hfinal⟩

/-- **The engine refines RFC 1321.** From `md5Init` the words agree after every statement and after
every block; an update and the end stay inside their arrays, the state and the buffer hold exactly
the bytes given, the length is right, and the digest is the RFC's. -/
theorem md5_refines (m : MD5) {buf : List Byte} {n : Nat} (hbuf : buf.length < 2 ^ 31)
    (hn : n ≤ buf.length) :
    words (md5Init m).state = Rfc1321.init ∧
    (∀ (state : Vector (BitVec 64) 4) (block : Vector Byte 64) (k : Nat), k ≤ 64 →
      ((rounds.take k).foldl (step (Decode block)) (regs state)).words =
        Rfc1321.operations block.toList (words state) k) ∧
    (∀ (state : Vector (BitVec 64) 4) (block : Vector Byte 64),
      words (md5Transform state block) = Rfc1321.compress (words state) block.toList) ∧
    ∃ m1 whole rest, md5Update (md5Init m) buf n = .ok m1 ∧ Holds m1 whole rest ∧
      whole ++ rest = buf.take n ∧ Encode m1.count = Rfc1321.lengthBytes n ∧
      md5Final m1 = .ok (Rfc1321.digest (buf.take n)) := by
  refine ⟨rfl, ?_, words_md5Transform, digest_of_update (holds_md5Init m) rfl hbuf hn⟩
  intro state block k hk
  exact words_statements block (regs state) hk

/-- The first three bytes of `abcd`. -/
theorem md5_refines_abc : ∃ m1, md5Update (md5Init new) [0x61, 0x62, 0x63, 0x64] 3 = .ok m1 ∧
    md5Final m1 = .ok [0x90, 0x01, 0x50, 0x98, 0x3c, 0xd2, 0x4f, 0xb0, 0xd6, 0x96, 0x3f, 0x7d, 0x28,
      0xe1, 0x7f, 0x72] := by
  have hbuf : ([0x61, 0x62, 0x63, 0x64] : List Byte).length < 2 ^ 31 := by decide
  have hn : 3 ≤ ([0x61, 0x62, 0x63, 0x64] : List Byte).length := by decide
  obtain ⟨-, -, -, m1, -, -, hok, -, -, -, hfinal⟩ := md5_refines new hbuf hn
  have hdigest : Rfc1321.digest (([0x61, 0x62, 0x63, 0x64] : List Byte).take 3) =
      [0x90, 0x01, 0x50, 0x98, 0x3c, 0xd2, 0x4f, 0xb0, 0xd6, 0x96, 0x3f, 0x7d, 0x28, 0xe1, 0x7f,
        0x72] := by
    decide +kernel
  exact ⟨m1, hok, by rw [hfinal, hdigest]⟩

end Terminator.Plugin.MD5
