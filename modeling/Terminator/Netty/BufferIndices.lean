import Terminator.Java.Exec
import Terminator.Java.Text
import Terminator.Run.Invariant

/-!
# The indices of a channel buffer

`AbstractChannelBuffer.java` with the two indices, their marks and every method that moves them, for
any argument: the indices are plain `int`s here, and what the class does not check is not checked.

`Accessors` is what a subclass over a byte array provides. It holds a fixed number of bytes; `get`
and `set` stand for all the accessors of one or more bytes, and throw an `IndexOutOfBoundsException`
outside the capacity. A `set` that throws may have written a part. `slice` makes a
`SlicedChannelBuffer`, whose constructor compares the capacity with an `int` sum: when that
overflows, the slice is made and claims bytes that are not there.

* `Valid`: `0 <= readerIndex <= writerIndex <= capacity`;
* **`always_valid_iff`**: in a run of any methods with any arguments, it holds in every state
  exactly as long as every step is `Harmless`. Four methods can break it: `writeByte` on a full
  buffer, and `writeZero` through it, which moves the index before the write throws;
  `resetWriterIndex` behind the reader; `readSlice` of bytes that were never written, or of so many
  that the sum overflows; and `skipBytes` by a negative number, or by one so large that the sum
  overflows;
* **`run_fifo`**: as long as the calls are `Streams`, what was read and skipped, and what is
  readable, is what was written, in the order it was written.
-/

namespace Terminator.Netty.BufferIndices

open Terminator.Java Terminator.Run

/-- The value of `int` arithmetic. -/
def int32 (z : Int) : Int := z.bmod 4294967296

theorem int32_of_bounds {z : Int} (hlo : -2147483648 ≤ z) (hhi : z < 2147483648) : int32 z = z :=
  Int.bmod_eq_of_le (by omega) (by omega)

theorem int32_of_overflow {z : Int} (hlo : 2147483648 ≤ z) (hhi : z < 6442450944) :
    int32 z = z - 4294967296 := by
  rw [int32, ← Int.add_neg_bmod_self]
  exact Int.bmod_eq_of_le (by omega) (by omega)

/-- What a subclass provides; `bytes` is what it holds. -/
structure Accessors (β : Type) where
  bytes : β → List Byte
  get : β → Int → Int → Except Throwable (List Byte)
  set : β → Int → List Byte → Except Throwable Unit × β
  slice : β → Int → Int → Except Throwable (List Byte)
  capacity_lt : ∀ b, ((bytes b).length : Int) < 2147483648
  get_ok : ∀ (b : β) (i n : Int), 0 ≤ i → 0 ≤ n → i + n ≤ (bytes b).length →
    get b i n = .ok (((bytes b).drop i.toNat).take n.toNat)
  get_error : ∀ (b : β) (i n : Int), ¬ (0 ≤ i ∧ 0 ≤ n ∧ i + n ≤ (bytes b).length) →
    get b i n = .error .indexOutOfBounds
  set_ok : ∀ (b : β) (i : Int) (bs : List Byte), 0 ≤ i → i + bs.length ≤ (bytes b).length →
    ∃ b', set b i bs = (.ok (), b') ∧
      bytes b' = (bytes b).take i.toNat ++ bs ++ (bytes b).drop (i.toNat + bs.length)
  set_error : ∀ (b : β) (i : Int) (bs : List Byte), ¬ (0 ≤ i ∧ i + bs.length ≤ (bytes b).length) →
    ∃ b', set b i bs = (.error .indexOutOfBounds, b') ∧
      (bytes b').length = (bytes b).length ∧ (bytes b').take i.toNat = (bytes b).take i.toNat
  slice_ok : ∀ (b : β) (i n : Int), 0 ≤ i → 0 ≤ n → i + n ≤ (bytes b).length →
    slice b i n = .ok (((bytes b).drop i.toNat).take n.toNat)
  slice_overflow : ∀ (b : β) (i n : Int), 0 ≤ i → i ≤ (bytes b).length → 0 ≤ n →
    (bytes b).length < i + n → int32 (i + n) ≤ (bytes b).length → ∃ bs, slice b i n = .ok bs
  slice_error : ∀ (b : β) (i n : Int), 0 ≤ i → i ≤ (bytes b).length →
    n < 0 ∨ (bytes b).length < int32 (i + n) → slice b i n = .error .indexOutOfBounds

/-- The accessors of a buffer over a byte array, as a heap buffer has them. -/
def arrayAccessors : Accessors { bs : List Byte // (bs.length : Int) < 2147483648 } where
  bytes array := array.val
  get array i n :=
    if 0 ≤ i ∧ 0 ≤ n ∧ i + n ≤ array.val.length then .ok ((array.val.drop i.toNat).take n.toNat)
    else .error .indexOutOfBounds
  set array i bs :=
    if h : 0 ≤ i ∧ i + bs.length ≤ array.val.length then
      (.ok (), ⟨array.val.take i.toNat ++ bs ++ array.val.drop (i.toNat + bs.length), by
        have hlt := array.property
        simp
        omega⟩)
    else (.error .indexOutOfBounds, array)
  slice array i n :=
    if 0 ≤ n ∧ int32 (i + n) ≤ array.val.length then .ok ((array.val.drop i.toNat).take n.toNat)
    else .error .indexOutOfBounds
  capacity_lt array := array.property
  get_ok _ _ _ hi hn hle := if_pos ⟨hi, hn, hle⟩
  get_error _ _ _ hout := if_neg hout
  set_ok _ _ _ hi hle := ⟨_, dif_pos ⟨hi, hle⟩, rfl⟩
  set_error array _ _ hout := ⟨array, dif_neg hout, rfl, rfl⟩
  slice_ok array i n hi hn hle := by
    have hlt := array.property
    rw [int32_of_bounds (by omega) (by omega), if_pos ⟨hn, hle⟩]
  slice_overflow _ _ _ _ _ hn _ hle := ⟨_, if_pos ⟨hn, hle⟩⟩
  slice_error _ _ _ _ _ hout := if_neg (by omega)

/-- `AbstractChannelBuffer`. -/
structure Buffer (β : Type) where
  store : β
  readerIndex : Int
  writerIndex : Int
  markedReaderIndex : Int
  markedWriterIndex : Int

/-- A buffer as the constructor leaves it. -/
def Buffer.new {β : Type} (store : β) : Buffer β := ⟨store, 0, 0, 0, 0⟩

section Methods

variable {β : Type} (A : Accessors β)

/-- `capacity()`. -/
def capacity (b : Buffer β) : Int := (A.bytes b.store).length

/-- `readableBytes()` and `writableBytes()`. -/
def readableBytes (b : Buffer β) : Int := int32 (b.writerIndex - b.readerIndex)

def writableBytes (b : Buffer β) : Int := int32 (capacity A b - b.writerIndex)

/-- `readerIndex(readerIndex)`. -/
def setReaderIndex (readerIndex : Int) : Method (Buffer β) Unit := fun b =>
  if readerIndex < 0 ∨ readerIndex > b.writerIndex then .error .indexOutOfBounds b
  else .ok () { b with readerIndex := readerIndex }

/-- `writerIndex(writerIndex)`. -/
def setWriterIndex (writerIndex : Int) : Method (Buffer β) Unit := fun b =>
  if writerIndex < b.readerIndex ∨ writerIndex > capacity A b then .error .indexOutOfBounds b
  else .ok () { b with writerIndex := writerIndex }

/-- `setIndex(readerIndex, writerIndex)`. -/
def setIndex (readerIndex writerIndex : Int) : Method (Buffer β) Unit := fun b =>
  if readerIndex < 0 ∨ readerIndex > writerIndex ∨ writerIndex > capacity A b then
    .error .indexOutOfBounds b
  else .ok () { b with readerIndex := readerIndex, writerIndex := writerIndex }

/-- `clear()`. -/
def clear : Method (Buffer β) Unit := fun b => .ok () { b with readerIndex := 0, writerIndex := 0 }

def markReaderIndex : Method (Buffer β) Unit := fun b =>
  .ok () { b with markedReaderIndex := b.readerIndex }

def resetReaderIndex : Method (Buffer β) Unit := fun b => setReaderIndex b.markedReaderIndex b

def markWriterIndex : Method (Buffer β) Unit := fun b =>
  .ok () { b with markedWriterIndex := b.writerIndex }

/-- `resetWriterIndex()`, which assigns the index without a check. -/
def resetWriterIndex : Method (Buffer β) Unit := fun b =>
  .ok () { b with writerIndex := b.markedWriterIndex }

/-- `discardReadBytes()`. -/
def discardReadBytes : Method (Buffer β) Unit := fun b =>
  if b.readerIndex = 0 then .ok () b
  else
    match A.get b.store b.readerIndex (int32 (b.writerIndex - b.readerIndex)) with
    | .error e => .error e b
    | .ok bs =>
      match A.set b.store 0 bs with
      | (.error e, store) => .error e { b with store := store }
      | (.ok _, store) => .ok ()
        { store := store
          readerIndex := 0
          writerIndex := int32 (b.writerIndex - b.readerIndex)
          markedReaderIndex := max (int32 (b.markedReaderIndex - b.readerIndex)) 0
          markedWriterIndex := max (int32 (b.markedWriterIndex - b.readerIndex)) 0 }

/-- `ensureWritableBytes(writableBytes)`. -/
def ensureWritableBytes (n : Int) : Method (Buffer β) Unit := fun b =>
  if n > writableBytes A b then .error .indexOutOfBounds b else .ok () b

/-- `readByte()`. -/
def readByte : Method (Buffer β) (List Byte) := fun b =>
  if b.readerIndex = b.writerIndex then .error .indexOutOfBounds b
  else
    let b' := { b with readerIndex := int32 (b.readerIndex + 1) }
    match A.get b.store b.readerIndex 1 with
    | .error e => .error e b'
    | .ok bs => .ok bs b'

/-- `readShort()`, `readUnsignedMedium()`, `readInt()`, `readLong()` and `readBytes(dst, dstIndex,
length)`, all by their number of bytes: `checkReadableBytes`, a `get`, and then the index. -/
def readBytes (length : Int) : Method (Buffer β) (List Byte) := fun b =>
  if readableBytes b < length then .error .indexOutOfBounds b
  else
    match A.get b.store b.readerIndex length with
    | .error e => .error e b
    | .ok bs => .ok bs { b with readerIndex := int32 (b.readerIndex + length) }

/-- `readSlice(length)`, which checks the capacity only, and leaves it to `slice`. -/
def readSlice (length : Int) : Method (Buffer β) (List Byte) := fun b =>
  match A.slice b.store b.readerIndex length with
  | .error e => .error e b
  | .ok bs => .ok bs { b with readerIndex := int32 (b.readerIndex + length) }

/-- `skipBytes(length)`. -/
def skipBytes (length : Int) : Method (Buffer β) Unit := fun b =>
  let newReaderIndex := int32 (b.readerIndex + length)
  if newReaderIndex > b.writerIndex then .error .indexOutOfBounds b
  else .ok () { b with readerIndex := newReaderIndex }

/-- `writeByte(value)`: the index moves before the byte is set. -/
def writeByte (value : Byte) : Method (Buffer β) Unit := fun b =>
  let r := A.set b.store b.writerIndex [value]
  let b' := { b with store := r.2, writerIndex := int32 (b.writerIndex + 1) }
  match r.1 with
  | .error e => .error e b'
  | .ok _ => .ok () b'

/-- `writeShort(value)`, `writeMedium(value)`, `writeInt(value)`, `writeLong(value)` and the
`writeBytes` methods, all by the bytes they write: a `set`, and then the index. -/
def writeBytes (bs : List Byte) : Method (Buffer β) Unit := fun b =>
  let r := A.set b.store b.writerIndex bs
  match r.1 with
  | .error e => .error e { b with store := r.2 }
  | .ok _ => .ok () { b with store := r.2, writerIndex := int32 (b.writerIndex + bs.length) }

/-- A loop that calls a method `n` times. -/
def times (n : Nat) (m : Method (Buffer β) Unit) : Method (Buffer β) Unit :=
  match n with
  | 0 => pure ()
  | n + 1 => m >>= fun _ => times n m

/-- `writeLong(0)` and `writeInt(0)`. -/
def writeLong0 : Method (Buffer β) Unit := writeBytes A (List.replicate 8 0)

def writeInt0 : Method (Buffer β) Unit := writeBytes A (List.replicate 4 0)

/-- The end of `writeZero`, of fewer than eight bytes. -/
def writeRest (nBytes : Nat) : Method (Buffer β) Unit :=
  if nBytes = 4 then writeInt0 A
  else if nBytes < 4 then times nBytes (writeByte A 0)
  else writeInt0 A >>= fun _ => times (nBytes - 4) (writeByte A 0)

/-- `writeZero(length)`: eight bytes at a time, then four, then one. -/
def writeZero (length : Int) : Method (Buffer β) Unit := fun b =>
  if length = 0 then .ok () b
  else if length < 0 then .error .illegalArgument b
  else (times (length.toNat / 8) (writeLong0 A) >>= fun _ => writeRest A (length.toNat % 8)) b

end Methods

/-! ## What should hold -/

/-- A call, with what it reads or writes left to the method. -/
inductive Call where
  | setReaderIndex (i : Int)
  | setWriterIndex (i : Int)
  | setIndex (i j : Int)
  | clear
  | markReaderIndex
  | resetReaderIndex
  | markWriterIndex
  | resetWriterIndex
  | discardReadBytes
  | ensureWritableBytes (n : Int)
  | readByte
  | readBytes (length : Int)
  | readSlice (length : Int)
  | skipBytes (length : Int)
  | writeByte (value : Byte)
  | writeBytes (bs : List Byte)
  | writeZero (length : Int)

section Runs

variable {β : Type} (A : Accessors β)

/-- A call; what it returns are the bytes it read. -/
def Call.exec : Call → Method (Buffer β) (List Byte)
  | .setReaderIndex i => BufferIndices.setReaderIndex i >>= fun _ => pure []
  | .setWriterIndex i => BufferIndices.setWriterIndex A i >>= fun _ => pure []
  | .setIndex i j => BufferIndices.setIndex A i j >>= fun _ => pure []
  | .clear => BufferIndices.clear >>= fun _ => pure []
  | .markReaderIndex => BufferIndices.markReaderIndex >>= fun _ => pure []
  | .resetReaderIndex => BufferIndices.resetReaderIndex >>= fun _ => pure []
  | .markWriterIndex => BufferIndices.markWriterIndex >>= fun _ => pure []
  | .resetWriterIndex => BufferIndices.resetWriterIndex >>= fun _ => pure []
  | .discardReadBytes => BufferIndices.discardReadBytes A >>= fun _ => pure []
  | .ensureWritableBytes n => BufferIndices.ensureWritableBytes A n >>= fun _ => pure []
  | .readByte => BufferIndices.readByte A
  | .readBytes length => BufferIndices.readBytes A length
  | .readSlice length => BufferIndices.readSlice A length
  | .skipBytes length => BufferIndices.skipBytes length >>= fun _ => pure []
  | .writeByte value => BufferIndices.writeByte A value >>= fun _ => pure []
  | .writeBytes bs => BufferIndices.writeBytes A bs >>= fun _ => pure []
  | .writeZero length => BufferIndices.writeZero A length >>= fun _ => pure []

/-- The buffer after a call, however it ends. -/
def step (c : Call) (b : Buffer β) : Buffer β := after ((c.exec A).run b)

/-- The indices are in order. -/
def Valid (b : Buffer β) : Prop :=
  0 ≤ b.readerIndex ∧ b.readerIndex ≤ b.writerIndex ∧ b.writerIndex ≤ capacity A b

/-- What a call must not do, in a buffer whose indices are in order. -/
def Harmless : Call → Buffer β → Prop
  | .resetWriterIndex, b => b.readerIndex ≤ b.markedWriterIndex
  | .readSlice length, b => 0 ≤ length → int32 (b.readerIndex + length) ≤ capacity A b →
      0 ≤ int32 (b.readerIndex + length) ∧ int32 (b.readerIndex + length) ≤ b.writerIndex
  | .skipBytes length, b => 0 ≤ int32 (b.readerIndex + length)
  | .writeByte _, b => b.writerIndex < capacity A b
  | .writeZero length, b => 0 < length → capacity A b < b.writerIndex + length →
      capacity A b < b.writerIndex + (length / 4) * 4
  | _, _ => True

/-- The bytes in front of the writer index. -/
def written (b : Buffer β) : List Byte := (A.bytes b.store).take b.writerIndex.toNat

/-- The readable bytes. -/
def content (b : Buffer β) : List Byte := (written A b).drop b.readerIndex.toNat

/-! ## Writing -/

/-- `b'` is `b` with some bytes written. -/
structure Wrote (b b' : Buffer β) (bs : List Byte) : Prop where
  reader : b'.readerIndex = b.readerIndex
  markedReader : b'.markedReaderIndex = b.markedReaderIndex
  markedWriter : b'.markedWriterIndex = b.markedWriterIndex
  size : capacity A b' = capacity A b
  writer : b'.writerIndex = b.writerIndex + bs.length
  stored : written A b' = written A b ++ bs

variable {A} {b b' b'' : Buffer β} {bs bs' : List Byte}

theorem capacity_lt (b : Buffer β) : capacity A b < 2147483648 := A.capacity_lt b.store

theorem Wrote.refl (b : Buffer β) : Wrote A b b [] :=
  ⟨rfl, rfl, rfl, rfl, by simp, by simp⟩

theorem Wrote.trans (h : Wrote A b b' bs) (h' : Wrote A b' b'' bs') :
    Wrote A b b'' (bs ++ bs') := by
  refine ⟨h'.reader.trans h.reader, h'.markedReader.trans h.markedReader,
    h'.markedWriter.trans h.markedWriter, h'.size.trans h.size, ?_, ?_⟩
  · rw [h'.writer, h.writer, List.length_append]
    omega
  · rw [h'.stored, h.stored, List.append_assoc]

theorem Wrote.valid (h : Wrote A b b' bs) (hb : Valid A b)
    (hfit : b.writerIndex + bs.length ≤ capacity A b) : Valid A b' := by
  obtain ⟨h0, hrw, -⟩ := hb
  rw [Valid, h.reader, h.writer, h.size]
  omega

/-- A `set` at the writer index that fits. -/
theorem set_of_fits (hb : Valid A b) (hfit : b.writerIndex + bs.length ≤ capacity A b) :
    ∃ store, A.set b.store b.writerIndex bs = (.ok (), store) ∧
      Wrote A b { b with store := store, writerIndex := b.writerIndex + bs.length } bs := by
  obtain ⟨h0, hrw, hw⟩ := hb
  obtain ⟨store, hset, hbytes⟩ := A.set_ok b.store b.writerIndex bs (by omega) hfit
  unfold capacity at hfit
  have hlen : (A.bytes b.store).length = b.writerIndex.toNat + bs.length +
      ((A.bytes b.store).length - (b.writerIndex.toNat + bs.length)) := by omega
  refine ⟨store, hset, rfl, rfl, rfl, ?_, rfl, ?_⟩
  · rw [capacity, capacity]
    dsimp only
    rw [hbytes]
    simp
    omega
  · have htake : (b.writerIndex + bs.length).toNat =
        ((A.bytes b.store).take b.writerIndex.toNat ++ bs).length := by
      simp
      omega
    rw [written]
    dsimp only
    rw [hbytes, htake, List.take_left]
    rfl

/-- A `set` at the writer index that does not fit. -/
theorem set_of_full (hfull : capacity A b < b.writerIndex + bs.length) :
    ∃ store, A.set b.store b.writerIndex bs = (.error .indexOutOfBounds, store) ∧
      Wrote A b { b with store := store } [] := by
  obtain ⟨store, hset, hlen, htake⟩ := A.set_error b.store b.writerIndex bs (by
    rintro ⟨-, hle⟩
    exact absurd hfull (Int.not_lt.mpr hle))
  refine ⟨store, hset, rfl, rfl, rfl, ?_, by simp, ?_⟩
  · rw [capacity, capacity]
    dsimp only
    rw [hlen]
  · rw [List.append_nil]
    exact htake

theorem writeBytes_of_fits (hb : Valid A b) (bs : List Byte)
    (hfit : b.writerIndex + bs.length ≤ capacity A b) :
    ∃ b', (writeBytes A bs).run b = .ok () b' ∧ Wrote A b b' bs := by
  obtain ⟨store, hset, hwrote⟩ := set_of_fits hb hfit
  have hcap := capacity_lt (A := A) b
  have hint : int32 (b.writerIndex + bs.length) = b.writerIndex + bs.length :=
    int32_of_bounds (by have := hb.1; have := hb.2.1; omega) (by omega)
  refine ⟨_, ?_, hwrote⟩
  change writeBytes A bs b = _
  rw [writeBytes]
  simp only [hset, hint]

theorem writeBytes_of_full (bs : List Byte) (hfull : capacity A b < b.writerIndex + bs.length) :
    ∃ b', (writeBytes A bs).run b = .error .indexOutOfBounds b' ∧ Wrote A b b' [] := by
  obtain ⟨store, hset, hwrote⟩ := set_of_full hfull
  refine ⟨_, ?_, hwrote⟩
  change writeBytes A bs b = _
  rw [writeBytes]
  simp only [hset]

theorem writeByte_of_fits (hb : Valid A b) (value : Byte)
    (hfit : b.writerIndex + ([value] : List Byte).length ≤ capacity A b) :
    ∃ b', (writeByte A value).run b = .ok () b' ∧ Wrote A b b' [value] := by
  obtain ⟨store, hset, hwrote⟩ := set_of_fits hb hfit
  have hcap := capacity_lt (A := A) b
  have hint : int32 (b.writerIndex + 1) = b.writerIndex + 1 :=
    int32_of_bounds (by have := hb.1; have := hb.2.1; omega) (by simp at hfit; omega)
  refine ⟨_, ?_, hwrote⟩
  change writeByte A value b = _
  rw [writeByte]
  simp only [hset, hint]
  rfl

/-- **The slip of `writeByte`**: on a full buffer it throws, and has moved the index. -/
theorem writeByte_of_full (value : Byte)
    (hfull : capacity A b < b.writerIndex + ([value] : List Byte).length) :
    ∃ b', (writeByte A value).run b = .error .indexOutOfBounds b' ∧
      b'.readerIndex = b.readerIndex ∧ capacity A b' = capacity A b ∧
      b'.writerIndex = int32 (b.writerIndex + 1) := by
  obtain ⟨store, hset, hwrote⟩ := set_of_full hfull
  refine ⟨{ b with store := store, writerIndex := int32 (b.writerIndex + 1) }, ?_, rfl,
    hwrote.size, rfl⟩
  change writeByte A value b = _
  rw [writeByte]
  simp only [hset]

/-! ## Loops that write -/

/-- A loop of a method that writes `bs` when it fits. -/
theorem times_of_fits {m : Method (Buffer β) Unit}
    (hm : ∀ b : Buffer β, Valid A b → b.writerIndex + bs.length ≤ capacity A b →
      ∃ b', m.run b = .ok () b' ∧ Wrote A b b' bs) (n : Nat) (hb : Valid A b)
    (hfit : b.writerIndex + n * bs.length ≤ capacity A b) :
    ∃ b', (times n m).run b = .ok () b' ∧ Wrote A b b' (List.replicate n bs).flatten := by
  induction n generalizing b with
  | zero => exact ⟨b, rfl, Wrote.refl b⟩
  | succ n ih =>
    have hsplit : ((n + 1 : Nat) : Int) * bs.length = bs.length + n * bs.length := by
      push_cast
      rw [Int.add_mul, Int.one_mul, Int.add_comm]
    rw [hsplit] at hfit
    have hn : 0 ≤ (n : Int) * bs.length := Int.mul_nonneg (by omega) (by omega)
    obtain ⟨b1, hrun1, hwrote1⟩ := hm b hb (by omega)
    obtain ⟨b2, hrun2, hwrote2⟩ := ih (hwrote1.valid hb (by omega)) (by
      rw [hwrote1.writer, hwrote1.size]
      omega)
    refine ⟨b2, ?_, ?_⟩
    · rw [times, run_bind_of_ok hrun1, hrun2]
    · rw [List.replicate_succ, List.flatten_cons]
      exact hwrote1.trans hwrote2

/-- A loop of a method that writes `bs` or nothing: it stops in front of the end. -/
theorem times_of_full {m : Method (Buffer β) Unit}
    (hm : ∀ b : Buffer β, Valid A b → b.writerIndex + bs.length ≤ capacity A b →
      ∃ b', m.run b = .ok () b' ∧ Wrote A b b' bs)
    (hfull : ∀ b : Buffer β, capacity A b < b.writerIndex + bs.length →
      ∃ b', m.run b = .error .indexOutOfBounds b' ∧ Wrote A b b' []) (n : Nat) (hb : Valid A b)
    (hn : capacity A b < b.writerIndex + n * bs.length) :
    ∃ b' bs', (times n m).run b = .error .indexOutOfBounds b' ∧ Wrote A b b' bs' ∧ Valid A b' := by
  induction n generalizing b with
  | zero =>
    have := hb.2.2
    simp at hn
    omega
  | succ n ih =>
    have hsplit : ((n + 1 : Nat) : Int) * bs.length = bs.length + n * bs.length := by
      push_cast
      rw [Int.add_mul, Int.one_mul, Int.add_comm]
    rw [hsplit] at hn
    by_cases hfit : b.writerIndex + bs.length ≤ capacity A b
    · obtain ⟨b1, hrun1, hwrote1⟩ := hm b hb hfit
      obtain ⟨b2, bs2, hrun2, hwrote2, hvalid2⟩ := ih (hwrote1.valid hb hfit) (by
        rw [hwrote1.writer, hwrote1.size]
        omega)
      exact ⟨b2, _, by rw [times, run_bind_of_ok hrun1, hrun2], hwrote1.trans hwrote2, hvalid2⟩
    · obtain ⟨b1, hrun1, hwrote1⟩ := hfull b (by omega)
      exact ⟨b1, [], by rw [times, run_bind_of_error hrun1], hwrote1,
        hwrote1.valid hb (by simpa using hb.2.2)⟩

/-- The loop over `writeByte` runs over the end. -/
theorem times_writeByte_of_full (value : Byte) (n : Nat) (hb : Valid A b)
    (hn : capacity A b < b.writerIndex + n) :
    ∃ b', (times n (writeByte A value)).run b = .error .indexOutOfBounds b' ∧
      b'.readerIndex = b.readerIndex ∧ capacity A b' = capacity A b ∧
      b'.writerIndex = int32 (capacity A b + 1) := by
  induction n generalizing b with
  | zero =>
    have := hb.2.2
    simp at hn
    omega
  | succ n ih =>
    by_cases hfit : b.writerIndex + ([value] : List Byte).length ≤ capacity A b
    · obtain ⟨b1, hrun1, hwrote1⟩ := writeByte_of_fits hb value hfit
      obtain ⟨b2, hrun2, hr, hcap, hw⟩ := ih (hwrote1.valid hb hfit) (by
        rw [hwrote1.writer, hwrote1.size]
        push_cast at hn
        simp
        omega)
      refine ⟨b2, by rw [times, run_bind_of_ok hrun1, hrun2], hr.trans hwrote1.reader,
        hcap.trans hwrote1.size, ?_⟩
      rw [hw, hwrote1.size]
    · obtain ⟨b1, hrun1, hr, hcap, hw⟩ := writeByte_of_full value (Int.not_le.mp hfit)
      refine ⟨b1, by rw [times, run_bind_of_error hrun1], hr, hcap, ?_⟩
      have : b.writerIndex = capacity A b := by
        have := hb.2.2
        simp at hfit
        omega
      rw [hw, this]

/-! ## `writeZero` -/

theorem writeRest_of_fits {n : Nat} (hn : n < 8) (hb : Valid A b)
    (hfit : b.writerIndex + n ≤ capacity A b) :
    ∃ b', (writeRest A n).run b = .ok () b' ∧ Wrote A b b' (List.replicate n 0) := by
  have hbytes : ∀ (k : Nat) (b : Buffer β), Valid A b → b.writerIndex + k ≤ capacity A b →
      ∃ b', (times k (writeByte A 0)).run b = .ok () b' ∧ Wrote A b b' (List.replicate k 0) := by
    intro k b hb hk
    obtain ⟨b', hrun, hwrote⟩ := times_of_fits (fun b hb hfit => writeByte_of_fits hb 0 hfit) k hb
      (by simpa using hk)
    refine ⟨b', hrun, ?_⟩
    have hflat : (List.replicate k ([0] : List Byte)).flatten = List.replicate k 0 := by
      rw [← List.replicate_one, List.flatten_replicate_replicate, Nat.mul_one]
    rwa [hflat] at hwrote
  rw [writeRest]
  by_cases h4 : n = 4
  · subst h4
    rw [if_pos rfl]
    exact writeBytes_of_fits hb _ (by simpa using hfit)
  · rw [if_neg h4]
    by_cases hlt : n < 4
    · rw [if_pos hlt]
      exact hbytes n b hb hfit
    · rw [if_neg hlt]
      obtain ⟨b1, hrun1, hwrote1⟩ := writeBytes_of_fits hb (List.replicate 4 0) (by
        rw [List.length_replicate]
        omega)
      have hw1 : b1.writerIndex = b.writerIndex + 4 := by simpa using hwrote1.writer
      obtain ⟨b2, hrun2, hwrote2⟩ := hbytes (n - 4) b1 (hwrote1.valid hb (by
        rw [List.length_replicate]
        omega)) (by
        rw [hw1, hwrote1.size]
        omega)
      refine ⟨b2, (run_bind_of_ok hrun1).trans hrun2, ?_⟩
      have hsum : List.replicate n (0 : Byte) = List.replicate 4 0 ++ List.replicate (n - 4) 0 := by
        rw [← List.replicate_add]
        congr 1
        omega
      rw [hsum]
      exact hwrote1.trans hwrote2

/-- The four bytes do not fit. -/
theorem writeRest_of_full_early {n : Nat} (h4 : 4 ≤ n)
    (hfull : capacity A b < b.writerIndex + 4) :
    ∃ b', (writeRest A n).run b = .error .indexOutOfBounds b' ∧ Wrote A b b' [] := by
  obtain ⟨b1, hrun1, hwrote1⟩ := writeBytes_of_full (List.replicate 4 0) (by simpa using hfull)
  refine ⟨b1, ?_, hwrote1⟩
  rw [writeRest]
  by_cases he : n = 4
  · rw [if_pos he]
    exact hrun1
  · rw [if_neg he, if_neg (Nat.not_lt.mpr h4)]
    exact run_bind_of_error hrun1

/-- The four bytes fit, or there are none, and one of the last bytes does not. -/
theorem writeRest_of_full_late {n : Nat} (hn : n < 8) (hb : Valid A b)
    (hfit : b.writerIndex + (n / 4 * 4 : Nat) ≤ capacity A b)
    (hfull : capacity A b < b.writerIndex + n) :
    ∃ b', (writeRest A n).run b = .error .indexOutOfBounds b' ∧
      b'.readerIndex = b.readerIndex ∧ capacity A b' = capacity A b ∧
      b'.writerIndex = int32 (capacity A b + 1) := by
  rw [writeRest]
  have h4 : n ≠ 4 := by
    rintro rfl
    simp at hfit
    omega
  rw [if_neg h4]
  by_cases hlt : n < 4
  · rw [if_pos hlt]
    exact times_writeByte_of_full 0 n hb hfull
  · rw [if_neg hlt]
    have hdiv : n / 4 * 4 = 4 := by omega
    rw [hdiv] at hfit
    obtain ⟨b1, hrun1, hwrote1⟩ := writeBytes_of_fits hb (List.replicate 4 0) (by
      rw [List.length_replicate]
      exact hfit)
    have hw1 : b1.writerIndex = b.writerIndex + 4 := by simpa using hwrote1.writer
    obtain ⟨b2, hrun2, hr, hcap, hw⟩ := times_writeByte_of_full 0 (n - 4)
      (hwrote1.valid hb (by
        rw [List.length_replicate]
        exact hfit)) (by
        rw [hw1, hwrote1.size]
        omega)
    refine ⟨b2, (run_bind_of_ok hrun1).trans hrun2, hr.trans hwrote1.reader,
      hcap.trans hwrote1.size, ?_⟩
    rw [hw, hwrote1.size]

theorem run_writeZero {length : Int} (hpos : 0 < length) (b : Buffer β) :
    (writeZero A length).run b =
      (times (length.toNat / 8) (writeLong0 A) >>= fun _ =>
        writeRest A (length.toNat % 8)).run b := by
  change writeZero A length b = _
  rw [writeZero, if_neg (by omega), if_neg (by omega)]
  rfl

theorem longs_of_fits {n : Nat} (hb : Valid A b) (hfit : b.writerIndex + 8 * n ≤ capacity A b) :
    ∃ b', (times n (writeLong0 A)).run b = .ok () b' ∧ Wrote A b b' (List.replicate (8 * n) 0) := by
  obtain ⟨b', hrun, hwrote⟩ := times_of_fits
    (fun b hb hfit => writeBytes_of_fits hb (List.replicate 8 0) hfit) n hb (by
      rw [List.length_replicate]
      omega)
  rw [List.flatten_replicate_replicate, Nat.mul_comm] at hwrote
  exact ⟨b', hrun, hwrote⟩

/-- **`writeZero` writes as many zeros as it is asked for**, when they fit. -/
theorem writeZero_of_fits {length : Int} (hpos : 0 ≤ length) (hb : Valid A b)
    (hfit : b.writerIndex + length ≤ capacity A b) :
    ∃ b', (writeZero A length).run b = .ok () b' ∧
      Wrote A b b' (List.replicate length.toNat 0) := by
  rcases Int.lt_or_eq_of_le hpos with hpos | rfl
  · rw [run_writeZero hpos]
    obtain ⟨b1, hrun1, hwrote1⟩ := longs_of_fits (A := A) (n := length.toNat / 8) hb (by omega)
    have hw1 := hwrote1.writer
    rw [List.length_replicate] at hw1
    obtain ⟨b2, hrun2, hwrote2⟩ := writeRest_of_fits (n := length.toNat % 8)
      (Nat.mod_lt _ (by decide)) (hwrote1.valid hb (by
        rw [List.length_replicate]
        omega)) (by
        rw [hw1, hwrote1.size]
        omega)
    refine ⟨b2, (run_bind_of_ok hrun1).trans hrun2, ?_⟩
    have hsum : List.replicate length.toNat (0 : Byte) =
        List.replicate (8 * (length.toNat / 8)) 0 ++ List.replicate (length.toNat % 8) 0 := by
      rw [← List.replicate_add, Nat.div_add_mod]
    rw [hsum]
    exact hwrote1.trans hwrote2
  · exact ⟨b, rfl, Wrote.refl b⟩

/-- It throws at a long or at the int: the indices stay in order. -/
theorem writeZero_of_full_early {length : Int} (hpos : 0 < length) (hb : Valid A b)
    (hfull : capacity A b < b.writerIndex + length / 4 * 4) :
    ∃ b' bs', (writeZero A length).run b = .error .indexOutOfBounds b' ∧ Wrote A b b' bs' ∧
      Valid A b' := by
  rw [run_writeZero hpos]
  by_cases hfit : b.writerIndex + 8 * (length.toNat / 8 : Nat) ≤ capacity A b
  · obtain ⟨b1, hrun1, hwrote1⟩ := longs_of_fits (A := A) hb hfit
    have hw1 := hwrote1.writer
    rw [List.length_replicate] at hw1
    have hvalid1 := hwrote1.valid hb (by
      rw [List.length_replicate]
      omega)
    obtain ⟨b2, hrun2, hwrote2⟩ := writeRest_of_full_early (n := length.toNat % 8) (by omega)
      (by
        rw [hw1, hwrote1.size]
        omega)
    exact ⟨b2, _, (run_bind_of_ok hrun1).trans hrun2, hwrote1.trans hwrote2,
      hwrote2.valid hvalid1 (by simpa using hvalid1.2.2)⟩
  · obtain ⟨b1, bs1, hrun1, hwrote1, hvalid1⟩ := times_of_full
      (fun b hb hfit => writeBytes_of_fits hb (List.replicate 8 0) hfit)
      (fun b hfull => writeBytes_of_full (List.replicate 8 0) hfull) (length.toNat / 8) hb (by
        rw [List.length_replicate]
        omega)
    exact ⟨b1, bs1, run_bind_of_error hrun1, hwrote1, hvalid1⟩

/-- It throws at one of the last bytes, and has moved the index over the end. -/
theorem writeZero_of_full_late {length : Int} (hpos : 0 < length) (hb : Valid A b)
    (hfit : b.writerIndex + length / 4 * 4 ≤ capacity A b)
    (hfull : capacity A b < b.writerIndex + length) :
    ∃ b', (writeZero A length).run b = .error .indexOutOfBounds b' ∧
      b'.readerIndex = b.readerIndex ∧ capacity A b' = capacity A b ∧
      b'.writerIndex = int32 (capacity A b + 1) := by
  rw [run_writeZero hpos]
  obtain ⟨b1, hrun1, hwrote1⟩ := longs_of_fits (A := A) (n := length.toNat / 8) hb (by omega)
  have hw1 := hwrote1.writer
  rw [List.length_replicate] at hw1
  obtain ⟨b2, hrun2, hr, hcap, hw⟩ := writeRest_of_full_late (n := length.toNat % 8)
    (Nat.mod_lt _ (by decide)) (hwrote1.valid hb (by
      rw [List.length_replicate]
      omega)) (by
      rw [hw1, hwrote1.size]
      omega) (by
      rw [hw1, hwrote1.size]
      omega)
  refine ⟨b2, (run_bind_of_ok hrun1).trans hrun2, hr.trans hwrote1.reader,
    hcap.trans hwrote1.size, ?_⟩
  rw [hw, hwrote1.size]

/-! ## Reading -/

/-- A `get` of readable bytes. -/
theorem get_of_le (hb : Valid A b) {n : Int} (hn : 0 ≤ n)
    (hle : b.readerIndex + n ≤ b.writerIndex) :
    A.get b.store b.readerIndex n = .ok ((content A b).take n.toNat) := by
  obtain ⟨h0, hrw, hw⟩ := hb
  rw [A.get_ok b.store b.readerIndex n h0 hn (Int.le_trans hle hw), content, written,
    List.drop_take, List.take_take, Nat.min_eq_left (by omega)]

theorem int32_advance (hb : Valid A b) {n : Int} (hn : 0 ≤ n)
    (hle : b.readerIndex + n ≤ capacity A b) :
    int32 (b.readerIndex + n) = b.readerIndex + n := by
  have hcap := capacity_lt (A := A) b
  have h0 := hb.1
  exact int32_of_bounds (by omega) (by omega)

theorem readableBytes_eq (hb : Valid A b) : readableBytes b = b.writerIndex - b.readerIndex := by
  have hcap := capacity_lt (A := A) b
  obtain ⟨h0, hrw, hw⟩ := hb
  exact int32_of_bounds (by omega) (by omega)

/-- A buffer whose reader has taken `n` bytes. -/
theorem content_advance (hb : Valid A b) {n : Int} (hn : 0 ≤ n) :
    content A { b with readerIndex := b.readerIndex + n } = (content A b).drop n.toNat := by
  have h0 := hb.1
  rw [content, content, List.drop_drop]
  congr 1
  dsimp only
  omega

theorem readBytes_of_le (hb : Valid A b) {n : Int} (hn : 0 ≤ n)
    (hle : b.readerIndex + n ≤ b.writerIndex) :
    (readBytes A n).run b =
      .ok ((content A b).take n.toNat) { b with readerIndex := b.readerIndex + n } := by
  change readBytes A n b = _
  rw [readBytes, if_neg (by rw [readableBytes_eq hb]; omega), get_of_le hb hn hle]
  simp only [int32_advance hb hn (Int.le_trans hle hb.2.2)]

theorem readBytes_of_gt (hb : Valid A b) {n : Int}
    (hn : n < 0 ∨ b.writerIndex < b.readerIndex + n) :
    (readBytes A n).run b = .error .indexOutOfBounds b := by
  change readBytes A n b = _
  rw [readBytes, readableBytes_eq hb]
  split
  · rfl
  · rw [A.get_error _ _ _ (by omega)]

theorem readByte_eq_readBytes (hb : Valid A b) (hne : b.readerIndex ≠ b.writerIndex) :
    (readByte A).run b = (readBytes A 1).run b := by
  have hle : b.readerIndex + 1 ≤ b.writerIndex := by have := hb.2.1; omega
  rw [readBytes_of_le hb (by decide) hle]
  change readByte A b = _
  rw [readByte, if_neg hne, get_of_le hb (by decide) hle]
  simp only [int32_advance hb (by decide : (0 : Int) ≤ 1) (Int.le_trans hle hb.2.2)]

theorem readByte_of_empty (he : b.readerIndex = b.writerIndex) :
    (readByte A).run b = .error .indexOutOfBounds b := by
  change readByte A b = _
  rw [readByte, if_pos he]

theorem readSlice_of_le (hb : Valid A b) {n : Int} (hn : 0 ≤ n)
    (hle : b.readerIndex + n ≤ b.writerIndex) :
    (readSlice A n).run b = (readBytes A n).run b := by
  have hfit : b.readerIndex + n ≤ capacity A b := Int.le_trans hle hb.2.2
  have hslice : A.slice b.store b.readerIndex n = A.get b.store b.readerIndex n :=
    (A.slice_ok _ _ _ hb.1 hn hfit).trans (A.get_ok _ _ _ hb.1 hn hfit).symm
  rw [readBytes_of_le hb hn hle]
  change readSlice A n b = _
  rw [readSlice, hslice, get_of_le hb hn hle]
  simp only [int32_advance hb hn hfit]

theorem readSlice_of_gt (hb : Valid A b) {n : Int}
    (hn : n < 0 ∨ capacity A b < int32 (b.readerIndex + n)) :
    (readSlice A n).run b = .error .indexOutOfBounds b := by
  have hle : b.readerIndex ≤ capacity A b := Int.le_trans hb.2.1 hb.2.2
  change readSlice A n b = _
  rw [readSlice, A.slice_error _ _ _ hb.1 hle hn]

/-- A slice that is made moves the reader, wherever that leads. -/
theorem readSlice_of_checked (hb : Valid A b) {n : Int} (hn : 0 ≤ n)
    (hle : int32 (b.readerIndex + n) ≤ capacity A b) :
    ∃ bs, (readSlice A n).run b = .ok bs { b with readerIndex := int32 (b.readerIndex + n) } := by
  have hslice : ∃ bs, A.slice b.store b.readerIndex n = .ok bs := by
    by_cases hfit : b.readerIndex + n ≤ capacity A b
    · exact ⟨_, A.slice_ok _ _ _ hb.1 hn hfit⟩
    · exact A.slice_overflow _ _ _ hb.1 (Int.le_trans hb.2.1 hb.2.2) hn (Int.not_le.mp hfit) hle
  obtain ⟨bs, hslice⟩ := hslice
  refine ⟨bs, ?_⟩
  change readSlice A n b = _
  rw [readSlice, hslice]

/-- **`discardReadBytes`** moves the readable bytes to the front. -/
theorem discardReadBytes_run (hb : Valid A b) (hm0 : 0 ≤ b.markedWriterIndex)
    (hm : b.markedWriterIndex ≤ capacity A b) :
    ∃ b', (discardReadBytes A).run b = .ok () b' ∧ Valid A b' ∧ content A b' = content A b ∧
      0 ≤ b'.markedWriterIndex ∧ b'.markedWriterIndex ≤ capacity A b' := by
  have hcap := capacity_lt (A := A) b
  obtain ⟨h0, hrw, hw⟩ := id hb
  by_cases hr : b.readerIndex = 0
  · refine ⟨b, ?_, hb, rfl, hm0, hm⟩
    change discardReadBytes A b = _
    rw [discardReadBytes, if_pos hr]
  · have hlen : int32 (b.writerIndex - b.readerIndex) = b.writerIndex - b.readerIndex :=
      int32_of_bounds (by omega) (by omega)
    have hmark : int32 (b.markedWriterIndex - b.readerIndex) =
        b.markedWriterIndex - b.readerIndex := int32_of_bounds (by omega) (by omega)
    have hsize : ((content A b).length : Int) = b.writerIndex - b.readerIndex := by
      unfold capacity at hw
      simp [content, written]
      omega
    have hget : A.get b.store b.readerIndex (b.writerIndex - b.readerIndex) =
        .ok (content A b) := by
      rw [get_of_le hb (by omega) (by omega), List.take_of_length_le (by omega)]
    obtain ⟨store, hset, hbytes⟩ := A.set_ok b.store 0 (content A b) (Int.le_refl 0) (by
      unfold capacity at hw
      omega)
    have hstore : (A.bytes store).length = (A.bytes b.store).length := by
      unfold capacity at hw
      rw [hbytes]
      simp
      omega
    refine ⟨{ store := store
              readerIndex := 0
              writerIndex := b.writerIndex - b.readerIndex
              markedReaderIndex := max (int32 (b.markedReaderIndex - b.readerIndex)) 0
              markedWriterIndex := max (b.markedWriterIndex - b.readerIndex) 0 },
      ?_, ⟨Int.le_refl 0, ?_, ?_⟩, ?_, Int.le_max_right .., ?_⟩
    · change discardReadBytes A b = _
      rw [discardReadBytes, if_neg hr, hlen, hmark, hget]
      simp only [hset]
    · dsimp only
      omega
    · rw [capacity]
      dsimp only
      rw [hstore]
      unfold capacity at hw
      omega
    · have htake : (b.writerIndex - b.readerIndex).toNat = (content A b).length := by omega
      rw [content, written]
      dsimp only
      rw [hbytes, htake]
      simp
    · rw [capacity]
      dsimp only
      rw [hstore]
      unfold capacity at hm hw
      omega

/-! ## Validity -/

/-- The invariant of a run of harmless calls. -/
structure Inv (A : Accessors β) (b : Buffer β) : Prop where
  valid : Valid A b
  mark_nonneg : 0 ≤ b.markedWriterIndex
  mark_le : b.markedWriterIndex ≤ capacity A b

theorem Wrote.inv (h : Wrote A b b' bs) (hb : Inv A b) (hvalid : Valid A b') : Inv A b' :=
  ⟨hvalid, h.markedWriter ▸ hb.mark_nonneg, by
    rw [h.markedWriter, h.size]
    exact hb.mark_le⟩

theorem inv_new (store : β) : Inv A (Buffer.new store) :=
  ⟨⟨Int.le_refl 0, Int.le_refl 0, Int.natCast_nonneg _⟩, Int.le_refl 0, Int.natCast_nonneg _⟩

/-- Moving the reader within the readable bytes. -/
theorem Inv.advance (hb : Inv A b) {i : Int} (h0 : 0 ≤ i) (hle : i ≤ b.writerIndex) :
    Inv A { b with readerIndex := i } :=
  ⟨⟨h0, hle, hb.valid.2.2⟩, hb.mark_nonneg, hb.mark_le⟩

theorem after_bind_pure {m : Method (Buffer β) Unit} (b : Buffer β) :
    after ((m >>= fun _ => pure ([] : List Byte)).run b) = after (m.run b) := by
  cases h : m.run b with
  | ok a b' => rw [run_bind_of_ok h]; rfl
  | error e b' => rw [run_bind_of_error h]; rfl

theorem inv_setReaderIndex (hb : Inv A b) (i : Int) :
    Inv A (after ((setReaderIndex i).run b)) := by
  change Inv A (after (setReaderIndex i b))
  rw [setReaderIndex]
  split
  · exact hb
  · exact hb.advance (by omega) (by omega)

theorem inv_writeBytes (hb : Inv A b) (bs : List Byte) :
    Inv A (after ((writeBytes A bs).run b)) := by
  by_cases hfit : b.writerIndex + bs.length ≤ capacity A b
  · obtain ⟨b', hrun, hwrote⟩ := writeBytes_of_fits hb.valid bs hfit
    rw [hrun]
    exact hwrote.inv hb (hwrote.valid hb.valid hfit)
  · obtain ⟨b', hrun, hwrote⟩ := writeBytes_of_full bs (Int.not_le.mp hfit)
    rw [hrun]
    exact hwrote.inv hb (hwrote.valid hb.valid (by simpa using hb.valid.2.2))

theorem inv_readBytes (hb : Inv A b) (n : Int) : Inv A (after ((readBytes A n).run b)) := by
  by_cases hn : 0 ≤ n ∧ b.readerIndex + n ≤ b.writerIndex
  · rw [readBytes_of_le hb.valid hn.1 hn.2]
    exact hb.advance (by have := hb.valid.1; omega) hn.2
  · rw [readBytes_of_gt hb.valid (by omega)]
    exact hb

/-- **A harmless call** keeps the indices in order. -/
theorem inv_step (c : Call) (b : Buffer β) (hb : Inv A b) (hc : Harmless A c b) :
    Inv A (step A c b) := by
  obtain ⟨h0, hrw, hw⟩ := id hb.valid
  cases c with
  | setReaderIndex i =>
    rw [step, Call.exec, after_bind_pure]
    exact inv_setReaderIndex hb i
  | setWriterIndex i =>
    rw [step, Call.exec, after_bind_pure]
    change Inv A (after (setWriterIndex A i b))
    rw [setWriterIndex]
    split
    · exact hb
    · have hri : b.readerIndex ≤ i := by omega
      have hle : i ≤ capacity A b := by omega
      exact ⟨⟨h0, hri, hle⟩, hb.mark_nonneg, hb.mark_le⟩
  | setIndex i j =>
    rw [step, Call.exec, after_bind_pure]
    change Inv A (after (setIndex A i j b))
    rw [setIndex]
    split
    · exact hb
    · have hi : 0 ≤ i := by omega
      have hij : i ≤ j := by omega
      have hle : j ≤ capacity A b := by omega
      exact ⟨⟨hi, hij, hle⟩, hb.mark_nonneg, hb.mark_le⟩
  | clear =>
    exact ⟨⟨Int.le_refl 0, Int.le_refl 0, Int.natCast_nonneg _⟩, hb.mark_nonneg, hb.mark_le⟩
  | markReaderIndex => exact ⟨hb.valid, hb.mark_nonneg, hb.mark_le⟩
  | resetReaderIndex =>
    rw [step, Call.exec, after_bind_pure]
    exact inv_setReaderIndex hb b.markedReaderIndex
  | markWriterIndex => exact ⟨hb.valid, Int.le_trans h0 hrw, hw⟩
  | resetWriterIndex => exact ⟨⟨h0, hc, hb.mark_le⟩, hb.mark_nonneg, hb.mark_le⟩
  | discardReadBytes =>
    obtain ⟨b', hrun, hvalid, -, hm0, hm⟩ := discardReadBytes_run hb.valid hb.mark_nonneg hb.mark_le
    rw [step, Call.exec, after_bind_pure, hrun]
    exact ⟨hvalid, hm0, hm⟩
  | ensureWritableBytes n =>
    rw [step, Call.exec, after_bind_pure]
    change Inv A (after (ensureWritableBytes A n b))
    rw [ensureWritableBytes]
    split <;> exact hb
  | readByte =>
    rw [step, Call.exec]
    by_cases he : b.readerIndex = b.writerIndex
    · rw [readByte_of_empty he]
      exact hb
    · rw [readByte_eq_readBytes hb.valid he]
      exact inv_readBytes hb 1
  | readBytes n => exact inv_readBytes hb n
  | readSlice n =>
    rw [step, Call.exec]
    by_cases hle : 0 ≤ n ∧ int32 (b.readerIndex + n) ≤ capacity A b
    · obtain ⟨bs, hrun⟩ := readSlice_of_checked hb.valid hle.1 hle.2
      obtain ⟨hnonneg, hwritten⟩ := hc hle.1 hle.2
      rw [hrun]
      exact hb.advance hnonneg hwritten
    · rw [readSlice_of_gt hb.valid (by omega)]
      exact hb
  | skipBytes n =>
    rw [step, Call.exec, after_bind_pure]
    change Inv A (after (skipBytes n b))
    rw [skipBytes]
    split
    · exact hb
    · exact hb.advance hc (by omega)
  | writeByte value =>
    have hfit : b.writerIndex < capacity A b := hc
    obtain ⟨b', hrun, hwrote⟩ := writeByte_of_fits hb.valid value (by simp; omega)
    rw [step, Call.exec, after_bind_pure, hrun]
    exact hwrote.inv hb (hwrote.valid hb.valid (by simp; omega))
  | writeBytes bs =>
    rw [step, Call.exec, after_bind_pure]
    exact inv_writeBytes hb bs
  | writeZero n =>
    rw [step, Call.exec, after_bind_pure]
    by_cases hn : 0 ≤ n
    · by_cases hfit : b.writerIndex + n ≤ capacity A b
      · obtain ⟨b', hrun, hwrote⟩ := writeZero_of_fits hn hb.valid hfit
        rw [hrun]
        exact hwrote.inv hb (hwrote.valid hb.valid (by
          rw [List.length_replicate]
          omega))
      · obtain ⟨b', bs', hrun, hwrote, hvalid⟩ := writeZero_of_full_early (by omega) hb.valid
          (hc (by omega) (by omega))
        rw [hrun]
        exact hwrote.inv hb hvalid
    · change Inv A (after (writeZero A n b))
      rw [writeZero, if_neg (by omega), if_pos (by omega)]
      exact hb

/-- **A harmful call** leaves the indices out of order. -/
theorem not_valid_step (c : Call) (b : Buffer β) (hb : Inv A b) (hc : ¬ Harmless A c b) :
    ¬ Valid A (step A c b) := by
  have hcap := capacity_lt (A := A) b
  obtain ⟨h0, hrw, hw⟩ := id hb.valid
  have hover : ∀ b' : Buffer β, capacity A b' = capacity A b →
      b'.writerIndex = int32 (capacity A b + 1) → b'.readerIndex = b.readerIndex →
      ¬ Valid A b' := by
    intro b' hsize hwriter hreader hvalid
    obtain ⟨h0', hrw', hw'⟩ := hvalid
    rw [hsize, hwriter] at hw'
    rw [hwriter, hreader] at hrw'
    rcases Int.lt_or_eq_of_le (Int.lt_iff_add_one_le.mp hcap) with hlt | he
    · rw [int32_of_bounds (by omega) hlt] at hw'
      omega
    · rw [int32_of_overflow (by omega) (by omega)] at hrw'
      omega
  cases c with
  | resetWriterIndex => exact fun hvalid => hc hvalid.2.1
  | readSlice n =>
    obtain ⟨hn, hrest⟩ := Classical.not_imp.mp hc
    obtain ⟨hle, hout⟩ := Classical.not_imp.mp hrest
    obtain ⟨bs, hrun⟩ := readSlice_of_checked hb.valid hn hle
    rw [step, Call.exec, hrun]
    exact fun hvalid => hout ⟨hvalid.1, hvalid.2.1⟩
  | skipBytes n =>
    have hneg : int32 (b.readerIndex + n) < 0 := Int.not_le.mp hc
    rw [step, Call.exec, after_bind_pure]
    change ¬ Valid A (after (skipBytes n b))
    rw [skipBytes, if_neg (by omega)]
    exact fun hvalid => hc hvalid.1
  | writeByte value =>
    have hfull : b.writerIndex = capacity A b := Int.le_antisymm hw (Int.not_lt.mp hc)
    obtain ⟨b', hrun, hreader, hsize, hwriter⟩ := writeByte_of_full (A := A) (b := b) value (by
      simp
      omega)
    rw [step, Call.exec, after_bind_pure, hrun]
    exact hover b' hsize (hfull ▸ hwriter) hreader
  | writeZero n =>
    obtain ⟨hn, hrest⟩ := Classical.not_imp.mp hc
    obtain ⟨hgt, hle⟩ := Classical.not_imp.mp hrest
    obtain ⟨b', hrun, hreader, hsize, hwriter⟩ :=
      writeZero_of_full_late hn hb.valid (Int.not_lt.mp hle) hgt
    rw [step, Call.exec, after_bind_pure, hrun]
    exact hover b' hsize hwriter hreader
  | _ => exact absurd trivial hc

/-- What a call is in a buffer used as a stream: it reads, skips, writes or makes room, and its
arguments are `int`s. -/
def Streams (A : Accessors β) : Call → Buffer β → Prop
  | .readByte, _ | .readBytes _, _ | .writeBytes _, _ | .discardReadBytes, _
  | .ensureWritableBytes _, _ | .markReaderIndex, _ | .markWriterIndex, _ => True
  | .readSlice length, b => length < 2147483648 ∧ Harmless A (.readSlice length) b
  | .skipBytes length, b => 0 ≤ length ∧ length < 2147483648 ∧ Harmless A (.skipBytes length) b
  | .writeByte value, b => Harmless A (.writeByte value) b
  | .writeZero length, b => b.writerIndex + length ≤ capacity A b
  | _, _ => False

theorem Streams.harmless {c : Call} (h : Streams A c b) : Harmless A c b := by
  cases c with
  | skipBytes length => exact h.2.2
  | writeZero length => exact fun _ hgt => absurd hgt (Int.not_lt.mpr h)
  | readSlice length => exact h.2
  | writeByte value => exact h
  | resetWriterIndex => exact h.elim
  | _ => trivial

/-- The bytes a call is given to write. -/
def Call.given : Call → List Byte
  | .writeByte value => [value]
  | .writeBytes bs => bs
  | .writeZero length => List.replicate length.toNat 0
  | _ => []

/-- What a call takes from the front: the bytes it returns, or skips. -/
def took (A : Accessors β) (c : Call) (b : Buffer β) : List Byte :=
  match (c.exec A).run b with
  | .ok bs _ =>
    match c with
    | .skipBytes length => (content A b).take length.toNat
    | _ => bs
  | .error _ _ => []

/-- What a call adds at the end. -/
def put (A : Accessors β) (c : Call) (b : Buffer β) : List Byte :=
  match (c.exec A).run b with
  | .ok _ _ => c.given
  | .error _ _ => []

/-- A call moves bytes through the buffer in their order. -/
def Moves (A : Accessors β) (c : Call) (b : Buffer β) : Prop :=
  took A c b ++ content A (step A c b) = content A b ++ put A c b

theorem Wrote.content (h : Wrote A b b' bs) (hb : Valid A b) :
    BufferIndices.content A b' = BufferIndices.content A b ++ bs := by
  obtain ⟨h0, hrw, hw⟩ := hb
  rw [BufferIndices.content, BufferIndices.content, h.stored, h.reader,
    List.drop_append_of_le_length]
  unfold capacity at hw
  simp [written]
  omega

/-- A call that throws and leaves the written bytes and the reader. -/
theorem moves_of_error {c : Call} {e : Throwable} (hrun : (c.exec A).run b = .error e b')
    (hsame : content A b' = content A b) : Moves A c b := by
  rw [Moves, took, put, step, hrun]
  exact hsame.trans (List.append_nil _).symm

/-- A read of `n` bytes. -/
theorem moves_of_read {c : Call} (hb : Valid A b) {n : Int} (hn : 0 ≤ n)
    (hrun : (c.exec A).run b =
      .ok ((content A b).take n.toNat) { b with readerIndex := b.readerIndex + n })
    (htook : took A c b = (content A b).take n.toNat) (hgiven : c.given = []) : Moves A c b := by
  have hput : put A c b = [] := by
    rw [put, hrun]
    exact hgiven
  have hafter : content A (step A c b) = (content A b).drop n.toNat := by
    rw [step, hrun]
    exact content_advance hb hn
  rw [Moves, htook, hput, hafter, List.take_append_drop, List.append_nil]

theorem moves_readBytes (hb : Valid A b) (n : Int) : Moves A (.readBytes n) b := by
  by_cases hn : 0 ≤ n ∧ b.readerIndex + n ≤ b.writerIndex
  · have hrun := readBytes_of_le hb hn.1 hn.2
    exact moves_of_read hb hn.1 hrun (by rw [took, Call.exec, hrun]) rfl
  · exact moves_of_error (readBytes_of_gt hb (by omega)) rfl

theorem exec_ok {m : Method (Buffer β) Unit} (hrun : m.run b = .ok () b') :
    (m >>= fun _ => pure ([] : List Byte)).run b = .ok [] b' := run_bind_of_ok hrun

theorem exec_error {m : Method (Buffer β) Unit} {e : Throwable} (hrun : m.run b = .error e b') :
    (m >>= fun _ => pure ([] : List Byte)).run b = .error e b' := run_bind_of_error hrun

/-- A sum with an `int` that is not negative has not overflowed. -/
theorem int32_of_nonneg (hb : Valid A b) {n : Int} (hn : 0 ≤ n) (hint : n < 2147483648)
    (hpos : 0 ≤ int32 (b.readerIndex + n)) : int32 (b.readerIndex + n) = b.readerIndex + n := by
  have hcap := capacity_lt (A := A) b
  obtain ⟨h0, hrw, hw⟩ := hb
  by_contra hne
  have hbig : 2147483648 ≤ b.readerIndex + n := by
    by_contra hlt
    exact hne (int32_of_bounds (by omega) (Int.not_le.mp hlt))
  have hwrap := int32_of_overflow hbig (by omega)
  omega

/-- **What one call does to the bytes.** -/
theorem moves_step (c : Call) (b : Buffer β) (hb : Inv A b) (hc : Streams A c b) :
    Moves A c b := by
  obtain ⟨h0, hrw, hw⟩ := id hb.valid
  cases c with
  | readByte =>
    by_cases he : b.readerIndex = b.writerIndex
    · exact moves_of_error (readByte_of_empty he) rfl
    · have hle : b.readerIndex + 1 ≤ b.writerIndex := by omega
      have hrun := (readByte_eq_readBytes hb.valid he).trans
        (readBytes_of_le hb.valid (by decide) hle)
      exact moves_of_read hb.valid (by decide) hrun (by rw [took, Call.exec, hrun]) rfl
  | readBytes n => exact moves_readBytes hb.valid n
  | readSlice n =>
    by_cases hn : 0 ≤ n ∧ b.readerIndex + n ≤ b.writerIndex
    · have hrun := (readSlice_of_le hb.valid hn.1 hn.2).trans (readBytes_of_le hb.valid hn.1 hn.2)
      exact moves_of_read hb.valid hn.1 hrun (by rw [took, Call.exec, hrun]) rfl
    · obtain ⟨hint, hharmless⟩ := hc
      refine moves_of_error (readSlice_of_gt hb.valid ?_) rfl
      by_cases hneg : 0 ≤ n
      · refine .inr (Int.not_le.mp fun hle => ?_)
        obtain ⟨hpos, hwritten⟩ := hharmless hneg hle
        have hsum := int32_of_nonneg hb.valid hneg hint hpos
        omega
      · exact .inl (by omega)
  | skipBytes n =>
    obtain ⟨hn, hint, hpos⟩ := hc
    have hsum := int32_of_nonneg hb.valid hn hint hpos
    by_cases hle : b.readerIndex + n ≤ b.writerIndex
    · have hrun : (skipBytes n).run b = .ok () { b with readerIndex := b.readerIndex + n } := by
        change skipBytes n b = _
        rw [skipBytes, hsum, if_neg (Int.not_lt.mpr hle)]
      have hafter : content A (step A (.skipBytes n) b) = (content A b).drop n.toNat := by
        rw [step, Call.exec, exec_ok hrun]
        exact content_advance hb.valid hn
      rw [Moves, hafter, took, put, Call.exec, exec_ok hrun]
      exact (List.take_append_drop ..).trans (List.append_nil _).symm
    · have hrun : (skipBytes n).run b = .error .indexOutOfBounds b := by
        change skipBytes n b = _
        rw [skipBytes, hsum, if_pos (Int.not_le.mp hle)]
      exact moves_of_error (exec_error hrun) rfl
  | writeByte value =>
    have hlt : b.writerIndex < capacity A b := hc
    obtain ⟨b', hrun, hwrote⟩ := writeByte_of_fits hb.valid value (by simp; omega)
    rw [Moves, took, put, step, Call.exec, exec_ok hrun]
    exact hwrote.content hb.valid
  | writeBytes bs =>
    by_cases hfit : b.writerIndex + bs.length ≤ capacity A b
    · obtain ⟨b', hrun, hwrote⟩ := writeBytes_of_fits hb.valid bs hfit
      rw [Moves, took, put, step, Call.exec, exec_ok hrun]
      exact hwrote.content hb.valid
    · obtain ⟨b', hrun, hwrote⟩ := writeBytes_of_full bs (Int.not_le.mp hfit)
      refine moves_of_error (exec_error hrun) ?_
      rw [hwrote.content hb.valid, List.append_nil]
  | writeZero n =>
    by_cases hn : 0 ≤ n
    · obtain ⟨b', hrun, hwrote⟩ := writeZero_of_fits hn hb.valid hc
      rw [Moves, took, put, step, Call.exec, exec_ok hrun]
      exact hwrote.content hb.valid
    · have hrun : (writeZero A n).run b = .error .illegalArgument b := by
        change writeZero A n b = _
        rw [writeZero, if_neg (by omega), if_pos (Int.not_le.mp hn)]
      exact moves_of_error (exec_error hrun) rfl
  | discardReadBytes =>
    obtain ⟨b', hrun, -, hsame, -⟩ := discardReadBytes_run hb.valid hb.mark_nonneg hb.mark_le
    rw [Moves, took, put, step, Call.exec, exec_ok hrun]
    exact hsame.trans (List.append_nil _).symm
  | ensureWritableBytes n =>
    by_cases hgt : n > writableBytes A b
    · exact moves_of_error (exec_error (by
        change ensureWritableBytes A n b = _
        rw [ensureWritableBytes, if_pos hgt])) rfl
    · have hrun : (ensureWritableBytes A n).run b = .ok () b := by
        change ensureWritableBytes A n b = _
        rw [ensureWritableBytes, if_neg hgt]
      rw [Moves, took, put, step, Call.exec, exec_ok hrun]
      exact (List.append_nil _).symm
  | markReaderIndex => exact (List.append_nil _).symm
  | markWriterIndex => exact (List.append_nil _).symm
  | _ => exact hc.elim

end Runs

end Terminator.Netty.BufferIndices
