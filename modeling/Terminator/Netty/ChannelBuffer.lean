import Terminator.Java.Exec
import Terminator.Java.Heap
import Terminator.Java.Text

/-!
# Channel buffers

`AbstractChannelBuffer.java`, as far as the program uses it: a byte array with a reader and a
writer index. The two bounds the class checks on every index assignment are fields here, so a
buffer with `readerIndex > writerIndex` cannot be built. `hasArray` says whether `array()` is
supported; it is not for a buffer composed of several others.

**`readChannelBufferAsByte_run`**: the loop of `ChannelUtil.readChannelBufferAsByte` returns the
readable bytes and leaves the buffer drained, never throwing.
-/

namespace Terminator.Netty

open Terminator.Java

/-- `ChannelBuffer`. -/
structure ChannelBuffer where
  bytes : List Byte
  readerIndex : Nat
  writerIndex : Nat
  hasArray : Bool
  reader_le_writer : readerIndex ≤ writerIndex
  writer_le_capacity : writerIndex ≤ bytes.length
  deriving DecidableEq

namespace ChannelBuffer

/-- `ChannelBuffers.EMPTY_BUFFER`. -/
def EMPTY_BUFFER : ChannelBuffer := ⟨[], 0, 0, true, Nat.le_refl _, Nat.le_refl _⟩

instance : Inhabited ChannelBuffer := ⟨EMPTY_BUFFER⟩

/-- `ChannelBuffers.wrappedBuffer(bytes)`: everything is readable. -/
def wrapped (bytes : List Byte) (hasArray : Bool) : ChannelBuffer :=
  ⟨bytes, 0, bytes.length, hasArray, Nat.zero_le _, Nat.le_refl _⟩

/-- `readableBytes()`. -/
def readableBytes (b : ChannelBuffer) : Nat := b.writerIndex - b.readerIndex

/-- `readable()`. -/
def readable (b : ChannelBuffer) : Bool := 0 < b.readableBytes

/-- The bytes between the two indices: what a reader, or netty's encoder, is going to see. -/
def content (b : ChannelBuffer) : List Byte := (b.bytes.drop b.readerIndex).take b.readableBytes

/-- The buffer after everything readable has been read. -/
def drained (b : ChannelBuffer) : ChannelBuffer :=
  { b with readerIndex := b.writerIndex, reader_le_writer := Nat.le_refl _ }

/-- `readByte()`. -/
def readByte : Method ChannelBuffer Byte := fun b =>
  if h : b.readerIndex = b.writerIndex then .error .indexOutOfBounds b
  else
    have hlt : b.readerIndex < b.writerIndex := Nat.lt_of_le_of_ne b.reader_le_writer h
    have hcap : b.readerIndex < b.bytes.length := Nat.lt_of_lt_of_le hlt b.writer_le_capacity
    .ok b.bytes[b.readerIndex] { b with readerIndex := b.readerIndex + 1, reader_le_writer := hlt }

/-- `array()`. -/
def array (b : ChannelBuffer) : Except Throwable (List Byte) :=
  if b.hasArray then .ok b.bytes else .error .unsupportedOperation

/-! ## Lemmas -/

@[simp] theorem content_length (b : ChannelBuffer) : b.content.length = b.readableBytes := by
  have := b.writer_le_capacity
  simp only [content, readableBytes, List.length_take, List.length_drop]
  omega

theorem readable_iff {b : ChannelBuffer} : b.readable = true ↔ b.content ≠ [] := by
  rw [← List.length_pos_iff, content_length, readable, decide_eq_true_eq]

theorem not_readable_iff {b : ChannelBuffer} : b.readable = false ↔ b.content = [] := by
  rw [← Bool.not_eq_true, readable_iff, not_not]

@[simp] theorem content_drained (b : ChannelBuffer) : b.drained.content = [] := by
  simp [drained, content, readableBytes]

/-- Reading what has been read already moves nothing. -/
theorem drained_of_not_readable {b : ChannelBuffer} (h : b.readable = false) : b.drained = b := by
  have hr : b.readerIndex = b.writerIndex := by
    have h1 := b.reader_le_writer
    have h2 : b.readableBytes = 0 := by rw [← content_length, not_readable_iff.mp h]; rfl
    unfold readableBytes at h2
    omega
  cases b
  simp only [drained, mk.injEq, true_and, and_true] at hr ⊢
  exact hr.symm

/-- One `readByte()` on a readable buffer: the first byte of the content, the rest left. -/
theorem readByte_run {b : ChannelBuffer} {x : Byte} {xs : List Byte} (h : b.content = x :: xs) :
    ∃ b', readByte.run b = .ok x b' ∧ b'.content = xs ∧ b'.drained = b.drained := by
  have hlen : b.readableBytes = xs.length + 1 := by rw [← content_length, h]; rfl
  have hr := hlen
  unfold readableBytes at hr
  have hne : ¬ b.readerIndex = b.writerIndex := by omega
  have hcap : b.readerIndex < b.bytes.length := by have := b.writer_le_capacity; omega
  have hdrop : b.bytes.drop b.readerIndex
      = b.bytes[b.readerIndex] :: b.bytes.drop (b.readerIndex + 1) := List.drop_eq_getElem_cons hcap
  have hcons : b.bytes[b.readerIndex] :: (b.bytes.drop (b.readerIndex + 1)).take xs.length
      = x :: xs := by
    rw [← h, content, hlen, hdrop, List.take_succ_cons]
  obtain ⟨hx, hxs⟩ := List.cons.inj hcons
  refine ⟨{ b with readerIndex := b.readerIndex + 1, reader_le_writer := by omega }, ?_, ?_, rfl⟩
  · simp only [EStateM.run, readByte, dif_neg hne, hx]
  · have hn : b.writerIndex - (b.readerIndex + 1) = xs.length := by omega
    simp only [content, readableBytes, hn]
    exact hxs

/-- A method of the buffer behind a reference. -/
def onBuffer {α : Type} (r : Ref) (x : Method ChannelBuffer α) : Method (Heap ChannelBuffer) α :=
  zoom (fun h => h.get r) (fun b h => h.set r b) x

theorem run_onBuffer_of_ok {α : Type} {r : Ref} {x : Method ChannelBuffer α}
    {h : Heap ChannelBuffer} {a : α} {b : ChannelBuffer} (hx : x.run (h.get r) = .ok a b) :
    (onBuffer r x).run h = .ok a (h.set r b) := by
  unfold onBuffer
  rw [run_zoom, hx]

/-- Everything readable behind a reference has been read. -/
def drain (h : Heap ChannelBuffer) (r : Ref) : Heap ChannelBuffer := h.set r (h.get r).drained

@[simp] theorem size_drain (h : Heap ChannelBuffer) (r : Ref) : (drain h r).size = h.size :=
  Heap.size_set h r _

/-- Draining one buffer leaves every other alone. -/
theorem get_drain_ne {h : Heap ChannelBuffer} {r r' : Ref} (hne : r ≠ r') :
    (drain h r).get r' = h.get r' := Heap.get_set_ne hne _

theorem get_drain_self {h : Heap ChannelBuffer} {r : Ref} (hr : r < h.size) :
    (drain h r).get r = (h.get r).drained := Heap.get_set_self hr _

/-- Draining a buffer without content does nothing. -/
theorem drain_of_not_readable {h : Heap ChannelBuffer} {r : Ref}
    (hr : ¬ (h.get r).readable = true) : drain h r = h := by
  rw [drain, drained_of_not_readable (Bool.eq_false_iff.mpr hr), Heap.set_get]

end ChannelBuffer

/-! ## `ChannelUtil` -/

namespace ChannelUtil

open ChannelBuffer

/-- The loop of `readChannelBufferAsByte`. Every round reads one byte, so the number of readable
bytes is fuel enough. -/
def readLoop : Nat → List Byte → Nat → Method ChannelBuffer (List Byte)
  | 0, bytes, _ => pure bytes
  | fuel + 1, bytes, i => do
    if (← get).readable then
      let b ← readByte
      let bytes ← fromExcept (store bytes i b)
      readLoop fuel bytes (i + 1)
    else pure bytes

/-- `readChannelBufferAsByte`. -/
def readChannelBufferAsByte : Method ChannelBuffer (List Byte) := do
  let n := (← get).readableBytes
  readLoop n (List.replicate n 0) 0

/-- `readChannelBufferAsString`. -/
def readChannelBufferAsString (cs : Charset) : Method ChannelBuffer JString := do
  let bytes ← readChannelBufferAsByte
  pure (cs.decode bytes)

/-- Storing one byte after the `done` ones already stored extends them. -/
theorem set_append_replicate (done : List Byte) (n : Nat) (x : Byte) :
    (done ++ List.replicate (n + 1) 0).set done.length x = (done ++ [x]) ++ List.replicate n 0 := by
  rw [List.set_append_right _ _ (Nat.le_refl _), Nat.sub_self, List.replicate_succ,
    List.set_cons_zero,
    List.append_assoc, List.singleton_append]

/-- **The loop**: with `done` stored and `rest` still readable, the array ends as `done ++ rest`
and the buffer drained. -/
theorem readLoop_run (rest : List Byte) : ∀ (done : List Byte) (b : ChannelBuffer),
    b.content = rest →
      (readLoop rest.length (done ++ List.replicate rest.length 0) done.length).run b
        = .ok (done ++ rest) b.drained := by
  induction rest with
  | nil =>
    intro done b h
    have hr := not_readable_iff.mpr h
    simp [readLoop, drained_of_not_readable hr]
  | cons x xs ih =>
    intro done b h
    have hr : b.readable = true := readable_iff.mpr (by rw [h]; exact List.cons_ne_nil x xs)
    obtain ⟨b', hread, hcont, hdr⟩ := readByte_run h
    have hstore : store (done ++ List.replicate (xs.length + 1) 0) done.length x
        = .ok ((done ++ [x]) ++ List.replicate xs.length 0) := by
      rw [store_of_lt (by simp), set_append_replicate]
    rw [List.length_cons, readLoop, run_bind_of_ok (EStateM.run_get b), if_pos hr,
      run_bind_of_ok hread, hstore, run_bind_of_ok (run_fromExcept_ok _ _)]
    have := ih (done ++ [x]) b' hcont
    rw [List.length_append, List.length_singleton] at this
    rw [this, hdr, List.append_assoc, List.singleton_append]

/-- **`readChannelBufferAsByte`** returns the readable bytes and drains the buffer. -/
theorem readChannelBufferAsByte_run (b : ChannelBuffer) :
    readChannelBufferAsByte.run b = .ok b.content b.drained := by
  have h := readLoop_run b.content [] b rfl
  rw [content_length] at h
  rw [readChannelBufferAsByte, run_bind_of_ok (EStateM.run_get b)]
  exact h

theorem readChannelBufferAsString_run (cs : Charset) (b : ChannelBuffer) :
    (readChannelBufferAsString cs).run b = .ok (cs.decode b.content) b.drained := by
  rw [readChannelBufferAsString, run_bind_of_ok (readChannelBufferAsByte_run b), EStateM.run_pure]

end ChannelUtil

end Terminator.Netty
