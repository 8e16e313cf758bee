import Mathlib.Data.List.Nodup
import Terminator.Cache.Lru
import Terminator.Storage.CacheStorage

/-!
# The segments of a Guava cache

`LocalCache` of the Guava the program is deployed with: its keys are divided by their hashes among
four segments, each with a quarter of `maximumSize`, and each lets its own oldest entries go. An
`int` is a natural number below `2 ^ 32` here. Entries are listed by their last put: while a cache
is only written, as a recording does, that is the order of their last use.

* **`keysOf_put`**: a put is a use of the key in its segment, and changes no other one;
* **`Cached.has_iff`**: a cache that is only written has the last 250 different keys of each
  segment.
-/

namespace Terminator.Storage.CacheStorage

open Terminator.Java Terminator.Netty Terminator.Plugin Terminator.Cache

/-- `String.hashCode()`. -/
def hashCode (s : JString) : Nat := s.foldl (fun h c => (31 * h + c.toNat) % 2 ^ 32) 0

/-- `LocalCache.rehash`. -/
def rehash (h : Nat) : Nat :=
  let h := (h + (((h <<< 15) % 2 ^ 32) ^^^ 0xffffcd7d)) % 2 ^ 32
  let h := h ^^^ (h >>> 10)
  let h := (h + (h <<< 3)) % 2 ^ 32
  let h := h ^^^ (h >>> 6)
  let h := (h + (h <<< 2) + (h <<< 14)) % 2 ^ 32
  h ^^^ (h >>> 16)

/-- The number of segments: `concurrencyLevel` is not set. -/
def SEGMENTS : Nat := 4

/-- `segmentFor(hash)`: the two high-order bits. -/
def segmentFor (key : JString) : Nat := rehash (hashCode key) >>> 30

/-- `maxSegmentWeight`. -/
def MAX_SEGMENT_WEIGHT : Nat := MAXIMUM_SIZE / SEGMENTS

/-- The list without the first `n` elements that are `old`. -/
def withoutOldest {α : Type} (old : α → Bool) : Nat → List α → List α
  | 0, xs => xs
  | _ + 1, [] => []
  | n + 1, x :: xs => if old x then withoutOldest old n xs else x :: withoutOldest old (n + 1) xs

/-- `evictEntries` of the segment of the newest entry. -/
def evictEntries (entries : List (JString × RequestResponseBundle Ref)) :
    List (JString × RequestResponseBundle Ref) :=
  match entries.getLast? with
  | none => entries
  | some newest =>
    let inSegment := fun e : JString × RequestResponseBundle Ref =>
      segmentFor e.1 == segmentFor newest.1
    withoutOldest inSegment (entries.countP inSegment - MAX_SEGMENT_WEIGHT) entries

section WithoutOldest

variable {α : Type} (old : α → Bool)

theorem withoutOldest_sublist (n : Nat) (xs : List α) : (withoutOldest old n xs).Sublist xs := by
  fun_induction withoutOldest old n xs with
  | case1 xs => exact List.Sublist.refl _
  | case2 => exact List.Sublist.refl _
  | case3 n x xs h ih => exact ih.cons x
  | case4 n x xs h ih => exact ih.cons_cons x

/-- The last element stays if there are enough others. -/
theorem withoutOldest_concat {n : Nat} {xs : List α} (h : n ≤ xs.countP old) (x : α) :
    withoutOldest old n (xs ++ [x]) = withoutOldest old n xs ++ [x] := by
  fun_induction withoutOldest old n xs with
  | case1 xs => rw [withoutOldest]
  | case2 n => exact absurd h (Nat.not_succ_le_zero n)
  | case3 n y xs hy ih =>
    rw [List.countP_cons_of_pos hy] at h
    rw [List.cons_append, withoutOldest, if_pos hy, ih (Nat.le_of_succ_le_succ h)]
  | case4 n y xs hy ih =>
    rw [List.countP_cons_of_neg hy] at h
    rw [List.cons_append, withoutOldest, if_neg hy, ih h, List.cons_append]

/-- Of the elements that are `old` the first ones go. -/
theorem filter_withoutOldest (n : Nat) (xs : List α) :
    (withoutOldest old n xs).filter old = (xs.filter old).drop n := by
  fun_induction withoutOldest old n xs with
  | case1 xs => rfl
  | case2 n => rfl
  | case3 n y xs hy ih => rw [ih, List.filter_cons_of_pos hy, List.drop_succ_cons]
  | case4 n y xs hy ih => rw [List.filter_cons_of_neg hy, ih, List.filter_cons_of_neg hy]

/-- No others go. -/
theorem filter_withoutOldest_of_disjoint {p : α → Bool} (h : ∀ x, old x = true → p x = false)
    (n : Nat) (xs : List α) : (withoutOldest old n xs).filter p = xs.filter p := by
  fun_induction withoutOldest old n xs with
  | case1 xs => rfl
  | case2 n => rfl
  | case3 n y xs hy ih => rw [ih, List.filter_cons_of_neg (by simp [h y hy])]
  | case4 n y xs hy ih => rw [List.filter_cons, List.filter_cons, ih]

end WithoutOldest

/-- **The eviction of Guava.** -/
def Eviction.segments : Eviction where
  keep := evictEntries
  sublist cache := by
    unfold evictEntries
    split
    · exact List.Sublist.refl _
    · exact withoutOldest_sublist _ _ _
  newest_mem cache e := by
    have hcount : ∀ p : JString × RequestResponseBundle Ref → Bool,
        (cache ++ [e]).countP p - MAX_SEGMENT_WEIGHT ≤ cache.countP p := by
      intro p
      have hone := List.countP_le_length (p := p) (l := [e])
      rw [List.countP_append, MAX_SEGMENT_WEIGHT, MAXIMUM_SIZE, SEGMENTS]
      rw [List.length_singleton] at hone
      omega
    unfold evictEntries
    rw [List.getLast?_concat]
    dsimp only
    rw [withoutOldest_concat _ (hcount _)]
    exact List.mem_append_right _ List.mem_cons_self

/-! ## The keys of a segment -/

/-- The keys of a segment, in the order of their last puts. -/
def keysOf (i : Nat) (keys : List JString) : List JString :=
  keys.filter fun key => segmentFor key == i

theorem keysOf_append (i : Nat) (keys keys' : List JString) :
    keysOf i (keys ++ keys') = keysOf i keys ++ keysOf i keys' := List.filter_append ..

theorem keysOf_self (key : JString) : keysOf (segmentFor key) [key] = [key] := by
  simp [keysOf]

theorem keysOf_ne {i : Nat} {key : JString} (h : segmentFor key ≠ i) : keysOf i [key] = [] := by
  simp [keysOf, h]

theorem mem_keysOf {i : Nat} {key : JString} {keys : List JString} :
    key ∈ keysOf i keys ↔ key ∈ keys ∧ segmentFor key = i := by
  simp [keysOf]

section Put

variable {cache : List (JString × RequestResponseBundle Ref)} {key : JString}
  {bundle : RequestResponseBundle Ref}

/-- The other entries have the other keys. -/
theorem keysOf_filter (i : Nat) :
    keysOf i ((cache.filter fun e => !(e.1 == key)).map Prod.fst)
      = (keysOf i (cache.map Prod.fst)).filter fun k => decide (k ≠ key) := by
  have hmap : (cache.filter fun e => !(e.1 == key)).map Prod.fst
      = (cache.map Prod.fst).filter fun k => !(k == key) := by
    rw [List.filter_map]
    rfl
  rw [hmap, keysOf, keysOf, List.filter_filter, List.filter_filter]
  refine List.filter_congr fun k _ => ?_
  rw [Bool.and_comm, Bool.beq_eq_decide_eq, decide_not]

/-- The keys of the segment of the newest entry, when the oldest of them have gone. -/
theorem keysOf_evictEntries (i : Nat) :
    keysOf i ((evictEntries (cache ++ [(key, bundle)])).map Prod.fst) =
      if segmentFor key = i
      then (keysOf i (cache.map Prod.fst) ++ [key]).drop
        ((keysOf i (cache.map Prod.fst)).length + 1 - MAX_SEGMENT_WEIGHT)
      else keysOf i (cache.map Prod.fst) := by
  let inSegment := fun e : JString × RequestResponseBundle Ref => segmentFor e.1 == segmentFor key
  let entries := cache ++ [(key, bundle)]
  have hkeysOf : ∀ entries : List (JString × RequestResponseBundle Ref),
      keysOf i (entries.map Prod.fst)
        = (entries.filter fun e => segmentFor e.1 == i).map Prod.fst := by
    intro entries
    rw [keysOf, List.filter_map]
    rfl
  have hevict : evictEntries entries
      = withoutOldest inSegment (entries.countP inSegment - MAX_SEGMENT_WEIGHT) entries := by
    unfold evictEntries
    rw [List.getLast?_concat]
  have hentries : keysOf i (entries.map Prod.fst)
      = keysOf i (cache.map Prod.fst) ++ keysOf i [key] := by
    rw [List.map_append, keysOf_append]
    rfl
  rw [hevict, hkeysOf]
  by_cases hi : segmentFor key = i
  · subst hi
    have hcount : entries.countP inSegment
        = (keysOf (segmentFor key) (cache.map Prod.fst)).length + 1 := by
      rw [List.countP_eq_length_filter, ← List.length_map (f := Prod.fst), ← hkeysOf, hentries,
        keysOf_self, List.length_append, List.length_singleton]
    rw [if_pos rfl, filter_withoutOldest, List.map_drop, ← hkeysOf, hentries, keysOf_self, hcount]
  · have hdisjoint : ∀ e, inSegment e = true → (segmentFor e.1 == i) = false := by
      intro e he
      rw [beq_iff_eq.mp he]
      exact beq_eq_false_iff_ne.mpr hi
    rw [if_neg hi, filter_withoutOldest_of_disjoint _ hdisjoint, ← hkeysOf, hentries, keysOf_ne hi,
      List.append_nil]

/-- **A put** is a use of the key in its segment, and changes no other one. -/
theorem keysOf_put (i : Nat) (h : (keysOf i (cache.map Prod.fst)).Nodup) :
    keysOf i ((put .segments cache key bundle).map Prod.fst) =
      if segmentFor key = i
      then Lru.touch MAX_SEGMENT_WEIGHT (keysOf i (cache.map Prod.fst)) key
      else keysOf i (cache.map Prod.fst) := by
  unfold put
  by_cases hkey : key ∈ cache.map Prod.fst
  · rw [if_pos hkey, List.map_append, keysOf_append, keysOf_filter, List.map_singleton]
    by_cases hi : segmentFor key = i
    · subst hi
      rw [if_pos rfl, Lru.touch_of_mem _ h (mem_keysOf.mpr ⟨hkey, rfl⟩), keysOf_self]
    · have hno : ∀ k ∈ keysOf i (cache.map Prod.fst), decide (k ≠ key) = true := by
        intro k hk
        refine decide_eq_true fun heq => hi ?_
        rw [← heq, (mem_keysOf.mp hk).2]
      rw [if_neg hi, keysOf_ne hi, List.append_nil, List.filter_eq_self.mpr hno]
  · have hno : ∀ e ∈ cache, (!(e.1 == key)) = true := by
      intro e he
      have hne : e.1 ≠ key := fun heq => hkey (heq ▸ List.mem_map_of_mem he)
      simpa using hne
    have hnew : key ∉ keysOf i (cache.map Prod.fst) := fun hmem => hkey (mem_keysOf.mp hmem).1
    rw [if_neg hkey, List.filter_eq_self.mpr hno, Lru.touch_of_notMem _ hnew]
    exact keysOf_evictEntries i

end Put

/-! ## A cache that is only written -/

variable {w : World CacheStorage} {hist : History}

/-- The cache is sound, and the keys of each segment have been used by the puts so far. -/
structure Cached (w : World CacheStorage) (hist : History) : Prop extends Sound w hist where
  segments : ∀ i, keysOf i (w.hidden.recordDataCache.map Prod.fst)
    = (keysOf i (hist.map Prod.fst)).foldl (Lru.touch MAX_SEGMENT_WEIGHT) []

theorem cached_nil (h : Heap ChannelBuffer) (stubs : List StubData) :
    Cached ⟨h, ⟨[], stubs⟩⟩ [] :=
  ⟨sound_nil h stubs, fun _ => rfl⟩

/-- **A put** of a cache with segments. -/
theorem Cached.put {key : JString} {bundle : RequestResponseBundle Ref} (hw : Cached w hist)
    (halloc : ∀ r, bundle.Mentions r → r < w.heap.size) :
    Cached ⟨w.heap, { w.hidden with
        recordDataCache := CacheStorage.put .segments w.hidden.recordDataCache key bundle }⟩
      (hist ++ [(key, bundle.deref w.heap)]) where
  toSound := hw.toSound.put .segments halloc
  segments i := by
    have hnodup : (keysOf i (w.hidden.recordDataCache.map Prod.fst)).Nodup := by
      rw [hw.segments i]
      exact Lru.nodup_foldl_touch _ _
    rw [keysOf_put i hnodup, hw.segments i, List.map_append, keysOf_append, List.map_singleton]
    by_cases hi : segmentFor key = i
    · rw [if_pos hi, ← hi, keysOf_self, List.foldl_concat]
    · rw [if_neg hi, keysOf_ne hi, List.append_nil]

/-- A cache with segments is the last-write-wins map, too, for the keys it has. -/
def refinesSegments : Refines (recordStorage .segments) where
  Holds := Cached
  Keeps := Keeps
  Has := Has
  keeps_lt hw hr := (refines .segments).keeps_lt hw.toSound hr
  holds_of_heap hw hsize hsame := ⟨hw.toSound.of_heap hsize hsame, hw.segments⟩
  put {w hist key bundle} hw hkey halloc := by
    obtain ⟨hidden, hrun, -, hhas, hkeeps⟩ := (refines .segments).put hw.toSound hkey halloc
    obtain ⟨-, hworld⟩ := EStateM.Result.ok.inj
      ((show (putRecordData .segments key bundle).run w = .ok () _ from rfl).symm.trans hrun)
    refine ⟨hidden, hrun, ?_, hhas, hkeeps⟩
    rw [← hworld]
    exact hw.put halloc
  get hw hkey := (refines .segments).get hw.toSound hkey

/-- **What a cache with segments has**: the last keys of each. -/
theorem Cached.has_iff (hw : Cached w hist) (key : JString) :
    Has w.hidden key ↔ key ∈ Lru.newest MAX_SEGMENT_WEIGHT
      (keysOf (segmentFor key) (hist.map Prod.fst)).dedup := by
  rw [← Lru.foldl_touch, ← hw.segments, mem_keysOf]
  exact ⟨fun h => ⟨h, rfl⟩, fun h => h.1⟩

end Terminator.Storage.CacheStorage
