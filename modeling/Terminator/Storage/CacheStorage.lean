import Terminator.Storage.Storage

/-!
# `CacheStorage`

`CacheStorage.java`: a Guava cache of at most `MAXIMUM_SIZE` bundles, and the list of stubs. The
cache keeps references, not copies. Which entries it evicts for a new key is a parameter: Guava
divides its room among segments and may evict before the cache as a whole is full. The entries
expire after a week, which no run here reaches.

**`CacheStorage.refines`**: the cache is the last-write-wins map, but for the keys it has evicted;
whatever it evicts, the newest entry is there.
-/

namespace Terminator.Storage

open Terminator.Java Terminator.Netty Terminator.Plugin

/-- `CacheStorage`. -/
structure CacheStorage where
  recordDataCache : List (JString × RequestResponseBundle Ref)
  stubDataCache : List StubData

namespace CacheStorage

/-- `maximumSize(1000)`. -/
def MAXIMUM_SIZE : Nat := 1000

/-- What Guava keeps of the entries when a key has been put that was not there: some of them, and
the newest. The bundle of every put is a new one, so one function gives the choices of a whole run,
whatever was read in between. -/
structure Eviction where
  keep : List (JString × RequestResponseBundle Ref) → List (JString × RequestResponseBundle Ref)
  sublist : ∀ cache, (keep cache).Sublist cache
  newest_mem : ∀ cache e, e ∈ keep (cache ++ [e])

/-- The eviction that keeps the newest entries. -/
def Eviction.newest : Eviction where
  keep cache := cache.drop (cache.length - MAXIMUM_SIZE)
  sublist _ := List.drop_sublist _ _
  newest_mem cache e := by
    rw [List.drop_append_of_le_length (by simp [MAXIMUM_SIZE])]
    exact List.mem_append_right _ List.mem_cons_self

/-- `recordDataCache.put(key, bundles)`. -/
def put (evict : Eviction) (cache : List (JString × RequestResponseBundle Ref)) (key : JString)
    (bundles : RequestResponseBundle Ref) : List (JString × RequestResponseBundle Ref) :=
  let entries := cache.filter (fun e => !(e.1 == key)) ++ [(key, bundles)]
  if key ∈ cache.map Prod.fst then entries else evict.keep entries

/-- `recordDataCache.getIfPresent(key)`. -/
def getIfPresent (cache : List (JString × RequestResponseBundle Ref)) (key : JString) :
    Option (RequestResponseBundle Ref) :=
  (cache.find? fun e => e.1 == key).map Prod.snd

/-- A world with an empty cache in it, and no objects. -/
def emptyWorld : World CacheStorage := ⟨⟨[]⟩, ⟨[], []⟩⟩

/-- `putRecordData`. -/
def putRecordData (evict : Eviction) (key : JString) (bundles : RequestResponseBundle Ref) :
    Method (World CacheStorage) Unit :=
  modify fun w =>
    { w with hidden := { w.hidden with
        recordDataCache := put evict w.hidden.recordDataCache key bundles } }

/-- `getRecordData`. -/
def getRecordData (key : JString) : Method (World CacheStorage) (RequestResponseBundle Ref) := do
  match getIfPresent (← get).hidden.recordDataCache key with
  | none => pure .empty
  | some bundle => pure bundle

/-- `getStubData`: the list itself, not a copy. -/
def getStubData : Method (World CacheStorage) (List StubData) := do
  pure (← get).hidden.stubDataCache

theorem getRecordData_run (key : JString) (w : World CacheStorage) :
    (getRecordData key).run w
      = .ok ((getIfPresent w.hidden.recordDataCache key).getD .empty) w := by
  rw [getRecordData, run_bind_of_ok (EStateM.run_get w)]
  cases getIfPresent w.hidden.recordDataCache key <;> rfl

/-- `CacheStorage`, as recording and replaying use it. -/
def recordStorage (evict : Eviction) : RecordStorage CacheStorage where
  putRecordData := putRecordData evict
  getRecordData := getRecordData
  put_preserves _ _ _ := ⟨Nat.le_refl _, fun _ _ _ => rfl⟩
  get_preserves key w := by
    rw [getRecordData_run, after_ok]
    exact ⟨Nat.le_refl _, fun _ _ _ => rfl⟩

/-- `CacheStorage`, as the stub handler uses it. -/
def stubStorage : StubStorage CacheStorage where
  getStubData := getStubData
  sorted stubData c := { c with stubDataCache := stubData }
  getStubData_preserves _ := ⟨Nat.le_refl _, fun _ _ _ => rfl⟩

/-- The pairs that are stored, with the values their objects have. -/
def stored (w : World CacheStorage) : List (JString × RequestResponseBundle ChannelBuffer) :=
  w.hidden.recordDataCache.map fun e => (e.1, e.2.deref w.heap)

/-! ## What the cache retains -/

variable {w : World CacheStorage} {hist : History}

/-- Every entry has the bundle put last under its key, with the objects as they were then, and the
newest entry is there. -/
structure Sound (w : World CacheStorage) (hist : History) : Prop where
  allocated : ∀ e ∈ w.hidden.recordDataCache, ∀ r, e.2.Mentions r → r < w.heap.size
  value : ∀ e ∈ w.hidden.recordDataCache, e.2.deref w.heap = lookup hist e.1
  recorded : ∀ e ∈ w.hidden.recordDataCache, e.1 ∈ hist.map Prod.fst
  newest_mem : ∀ p, hist.getLast? = some p → p.1 ∈ w.hidden.recordDataCache.map Prod.fst

/-- The objects the cache keeps references to. -/
def Keeps (c : CacheStorage) (r : Ref) : Prop := ∃ e ∈ c.recordDataCache, e.2.Mentions r

/-- The keys that have not been evicted. -/
def Has (c : CacheStorage) (key : JString) : Prop := key ∈ c.recordDataCache.map Prod.fst

instance (c : CacheStorage) (key : JString) : Decidable (Has c key) :=
  inferInstanceAs (Decidable (key ∈ c.recordDataCache.map Prod.fst))

theorem sound_nil (h : Heap ChannelBuffer) (stubs : List StubData) : Sound ⟨h, ⟨[], stubs⟩⟩ [] where
  allocated _ he := absurd he List.not_mem_nil
  value _ he := absurd he List.not_mem_nil
  recorded _ he := absurd he List.not_mem_nil
  newest_mem _ hp := by cases hp

/-- The objects that are kept have not changed, so neither has what is held. -/
theorem Sound.of_heap {h : Heap ChannelBuffer} (hw : Sound w hist) (hsize : w.heap.size ≤ h.size)
    (hsame : ∀ r, Keeps w.hidden r → h.get r = w.heap.get r) : Sound ⟨h, w.hidden⟩ hist where
  allocated e he r hr := Nat.lt_of_lt_of_le (hw.allocated e he r hr) hsize
  value e he := by
    rw [← hw.value e he]
    exact RequestResponseBundle.deref_congr fun r hr => hsame r ⟨e, he, hr⟩
  recorded := hw.recorded
  newest_mem := hw.newest_mem

/-- The list of stubs has nothing to do with it. -/
theorem Sound.of_stubs (hw : Sound w hist) (stubs : List StubData) :
    Sound ⟨w.heap, { w.hidden with stubDataCache := stubs }⟩ hist :=
  ⟨hw.allocated, hw.value, hw.recorded, hw.newest_mem⟩

/-- A put leaves some of the entries under other keys, and the new one. -/
theorem mem_put (evict : Eviction) (cache : List (JString × RequestResponseBundle Ref))
    (key : JString) (bundle : RequestResponseBundle Ref) :
    (∀ e ∈ put evict cache key bundle, (e ∈ cache ∧ e.1 ≠ key) ∨ e = (key, bundle)) ∧
      (key, bundle) ∈ put evict cache key bundle := by
  let cache' := cache.filter (fun e => !(e.1 == key)) ++ [(key, bundle)]
  have hold : ∀ e ∈ cache', (e ∈ cache ∧ e.1 ≠ key) ∨ e = (key, bundle) := by
    intro e he
    rcases List.mem_append.mp he with he | he
    · obtain ⟨hmem, hne⟩ := List.mem_filter.mp he
      exact .inl ⟨hmem, by simpa using hne⟩
    · exact .inr (List.mem_singleton.mp he)
  unfold put
  by_cases hkey : key ∈ cache.map Prod.fst
  · rw [if_pos hkey]
    exact ⟨hold, List.mem_append_right _ List.mem_cons_self⟩
  · rw [if_neg hkey]
    exact ⟨fun e he => hold e ((evict.sublist cache').subset he), evict.newest_mem _ _⟩

/-- **A put**: the entries that stay are sound, and so is the new one. -/
theorem Sound.put (evict : Eviction) {key : JString} {bundle : RequestResponseBundle Ref}
    (hw : Sound w hist) (halloc : ∀ r, bundle.Mentions r → r < w.heap.size) :
    Sound ⟨w.heap, { w.hidden with
        recordDataCache := put evict w.hidden.recordDataCache key bundle }⟩
      (hist ++ [(key, bundle.deref w.heap)]) where
  allocated e he r hr := by
    rcases (mem_put evict _ key bundle).1 e he with ⟨he, -⟩ | rfl
    · exact hw.allocated e he r hr
    · exact halloc r hr
  value e he := by
    rw [lookup_concat]
    rcases (mem_put evict _ key bundle).1 e he with ⟨he, hne⟩ | rfl
    · rw [if_neg (Ne.symm hne)]
      exact hw.value e he
    · rw [if_pos rfl]
  recorded e he := by
    rw [List.map_append]
    rcases (mem_put evict _ key bundle).1 e he with ⟨he, -⟩ | rfl
    · exact List.mem_append_left _ (hw.recorded e he)
    · exact List.mem_append_right _ (List.mem_singleton_self _)
  newest_mem p hp := by
    rw [List.getLast?_concat, Option.some.injEq] at hp
    rw [← hp]
    exact List.mem_map.mpr ⟨_, (mem_put evict _ key bundle).2, rfl⟩

/-- What the cache keeps references to after a put. -/
theorem keeps_put (evict : Eviction) (c : CacheStorage) (key : JString)
    (bundle : RequestResponseBundle Ref) (r : Ref)
    (hr : Keeps { c with recordDataCache := put evict c.recordDataCache key bundle } r) :
    Keeps c r ∨ bundle.Mentions r := by
  obtain ⟨e, he, hr⟩ := hr
  rcases (mem_put evict _ key bundle).1 e he with ⟨he, -⟩ | rfl
  · exact .inl ⟨e, he, hr⟩
  · exact .inr hr

/-- What is found under a key was put last under it. -/
theorem Sound.value_of_getIfPresent (hw : Sound w hist) {key : JString}
    {b : RequestResponseBundle Ref} (h : getIfPresent w.hidden.recordDataCache key = some b) :
    b.deref w.heap = lookup hist key := by
  obtain ⟨e, he, rfl⟩ := Option.map_eq_some_iff.mp h
  have hkey : e.1 = key := by simpa using List.find?_some he
  rw [← hkey]
  exact hw.value e (List.mem_of_find?_eq_some he)

/-- Nothing is found under a key that has no entry. -/
theorem notMem_of_getIfPresent {cache : List (JString × RequestResponseBundle Ref)} {key : JString}
    (h : getIfPresent cache key = none) : key ∉ cache.map Prod.fst := by
  intro hmem
  obtain ⟨e, he, heq⟩ := List.mem_map.mp hmem
  exact List.find?_eq_none.mp (Option.map_eq_none_iff.mp h) e he (by simpa using heq)

/-- What is found under a key, if it has not been evicted. -/
theorem Sound.getIfPresent_getD (hw : Sound w hist) (key : JString) :
    (Has w.hidden key →
      ((getIfPresent w.hidden.recordDataCache key).getD .empty).deref w.heap = lookup hist key) ∧
    (¬ Has w.hidden key → (getIfPresent w.hidden.recordDataCache key).getD .empty = .empty) := by
  cases hget : getIfPresent w.hidden.recordDataCache key with
  | none => exact ⟨fun hhas => absurd hhas (notMem_of_getIfPresent hget), fun _ => rfl⟩
  | some b =>
    refine ⟨fun _ => hw.value_of_getIfPresent hget, fun hno => absurd ?_ hno⟩
    obtain ⟨e, he, -⟩ := Option.map_eq_some_iff.mp hget
    exact List.mem_map.mpr ⟨e, List.mem_of_find?_eq_some he, by simpa using List.find?_some he⟩

/-- **`CacheStorage` is the last-write-wins map**, but for the keys it has evicted. -/
def refines (evict : Eviction) : Refines (recordStorage evict) where
  Holds := Sound
  Keeps := Keeps
  Has := Has
  keeps_lt hw hr := by
    obtain ⟨e, he, hr⟩ := hr
    exact hw.allocated e he _ hr
  holds_of_heap hw hsize hsame := hw.of_heap hsize hsame
  put hw _ halloc := ⟨_, rfl, hw.put evict halloc,
    List.mem_map.mpr ⟨_, (mem_put evict _ _ _).2, rfl⟩, keeps_put evict _ _ _⟩
  get {w hist key} hw _ := by
    obtain ⟨hhas, hno⟩ := hw.getIfPresent_getD key
    exact ⟨_, _, getRecordData_run _ _, hhas, hno, Nat.le_refl _, fun _ _ => rfl⟩

end CacheStorage

end Terminator.Storage
