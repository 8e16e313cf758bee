import Terminator.Storage.CacheStorage
import Terminator.Storage.FileStorage

/-!
# `StorageFactory`

`StorageFactory.java` builds the storage a link asks for: a `FileStorage` for `FILE`, a
`CacheStorage` for every other type. Whichever it is, **`refines`** says it is the last-write-wins
map, for the keys it `Has` not lost.
-/

namespace Terminator.Storage

open Terminator.Java Terminator.Netty

/-- `StorageType`. -/
inductive StorageType where
  | CACHE
  | FILE
  | DATABASE
  | STUBFILE
  deriving DecidableEq, Repr

/-- What a storage of the type is built with. -/
@[reducible] def StorageType.Env : StorageType → Type
  | FILE => FileEnv
  | CACHE | DATABASE | STUBFILE => CacheStorage.Eviction

/-- The state a storage of the type keeps. -/
@[reducible] def StorageType.State : StorageType → Type
  | FILE => FileStorage
  | CACHE | DATABASE | STUBFILE => CacheStorage

/-- A cache that keeps the newest entries. -/
def cacheEnv : StorageType.CACHE.Env := CacheStorage.Eviction.newest

namespace StorageFactory

/-- `getStorage(link)`. -/
def getStorage : {type : StorageType} → type.Env → RecordStorage type.State
  | .FILE, env => FileStorage.recordStorage env
  | .CACHE, evict | .DATABASE, evict | .STUBFILE, evict => CacheStorage.recordStorage evict

/-- The keys the storage has not lost: a file has all of them. -/
def Has : {type : StorageType} → type.Env → type.State → JString → Prop
  | .FILE, _ => fun _ _ => True
  | .CACHE, _ | .DATABASE, _ | .STUBFILE, _ => CacheStorage.Has

/-- Nothing has been recorded for the link; other links may have rows. -/
def Fresh : {type : StorageType} → type.Env → type.State → Prop
  | .FILE, env => fun f => FileStorage.rows env f = []
  | .CACHE, _ | .DATABASE, _ | .STUBFILE, _ => fun c => c.recordDataCache = []

/-- **Either storage is the last-write-wins map**, but for what a cache has evicted. -/
def refines : {type : StorageType} → (env : type.Env) → Refines (getStorage env)
  | .FILE, env => FileStorage.refines env
  | .CACHE, evict | .DATABASE, evict | .STUBFILE, evict => CacheStorage.refines evict

theorem has_refines {type : StorageType} (env : type.Env) : (refines env).Has = Has env := by
  cases type <;> rfl

/-- A storage that is fresh holds the empty history. -/
theorem holds_of_fresh {type : StorageType} {env : type.Env} {s : type.State} (h : Fresh env s)
    (heap : Heap ChannelBuffer) : (refines env).Holds ⟨heap, s⟩ [] := by
  have hcache : ∀ c : CacheStorage, c.recordDataCache = [] → CacheStorage.Sound ⟨heap, c⟩ [] := by
    rintro ⟨cache, stubs⟩ rfl
    exact CacheStorage.sound_nil heap stubs
  cases type with
  | FILE => exact FileStorage.holds_nil h
  | CACHE => exact hcache s h
  | DATABASE => exact hcache s h
  | STUBFILE => exact hcache s h

/-! ## The stored pairs -/

/-- The pairs that are stored. -/
def stored : {type : StorageType} → type.Env → World type.State →
    List (JString × RequestResponseBundle ChannelBuffer)
  | .FILE, env => fun w => FileStorage.stored env w.hidden
  | .CACHE, _ | .DATABASE, _ | .STUBFILE, _ => CacheStorage.stored

/-- Which put a stored pair is from: a file keeps all of them in their order, a cache the last one
with the key. -/
def From : StorageType → (stored puts : List JString) → (i j : Nat) → Prop
  | .FILE => fun _ _ i j => i = j
  | .CACHE | .DATABASE | .STUBFILE => fun stored puts i j =>
    stored[i]? = puts[j]? ∧ ∀ j', j < j' → puts[j']? ≠ puts[j]?

variable {type : StorageType} {env : type.Env} {w : World type.State} {hist : History}

/-- **A stored pair** is what was put. -/
theorem eq_of_from (hw : (refines env).Holds w hist) {i j : Nat}
    {p q : JString × RequestResponseBundle ChannelBuffer} (hp : (stored env w)[i]? = some p)
    (hq : hist[j]? = some q)
    (hfrom : From type ((stored env w).map Prod.fst) (hist.map Prod.fst) i j) : p = q := by
  have hcache : ∀ w : World CacheStorage, CacheStorage.Sound w hist →
      (CacheStorage.stored w)[i]? = some p →
      From .CACHE ((CacheStorage.stored w).map Prod.fst) (hist.map Prod.fst) i j → p = q := by
    rintro w hw hp ⟨hkey, hlast⟩
    rw [List.getElem?_map, List.getElem?_map, hp, hq, Option.map_some, Option.map_some,
      Option.some.injEq] at hkey
    obtain ⟨e, he, rfl⟩ := List.mem_map.mp (List.mem_of_getElem? hp)
    have hlook : lookup hist q.1 = q.2 := by
      refine lookup_of_last hq fun j' hj' h => hlast j' hj' ?_
      rw [h, List.getElem?_map, hq, Option.map_some]
    have hval := hw.value e he
    refine Prod.ext hkey (hval.trans ?_)
    rw [← hlook]
    exact congrArg (lookup hist) hkey
  cases type with
  | FILE =>
    have heq : FileStorage.stored env w.hidden = hist := FileStorage.Holds.stored_eq hw
    have hij : i = j := hfrom
    rw [hij] at hp
    have hp' : (FileStorage.stored env w.hidden)[j]? = some p := hp
    rw [heq, hq] at hp'
    exact (Option.some.inj hp').symm
  | CACHE => exact hcache w hw hp hfrom
  | DATABASE => exact hcache w hw hp hfrom
  | STUBFILE => exact hcache w hw hp hfrom

/-- The pair put last is stored. -/
theorem exists_from_last {q : JString × RequestResponseBundle ChannelBuffer}
    (hw : (refines env).Holds w (hist ++ [q])) :
    ∃ i p, (stored env w)[i]? = some p ∧
      From type ((stored env w).map Prod.fst) ((hist ++ [q]).map Prod.fst) i hist.length := by
  have hcache : ∀ w : World CacheStorage, CacheStorage.Sound w (hist ++ [q]) →
      ∃ i p, (CacheStorage.stored w)[i]? = some p ∧
        From .CACHE ((CacheStorage.stored w).map Prod.fst) ((hist ++ [q]).map Prod.fst) i
          hist.length := by
    intro w hw
    obtain ⟨e, he, hkey⟩ := List.mem_map.mp (hw.newest_mem q (List.getLast?_concat))
    have hmem : (e.1, e.2.deref w.heap) ∈ CacheStorage.stored w :=
      List.mem_map.mpr ⟨e, he, rfl⟩
    obtain ⟨i, hi⟩ := List.mem_iff_getElem?.mp hmem
    refine ⟨i, _, hi, ?_, fun j' hj' h => ?_⟩
    · rw [List.getElem?_map, List.getElem?_map, hi, List.getElem?_concat_length]
      simp [hkey]
    · rw [List.getElem?_map, List.getElem?_map, List.getElem?_concat_length,
        List.getElem?_eq_none (by simp; omega)] at h
      cases h
  cases type with
  | FILE =>
    have heq : FileStorage.stored env w.hidden = hist ++ [q] :=
      FileStorage.Holds.stored_eq hw
    refine ⟨hist.length, q, ?_, rfl⟩
    have : (FileStorage.stored env w.hidden)[hist.length]? = some q := by
      rw [heq, List.getElem?_concat_length]
    exact this
  | CACHE => exact hcache w hw
  | DATABASE => exact hcache w hw
  | STUBFILE => exact hcache w hw

end StorageFactory

end Terminator.Storage
