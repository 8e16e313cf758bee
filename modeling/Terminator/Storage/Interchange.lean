import Mathlib.Algebra.BigOperators.Group.Multiset.Defs
import Mathlib.Algebra.Order.Ring.Nat
import Terminator.Storage.CacheStorage
import Terminator.Storage.Database

/-!
# One storage for the other

`Storage.java` with all of its operations, and a client that calls them. The client compares what it
is told: whether a get hits and the bundle it returns, and the stubs but for their order.

A `CacheStorage` forgets what it evicts and nothing else (its `deleteRecordData` is empty), a
`FileStorage` forgets what was put before the last delete and what its data base takes for the same
key; and it returns the different conditions of a stub. Each is described by what it answers over
the client's own history (`Implements`).

**`interchangeable_iff`**: the two answer alike iff at every get what was put last under the key, if
the cache has not evicted it, is what was put last since the last delete under a key the data base
takes for it, and at every `getStubData` no stub has a condition twice.
-/

namespace Terminator.Storage

open Terminator.Java Terminator.Netty Terminator.Plugin Terminator.Run

/-- `Storage`; `hit` is what a get logs. -/
structure Operations (σ : Type) where
  putRecordData : JString → RequestResponseBundle Ref → Method (World σ) Unit
  getRecordData : JString → Method (World σ) (RequestResponseBundle Ref)
  hit : JString → σ → Bool
  deleteRecordData : Int → Method (World σ) Unit
  putStubData : StubData → Method (World σ) Nat
  getStubData : Method (World σ) (List StubData)
  deleteStubData : Nat → Method (World σ) Unit

/-! ## The two storages -/

namespace CacheStorage

/-- `CacheStorage` with `id`, the number of the stub added last. -/
structure Counted where
  storage : CacheStorage
  id : Nat

/-- A method of the cache. -/
def onStorage {α : Type} (x : Method (World CacheStorage) α) : Method (World Counted) α :=
  World.component Counted.storage (fun c w => { w with storage := c }) x

/-- `deleteRecordData`: the method has no body. -/
def deleteRecordData (_version : Int) : Method (World Counted) Unit := pure ()

/-- `putStubData`: that the list is long is only logged. -/
def putStubData (stubData : StubData) : Method (World Counted) Nat :=
  modifyGet fun w =>
    let id := w.hidden.id + 1
    (id, { w with hidden := ⟨{ w.hidden.storage with
      stubDataCache := w.hidden.storage.stubDataCache ++ [{ stubData with id := id }] }, id⟩ })

/-- `deleteStubData`: the first stub with the id. -/
def deleteStubData (id : Nat) : Method (World Counted) Unit :=
  modify fun w => { w with hidden := { w.hidden with storage := { w.hidden.storage with
    stubDataCache := w.hidden.storage.stubDataCache.eraseP fun data => data.id == id } } }

/-- `CacheStorage`. -/
def operations (evict : Eviction) : Operations Counted where
  putRecordData key bundles := onStorage (putRecordData evict key bundles)
  getRecordData key := onStorage (getRecordData key)
  hit key c := (getIfPresent c.storage.recordDataCache key).isSome
  deleteRecordData := deleteRecordData
  putStubData := putStubData
  getStubData := onStorage getStubData
  deleteStubData := deleteStubData

end CacheStorage

/-- `FileStorage` of a link. -/
def Database.operations (env : DatabaseEnv) (linkId : Nat) : Operations Database where
  putRecordData := Database.putRecordData env linkId
  getRecordData := Database.getRecordData env linkId
  hit key d := (FileStorage.selectDataIndex (env.link linkId) (d.storage linkId) key).isSome
  deleteRecordData := Database.deleteRecordData env linkId
  putStubData := Database.putStubData linkId
  getStubData := Database.getStubData env linkId
  deleteStubData := Database.deleteStubData

/-! ## The client -/

/-- What the client asks for; a stub it deletes is the one of its `j`th `putStubData`. -/
inductive Operation where
  | putRecordData (key : JString) (bundles : RequestResponseBundle ChannelBuffer)
  | getRecordData (key : JString)
  | deleteRecordData (version : Int)
  | putStubData (stubData : StubData)
  | getStubData
  | deleteStubData (j : Nat)

/-- What the client compares. -/
inductive Answer where
  | nothing
  | bundle (hit : Bool) (value : RequestResponseBundle ChannelBuffer)
  | stubs (contents : Multiset (Option Operator × Multiset StubCondition × Option JString))
  deriving DecidableEq

namespace Operation

variable {σ : Type}

/-- One operation, in the world of the storage and with the ids it has returned so far. The objects
of a bundle that is put are new ones. -/
def step (S : Operations σ) : Operation → World σ × List Nat → Answer × World σ × List Nat
  | putRecordData key bundles, (w, ids) =>
    let b := bundles.alloc w.heap
    (.nothing, after ((S.putRecordData key b.1).run ⟨b.2, w.hidden⟩), ids)
  | getRecordData key, (w, ids) =>
    match (S.getRecordData key).run w with
    | .ok bundle w' => (.bundle (S.hit key w.hidden) (bundle.deref w'.heap), w', ids)
    | .error _ w' => (.nothing, w', ids)
  | deleteRecordData version, (w, ids) =>
    (.nothing, after ((S.deleteRecordData version).run w), ids)
  | putStubData stubData, (w, ids) =>
    match (S.putStubData stubData).run w with
    | .ok id w' => (.nothing, w', ids ++ [id])
    | .error _ w' => (.nothing, w', ids)
  | getStubData, (w, ids) =>
    match S.getStubData.run w with
    | .ok stubs w' => (.stubs (stubs.map fun s => (StubTables.contents s).2 : List _), w', ids)
    | .error _ w' => (.nothing, w', ids)
  | deleteStubData j, (w, ids) =>
    match ids[j]? with
    | some id => (.nothing, after ((S.deleteStubData id).run w), ids)
    | none => (.nothing, w, ids)

section

variable {S : Operations σ} {w w' : World σ} {ids : List Nat}

theorem step_getRecordData {key : JString} {bundle : RequestResponseBundle Ref}
    (h : (S.getRecordData key).run w = .ok bundle w') :
    step S (getRecordData key) (w, ids)
      = (.bundle (S.hit key w.hidden) (bundle.deref w'.heap), w', ids) := by
  simp only [step, h]

theorem step_putStubData {stubData : StubData} {id : Nat}
    (h : (S.putStubData stubData).run w = .ok id w') :
    step S (putStubData stubData) (w, ids) = (.nothing, w', ids ++ [id]) := by
  simp only [step, h]

theorem step_deleteStubData {j id : Nat} (h : ids[j]? = some id) :
    step S (deleteStubData j) (w, ids)
      = (.nothing, after ((S.deleteStubData id).run w), ids) := by
  simp only [step, h]

theorem step_deleteStubData_none {j : Nat} (h : ids[j]? = none) :
    step S (deleteStubData j) (w, ids) = (.nothing, w, ids) := by
  simp only [step, h]

/-- A delete tells nothing. -/
theorem answer_deleteStubData (j : Nat) (s : World σ × List Nat) :
    (step S (deleteStubData j) s).1 = .nothing := by
  obtain ⟨w, ids⟩ := s
  cases h : ids[j]? with
  | none => rw [step_deleteStubData_none h]
  | some id => rw [step_deleteStubData h]

end

/-- The answers to a sequence of operations. -/
def answers (S : Operations σ) : List Operation → World σ × List Nat → List Answer
  | [], _ => []
  | op :: ops, s => (op.step S s).1 :: answers S ops (op.step S s).2

/-! ## What a storage answers -/

/-- What the client has done: all puts, the puts since the last delete, the stubs that are there
with their numbers, and how many there have been. -/
structure Past where
  puts : History
  sinceDelete : History
  stubs : List (Nat × StubData)
  count : Nat

def Past.start : Past := ⟨[], [], [], 0⟩

/-- One operation more. -/
def next : Operation → Past → Past
  | putRecordData key bundles, p =>
    { p with puts := p.puts ++ [(key, bundles)], sinceDelete := p.sinceDelete ++ [(key, bundles)] }
  | deleteRecordData _, p => { p with sinceDelete := [] }
  | putStubData stubData, p =>
    { p with stubs := p.stubs ++ [(p.count, stubData)], count := p.count + 1 }
  | deleteStubData j, p => { p with stubs := p.stubs.filter fun s => s.1 != j }
  | getRecordData _, p | getStubData, p => p

/-- What is told of a bundle that was found, or not. -/
def told (found : Option (RequestResponseBundle ChannelBuffer)) : Answer :=
  .bundle found.isSome (found.getD .empty)

/-- `S` answers `answer` over the client's past and its own state, as long as the operations are
`ok`: `R` relates the world and the past. -/
structure Implements (S : Operations σ) (ok : Operation → Past → Prop)
    (answer : Operation → World σ → Past → Answer) where
  R : World σ × List Nat → Past → Prop
  answer_eq : ∀ {s p op}, R s p → ok op p → (step S op s).1 = answer op s.1 p
  next : ∀ {s p op}, R s p → ok op p → R (step S op s).2 (next op p)

/-- One operation more, for the storage and for the client. -/
def both (S : Operations σ) (op : Operation) (x : (World σ × List Nat) × Past) :
    (World σ × List Nat) × Past :=
  ((op.step S x.1).2, op.next x.2)

/-- **Two storages answer a whole run alike** iff they answer every operation alike. -/
theorem Implements.answers_eq_iff {τ : Type} {S : Operations σ} {S' : Operations τ}
    {ok : Operation → Past → Prop} {answer : Operation → World σ → Past → Answer}
    {answer' : Operation → Past → Answer} (I : Implements S ok answer)
    (I' : Implements S' ok fun op _ p => answer' op p) {ops : List Operation}
    {s : World σ × List Nat} {s' : World τ × List Nat} {p : Past} (hR : I.R s p) (hR' : I'.R s' p)
    (hok : Meets Operation.next ok ops p) :
    answers S ops s = answers S' ops s' ↔
      Meets (both S) (fun op x => answer op x.1.1 x.2 = answer' op x.2) ops (s, p) := by
  induction ops generalizing s s' p with
  | nil => exact iff_of_true rfl trivial
  | cons op ops ih =>
    rw [answers, answers, List.cons_eq_cons, I.answer_eq hR hok.1, I'.answer_eq hR' hok.1]
    exact and_congr_right fun _ => ih (I.next hR hok.1) (I'.next hR' hok.1) hok.2

/-- The bundle put last under exactly the key. -/
def last (hist : History) (key : JString) : Option (RequestResponseBundle ChannelBuffer) :=
  (hist.reverse.find? fun p => p.1 == key).map Prod.snd

/-- What a cache has under a key: whatever was put last, unless it has evicted it. -/
def kept (c : CacheStorage) (hist : History) (key : JString) :
    Option (RequestResponseBundle ChannelBuffer) :=
  if CacheStorage.Has c key then last hist key else none

/-- What a cache answers, and the stubs as they were put. -/
def cacheAnswer : Operation → World CacheStorage.Counted → Past → Answer
  | getRecordData key, w, p => told (kept w.hidden.storage p.puts key)
  | getStubData, _, p => .stubs (p.stubs.map fun x =>
      (x.2.operator, ((x.2.conditions.getD [] : List StubCondition) : Multiset StubCondition),
        x.2.response) : List _)
  | _, _, _ => .nothing

/-- What a file and its tables answer: what was put last since the last delete under a key the data
base takes for the one asked for, and the stubs with their different conditions. -/
def fileAnswer (env : FileEnv) : Operation → Past → Answer
  | getRecordData key, p => told ((FileStorage.lastAs env p.sinceDelete key).map Prod.snd)
  | getStubData, p => .stubs (p.stubs.map fun x =>
      (x.2.operator, ((x.2.conditions.getD []).dedup : Multiset StubCondition), x.2.response) :
        List _)
  | _, _ => .nothing

/-- A stub that is put has a condition. -/
def HasCondition : Operation → Prop
  | putStubData stubData => ∃ c cs, stubData.conditions = some (c :: cs)
  | _ => True

/-- The operation asks nothing the two answer differently: under the key of a get, what was put
last since the last delete is what was put last at all and not evicted, if anything; no stub has a
condition twice. -/
def Agrees (env : FileEnv) (op : Operation)
    (x : (World CacheStorage.Counted × List Nat) × Past) : Prop :=
  match op with
  | getRecordData key => (FileStorage.lastAs env x.2.sinceDelete key).map Prod.snd
      = kept x.1.1.hidden.storage x.2.puts key
  | getStubData => ∀ y ∈ x.2.stubs, (y.2.conditions.getD []).Nodup
  | _ => True

theorem told_inj {a b : Option (RequestResponseBundle ChannelBuffer)} :
    told a = told b ↔ a = b := by
  refine ⟨fun h => ?_, fun h => by rw [h]⟩
  have h' := Answer.bundle.inj h
  cases a with
  | none =>
    cases b with
    | none => rfl
    | some b => cases h'.1
  | some a =>
    cases b with
    | none => cases h'.1
    | some b => exact congrArg some h'.2

/-- Dropping repetitions shortens some list unless none of them has one. -/
theorem sum_length_dedup_le {α : Type} (f : α → List StubCondition) (xs : List α) :
    (xs.map fun x => (f x).dedup.length).sum ≤ (xs.map fun x => (f x).length).sum := by
  induction xs with
  | nil => exact Nat.le_refl _
  | cons x xs ih =>
    rw [List.map_cons, List.sum_cons, List.map_cons, List.sum_cons]
    exact Nat.add_le_add (List.dedup_sublist (f x)).length_le ih

theorem nodup_of_sum_length_dedup {α : Type} (f : α → List StubCondition) (xs : List α)
    (h : (xs.map fun x => (f x).length).sum = (xs.map fun x => (f x).dedup.length).sum) :
    ∀ x ∈ xs, (f x).Nodup := by
  induction xs with
  | nil => exact fun x hx => absurd hx List.not_mem_nil
  | cons x xs ih =>
    rw [List.map_cons, List.sum_cons, List.map_cons, List.sum_cons] at h
    have hx := (List.dedup_sublist (f x)).length_le
    have hxs := sum_length_dedup_le f xs
    refine List.forall_mem_cons.mpr ⟨?_, ih (by omega)⟩
    have heq : (f x).dedup = f x := (List.dedup_sublist (f x)).eq_of_length (by omega)
    rw [← heq]
    exact List.nodup_dedup _

/-- **Where the two answer alike.** -/
theorem cacheAnswer_eq_iff (env : FileEnv) (op : Operation)
    (x : (World CacheStorage.Counted × List Nat) × Past) :
    cacheAnswer op x.1.1 x.2 = fileAnswer env op x.2 ↔ Agrees env op x := by
  cases op with
  | getRecordData key => exact told_inj.trans eq_comm
  | getStubData =>
    unfold cacheAnswer fileAnswer Agrees
    rw [Answer.stubs.injEq]
    constructor
    · intro h
      have hcard := congrArg (fun m => (m.map fun y => Multiset.card y.2.1).sum) h
      simp only [Multiset.map_coe, Multiset.sum_coe, List.map_map] at hcard
      exact nodup_of_sum_length_dedup (fun y : Nat × StubData => y.2.conditions.getD []) x.2.stubs
        hcard
    · intro h
      refine congrArg _ (List.map_congr_left fun y hy => ?_)
      rw [List.dedup_eq_self.mpr (h y hy)]
  | putRecordData => exact iff_of_true rfl trivial
  | deleteRecordData => exact iff_of_true rfl trivial
  | putStubData => exact iff_of_true rfl trivial
  | deleteStubData => exact iff_of_true rfl trivial

/-! ## The past -/

variable {p : Past}

/-- The stubs that are there have different numbers, below the number of the next one. -/
structure Past.Numbered (p : Past) : Prop where
  nodup : (p.stubs.map Prod.fst).Nodup
  lt : ∀ x ∈ p.stubs, x.1 < p.count

theorem Past.Numbered.next (h : p.Numbered) (op : Operation) : (op.next p).Numbered := by
  cases op with
  | putRecordData key bundles => exact ⟨h.nodup, h.lt⟩
  | getRecordData key => exact h
  | deleteRecordData version => exact ⟨h.nodup, h.lt⟩
  | getStubData => exact h
  | putStubData stubData =>
    constructor
    · rw [Operation.next, List.map_append, List.nodup_append]
      refine ⟨h.nodup, List.nodup_singleton _, fun j hj j' hj' heq => ?_⟩
      obtain ⟨x, hx, rfl⟩ := List.mem_map.mp hj
      have hlt := h.lt x hx
      rw [heq, List.mem_singleton.mp hj'] at hlt
      exact Nat.lt_irrefl _ hlt
    · intro x hx
      rcases List.mem_append.mp hx with hx | hx
      · exact Nat.lt_succ_of_lt (h.lt x hx)
      · rw [List.mem_singleton.mp hx]
        exact Nat.lt_succ_self _
  | deleteStubData j =>
    exact ⟨h.nodup.sublist (List.filter_sublist.map _),
      fun x hx => h.lt x (List.mem_of_mem_filter hx)⟩

/-- What holds of the client's operations: every stub has a condition. -/
def Ok (op : Operation) (p : Past) : Prop := op.HasCondition ∧ p.Numbered

theorem meets_ok {ops : List Operation} (hcond : ∀ op ∈ ops, op.HasCondition)
    (hp : p.Numbered) : Meets Operation.next Ok ops p := by
  induction ops generalizing p with
  | nil => trivial
  | cons op ops ih =>
    exact ⟨⟨hcond op List.mem_cons_self, hp⟩,
      ih (fun op hop => hcond op (List.mem_cons_of_mem _ hop)) (hp.next op)⟩

/-! ## The cache -/

theorem lookup_eq_last (hist : History) (key : JString) :
    lookup hist key = (last hist key).getD .empty := by
  unfold lookup last
  cases hist.reverse.find? fun p => p.1 == key <;> rfl

/-- Under a key something was put under there is a last bundle. -/
theorem last_ne_none {hist : History} {key : JString} (h : key ∈ hist.map Prod.fst) :
    last hist key ≠ none := by
  intro hnone
  obtain ⟨q, hq, hkey⟩ := List.mem_map.mp h
  exact List.find?_eq_none.mp (Option.map_eq_none_iff.mp hnone) q (List.mem_reverse.mpr hq)
    (beq_iff_eq.mpr hkey)

/-- A cache finds what was put last under a key, unless it has evicted it. -/
theorem getIfPresent_eq_kept {w : World CacheStorage} {hist : History}
    (h : CacheStorage.Sound w hist) (key : JString) :
    (CacheStorage.getIfPresent w.hidden.recordDataCache key).map
      (RequestResponseBundle.deref w.heap) = kept w.hidden hist key := by
  unfold kept
  cases hget : CacheStorage.getIfPresent w.hidden.recordDataCache key with
  | none =>
    have hno : ¬ CacheStorage.Has w.hidden key := CacheStorage.notMem_of_getIfPresent hget
    rw [if_neg hno]
    rfl
  | some b =>
    obtain ⟨e, he, -⟩ := Option.map_eq_some_iff.mp hget
    have hmem := List.mem_of_find?_eq_some he
    have hkey : e.1 = key := by simpa using List.find?_some he
    have hval := h.value_of_getIfPresent hget
    rw [lookup_eq_last] at hval
    have hhas : CacheStorage.Has w.hidden key := List.mem_map.mpr ⟨e, hmem, hkey⟩
    rw [if_pos hhas]
    cases hlast : last hist key with
    | none => exact absurd hlast (last_ne_none (hkey ▸ h.recorded e hmem))
    | some b' =>
      rw [hlast, Option.getD_some] at hval
      exact congrArg some hval

/-- The first stub with a number is the only one. -/
theorem eraseP_number (j : Nat) (xs : List (Nat × StubData)) (h : (xs.map Prod.fst).Nodup) :
    (xs.map fun x => { x.2 with id := x.1 + 1 }).eraseP (fun data => data.id == j + 1)
      = (xs.filter fun x => x.1 != j).map fun x => { x.2 with id := x.1 + 1 } := by
  induction xs with
  | nil => rfl
  | cons x xs ih =>
    rw [List.map_cons, List.nodup_cons] at h
    rw [List.map_cons]
    by_cases hx : x.1 = j
    · have hrest : xs.filter (fun x => x.1 != j) = xs := by
        refine List.filter_eq_self.mpr fun y hy => bne_iff_ne.mpr fun hyj => h.1 ?_
        rw [hx, ← hyj]
        exact List.mem_map_of_mem hy
      rw [List.eraseP_cons_of_pos (by simp [hx]), List.filter_cons_of_neg (by simp [hx]), hrest]
    · rw [List.eraseP_cons_of_neg (by simp [hx]), List.filter_cons_of_pos (by simp [hx]),
        List.map_cons, ih h.2]

/-- What the cache has was put by the client, and it has every stub. -/
structure CacheRel (s : World CacheStorage.Counted × List Nat) (p : Past) : Prop where
  sound : CacheStorage.Sound ⟨s.1.heap, s.1.hidden.storage⟩ p.puts
  id : s.1.hidden.id = p.count
  stubs : s.1.hidden.storage.stubDataCache = p.stubs.map fun x => { x.2 with id := x.1 + 1 }
  ids : s.2 = (List.range p.count).map (· + 1)

/-- The `j`th id, if there is one. -/
theorem getElem?_ids (f : Nat → Nat) (n j : Nat) :
    ((List.range n).map f)[j]? = if j < n then some (f j) else none := by
  rw [List.getElem?_map]
  by_cases h : j < n
  · rw [List.getElem?_range h, if_pos h]
    rfl
  · rw [List.getElem?_eq_none (by simpa using h), if_neg h]
    rfl

theorem range_succ_ids (f : Nat → Nat) (n : Nat) :
    (List.range (n + 1)).map f = (List.range n).map f ++ [f n] := by
  rw [List.range_succ, List.map_append]
  rfl

/-- A stub that never was cannot be deleted. -/
theorem filter_stubs_of_le (h : p.Numbered) {j : Nat} (hj : p.count ≤ j) :
    p.stubs.filter (fun x => x.1 != j) = p.stubs :=
  List.filter_eq_self.mpr fun x hx => bne_iff_ne.mpr (by have := h.lt x hx; omega)

/-- A get of the cache. -/
theorem run_getRecordData (evict : CacheStorage.Eviction) (key : JString)
    (w : World CacheStorage.Counted) : ((CacheStorage.operations evict).getRecordData key).run w
      = .ok ((CacheStorage.getIfPresent w.hidden.storage.recordDataCache key).getD .empty) w := by
  have hrun := CacheStorage.getRecordData_run key ⟨w.heap, w.hidden.storage⟩
  show (CacheStorage.onStorage (CacheStorage.getRecordData key)).run w = _
  unfold CacheStorage.onStorage
  rw [World.run_component_of_ok hrun]

/-- **A cache forgets only what it evicts.** -/
def cacheImplements (evict : CacheStorage.Eviction) :
    Implements (CacheStorage.operations evict) Ok cacheAnswer where
  R := CacheRel
  answer_eq {s p op} h _ := by
    obtain ⟨w, ids⟩ := s
    cases op with
    | putRecordData key bundles => rfl
    | deleteRecordData version => rfl
    | putStubData stubData => rfl
    | deleteStubData j => exact answer_deleteStubData j (w, ids)
    | getRecordData key =>
      have hkept := getIfPresent_eq_kept h.sound key
      have hcache : cacheAnswer (getRecordData key) w p
          = told (kept w.hidden.storage p.puts key) := rfl
      rw [step_getRecordData (run_getRecordData evict key w), hcache, ← hkept]
      have hhit : (CacheStorage.operations evict).hit key w.hidden
          = (CacheStorage.getIfPresent w.hidden.storage.recordDataCache key).isSome := rfl
      rw [hhit]
      cases CacheStorage.getIfPresent w.hidden.storage.recordDataCache key <;> rfl
    | getStubData =>
      have hanswer : step (CacheStorage.operations evict) getStubData (w, ids)
          = (.stubs (w.hidden.storage.stubDataCache.map fun s => (StubTables.contents s).2 :
              List _), w, ids) := rfl
      rw [hanswer, h.stubs, List.map_map]
      rfl
  next {s p op} h hok := by
    obtain ⟨w, ids⟩ := s
    obtain ⟨-, hnum⟩ := hok
    cases op with
    | putRecordData key bundles =>
      obtain ⟨hval, hsize, hold⟩ := bundles.alloc_spec w.heap
      have hgrown : CacheStorage.Sound ⟨(bundles.alloc w.heap).2, w.hidden.storage⟩ p.puts :=
        h.sound.of_heap hsize fun r hr => hold r ((CacheStorage.refines evict).keeps_lt h.sound hr)
      have hput : CacheStorage.Sound _ (p.puts ++ [(key, _)]) :=
        hgrown.put evict fun r hr => RequestResponseBundle.lt_of_mentions_alloc hr
      rw [hval] at hput
      exact ⟨hput, h.id, h.stubs, h.ids⟩
    | getRecordData key =>
      rw [step_getRecordData (run_getRecordData evict key w)]
      exact h
    | deleteRecordData version => exact ⟨h.sound, h.id, h.stubs, h.ids⟩
    | putStubData stubData =>
      have hid : w.hidden.id + 1 = p.count + 1 := congrArg (· + 1) h.id
      have hput : ((CacheStorage.operations evict).putStubData stubData).run w
          = .ok (w.hidden.id + 1) _ := rfl
      rw [step_putStubData hput]
      refine ⟨h.sound.of_stubs _, hid, ?_, ?_⟩
      · show w.hidden.storage.stubDataCache ++ [{ stubData with id := w.hidden.id + 1 }] = _
        rw [h.stubs, hid, Operation.next, List.map_append]
        rfl
      · show ids ++ [w.hidden.id + 1] = _
        rw [show ids = _ from h.ids, hid]
        exact (range_succ_ids (· + 1) p.count).symm
    | getStubData => exact h
    | deleteStubData j =>
      have hget : ids[j]? = if j < p.count then some (j + 1) else none := by
        rw [show ids = _ from h.ids]
        exact getElem?_ids (· + 1) p.count j
      by_cases hj : j < p.count
      · rw [if_pos hj] at hget
        rw [step_deleteStubData hget]
        refine ⟨h.sound.of_stubs _, h.id, ?_, h.ids⟩
        show w.hidden.storage.stubDataCache.eraseP _ = _
        rw [h.stubs, eraseP_number j p.stubs hnum.nodup]
        rfl
      · rw [if_neg hj] at hget
        rw [step_deleteStubData_none hget]
        refine ⟨h.sound, h.id, ?_, h.ids⟩
        rw [Operation.next, filter_stubs_of_le hnum (Nat.le_of_not_lt hj)]
        exact h.stubs

/-! ## The file and the tables -/

/-- The data base has what was put since the last delete, and every stub with its different
conditions; `base` is the number the first stub gets. -/
structure FileRel (env : DatabaseEnv) (linkId base : Nat) (s : World Database × List Nat)
    (p : Past) : Prop where
  indexed : FileStorage.Indexed (env.link linkId) (s.1.hidden.storage linkId) p.sinceDelete
  autoIncrement : s.1.hidden.stubs.autoIncrement = base + p.count
  noStray : s.1.hidden.stubs.NoStray
  visible : StubTables.visible linkId s.1.hidden.stubs = (p.stubs.map fun x =>
    (base + x.1, x.2.operator, ((x.2.conditions.getD []).dedup : Multiset StubCondition),
      x.2.response) : List _)
  ids : s.2 = (List.range p.count).map (base + ·)

/-- What a component of the data base leaves is what it reads next. -/
theorem storage_setStorage (linkId : Nat) (f : FileStorage) (d : Database) :
    (d.setStorage linkId f).storage linkId = f := by
  simp [Database.storage, Database.setStorage]

/-- A hit is a hit. -/
theorem isSome_of_rel {α β : Type} {R : α → β → Prop} {a : Option α} {b : Option β}
    (h : Option.Rel R a b) : a.isSome = b.isSome := by
  cases h <;> rfl

/-- A get of the file. -/
theorem run_getRecordData_file (env : DatabaseEnv) (linkId : Nat) (key : JString)
    (w : World Database) : ∃ bundles h,
      ((Database.operations env linkId).getRecordData key).run w
        = .ok bundles ⟨h, w.hidden.setStorage linkId (w.hidden.storage linkId)⟩ ∧
      bundles.deref h = FileStorage.read (env.link linkId) key (w.hidden.storage linkId) := by
  obtain ⟨bundles, h, hrun, hval, -, -⟩ :=
    FileStorage.getRecordData_run (env.link linkId) key ⟨w.heap, w.hidden.storage linkId⟩
  refine ⟨bundles, h, ?_, hval⟩
  show (World.component (Database.storage linkId) (Database.setStorage linkId)
    (FileStorage.getRecordData (env.link linkId) key)).run w = _
  rw [World.run_component_of_ok hrun]

/-- **A file forgets at every delete.** -/
def fileImplements (env : DatabaseEnv) (linkId base : Nat) :
    Implements (Database.operations env linkId) Ok fun op _ p =>
      fileAnswer (env.link linkId) op p where
  R := FileRel env linkId base
  answer_eq {s p op} h hok := by
    obtain ⟨w, ids⟩ := s
    cases op with
    | putRecordData key bundles => rfl
    | deleteRecordData version => rfl
    | putStubData stubData =>
      obtain ⟨c, cs, hcond⟩ := hok.1
      rw [step_putStubData (Database.putStubData_run hcond w)]
      rfl
    | deleteStubData j => exact answer_deleteStubData j (w, ids)
    | getRecordData key =>
      obtain ⟨bundles, heap, hrun, hval⟩ := run_getRecordData_file env linkId key w
      have hfile : fileAnswer (env.link linkId) (getRecordData key) p
          = told ((FileStorage.lastAs (env.link linkId) p.sinceDelete key).map Prod.snd) := rfl
      have hhit : (Database.operations env linkId).hit key w.hidden
          = (FileStorage.lastAs (env.link linkId) p.sinceDelete key).isSome :=
        isSome_of_rel (h.indexed.select key)
      have hread : FileStorage.read (env.link linkId) key (w.hidden.storage linkId)
          = FileStorage.lookupAs (env.link linkId) p.sinceDelete key := h.indexed.read key
      rw [step_getRecordData hrun, hfile, hval, hhit, hread]
      unfold told FileStorage.lookupAs
      rw [Option.isSome_map]
    | getStubData =>
      have hanswer : step (Database.operations env linkId) getStubData (w, ids)
          = (.stubs ((StubTables.selectStubData env.mapper linkId w.hidden.stubs).map
              fun s => (StubTables.contents s).2 : List _), w, ids) := rfl
      have hcontents := congrArg (Multiset.map Prod.snd)
        (StubTables.contents_selectStubData env.mapper linkId w.hidden.stubs)
      rw [h.visible, Multiset.map_coe, Multiset.map_coe, List.map_map, List.map_map] at hcontents
      rw [hanswer]
      exact congrArg Answer.stubs hcontents
  next {s p op} h hok := by
    obtain ⟨w, ids⟩ := s
    obtain ⟨hcond, hnum⟩ := hok
    cases op with
    | putRecordData key bundles =>
      obtain ⟨hval, -, -⟩ := bundles.alloc_spec w.heap
      refine ⟨?_, h.autoIncrement, h.noStray, h.visible, h.ids⟩
      show FileStorage.Indexed (env.link linkId) (Database.storage linkId
        (Database.setStorage linkId (FileStorage.put (env.link linkId) .complete key
          ((bundles.alloc w.heap).1.deref (bundles.alloc w.heap).2) (w.hidden.storage linkId))
            w.hidden)) _
      rw [storage_setStorage, hval]
      exact h.indexed.put key bundles
    | getRecordData key =>
      obtain ⟨bundles, heap, hrun, -⟩ := run_getRecordData_file env linkId key w
      rw [step_getRecordData hrun]
      refine ⟨?_, h.autoIncrement, h.noStray, h.visible, h.ids⟩
      show FileStorage.Indexed (env.link linkId) (Database.storage linkId
        (Database.setStorage linkId (w.hidden.storage linkId) w.hidden)) _
      rw [storage_setStorage]
      exact h.indexed
    | deleteRecordData version =>
      refine ⟨?_, h.autoIncrement, h.noStray, h.visible, h.ids⟩
      show FileStorage.Indexed (env.link linkId) (Database.storage linkId
        (Database.setStorage linkId (FileStorage.deleteFile
          (FileStorage.deleteDataIndex (env.link linkId) (w.hidden.storage linkId))) w.hidden)) []
      rw [storage_setStorage]
      exact FileStorage.indexed_nil (FileStorage.rows_deleteDataIndex _ _)
    | putStubData stubData =>
      obtain ⟨c, cs, hconditions⟩ := hcond
      rw [step_putStubData (Database.putStubData_run hconditions w)]
      have hnext : w.hidden.stubs.autoIncrement = base + p.count := h.autoIncrement
      have hvisible : StubTables.visible linkId w.hidden.stubs = _ := h.visible
      refine ⟨h.indexed, ?_, h.noStray.insertStub linkId stubData (c :: cs), ?_, ?_⟩
      · rw [StubTables.autoIncrement_insertStub]
        exact congrArg (· + 1) hnext
      · show StubTables.visible linkId (StubTables.insertStubConditions _ _ _) = _
        rw [StubTables.visible_insertStub_self h.noStray linkId stubData (List.cons_ne_nil c cs),
          hvisible, hnext, Operation.next, List.map_append, ← Multiset.coe_add, List.map_singleton,
          hconditions]
        rfl
      · show ids ++ [w.hidden.stubs.autoIncrement] = _
        rw [show ids = _ from h.ids, hnext]
        exact (range_succ_ids (base + ·) p.count).symm
    | getStubData => exact h
    | deleteStubData j =>
      have hget : ids[j]? = if j < p.count then some (base + j) else none := by
        rw [show ids = _ from h.ids]
        exact getElem?_ids (base + ·) p.count j
      by_cases hj : j < p.count
      · rw [if_pos hj] at hget
        rw [step_deleteStubData hget]
        refine ⟨h.indexed, h.autoIncrement, h.noStray.deleteStub (base + j), ?_, h.ids⟩
        have hvisible : StubTables.visible linkId w.hidden.stubs = _ := h.visible
        refine (StubTables.visible_deleteStub linkId (base + j) w.hidden.stubs).trans ?_
        rw [hvisible, Multiset.filter_coe, List.filter_map, Operation.next]
        refine congrArg _ (congrArg _ (List.filter_congr fun x _ => ?_))
        by_cases hx : x.1 = j <;> simp [hx]
      · rw [if_neg hj] at hget
        rw [step_deleteStubData_none hget]
        refine ⟨h.indexed, h.autoIncrement, h.noStray, ?_, h.ids⟩
        rw [Operation.next, filter_stubs_of_le hnum (Nat.le_of_not_lt hj)]
        exact h.visible

/-! ## The two together -/

/-- The link has neither records nor stubs; other links may. -/
structure Fresh (linkId : Nat) (d : Database) : Prop where
  rows : ∀ row ∈ d.data_index, row.linkId ≠ linkId
  stubs : ∀ a ∈ d.stubs.stub_data, a.linkId ≠ linkId
  noStray : d.stubs.NoStray

theorem fileRel_start (env : DatabaseEnv) {linkId : Nat} {d : Database} (h : Fresh linkId d)
    (heap : Heap ChannelBuffer) :
    FileRel env linkId d.stubs.autoIncrement (⟨heap, d⟩, []) .start where
  indexed := by
    refine FileStorage.indexed_nil (List.filter_eq_nil_iff.mpr fun row hrow => ?_)
    rw [beq_iff_eq]
    exact h.rows row hrow
  autoIncrement := rfl
  noStray := h.noStray
  visible := by
    unfold StubTables.visible
    rw [List.filter_eq_nil_iff.mpr]
    · rfl
    · intro a ha
      rw [Bool.and_eq_true, beq_iff_eq]
      exact fun hlink => h.stubs a ha hlink.1
  ids := rfl

theorem cacheRel_start (heap : Heap ChannelBuffer) :
    CacheRel (⟨heap, ⟨⟨[], []⟩, 0⟩⟩, []) .start :=
  ⟨CacheStorage.sound_nil heap [], rfl, rfl, rfl⟩

/-- **When the storages are interchangeable.** -/
theorem interchangeable_iff (evict : CacheStorage.Eviction) (env : DatabaseEnv) {linkId : Nat}
    {d : Database} (hd : Fresh linkId d) (heap heap' : Heap ChannelBuffer) {ops : List Operation}
    (hcond : ∀ op ∈ ops, op.HasCondition) :
    answers (CacheStorage.operations evict) ops (⟨heap, ⟨⟨[], []⟩, 0⟩⟩, [])
        = answers (Database.operations env linkId) ops (⟨heap', d⟩, []) ↔
      Meets (both (CacheStorage.operations evict)) (Agrees (env.link linkId)) ops
        ((⟨heap, ⟨⟨[], []⟩, 0⟩⟩, []), .start) := by
  have hnum : Past.start.Numbered := ⟨List.nodup_nil, fun x hx => absurd hx List.not_mem_nil⟩
  have hagrees : Agrees (env.link linkId) = fun op x =>
      cacheAnswer op x.1.1 x.2 = fileAnswer (env.link linkId) op x.2 := by
    funext op x
    exact propext (cacheAnswer_eq_iff (env.link linkId) op x).symm
  rw [hagrees]
  exact (cacheImplements evict).answers_eq_iff (fileImplements env linkId d.stubs.autoIncrement)
    (cacheRel_start heap) (fileRel_start env hd heap') (meets_ok hcond hnum)

/-- A put, a delete and a get. -/
def putDeleteGet : List Operation :=
  [putRecordData (lit "a") ⟨some (.request (.get "a")), none⟩, deleteRecordData 0,
    getRecordData (lit "a")]

/-- A data base without rows. -/
def noRows : Database := ⟨fun _ => none, [], 1, .empty⟩

/-- The cache still has the bundle, the file has not. -/
theorem answers_putDeleteGet_ne :
    answers (CacheStorage.operations .newest) putDeleteGet (⟨⟨[]⟩, ⟨⟨[], []⟩, 0⟩⟩, [])
      ≠ answers (Database.operations Database.plainEnv 1) putDeleteGet (⟨⟨[]⟩, noRows⟩, []) := by
  decide +kernel

theorem fresh_noRows : Fresh 1 noRows :=
  ⟨fun _ h => absurd h List.not_mem_nil, fun _ h => absurd h List.not_mem_nil,
    fun _ h => absurd h List.not_mem_nil⟩

/-- Both directions at that run. -/
theorem interchangeable_putDeleteGet :
    answers (CacheStorage.operations .newest) putDeleteGet (⟨⟨[]⟩, ⟨⟨[], []⟩, 0⟩⟩, [])
        = answers (Database.operations Database.plainEnv 1) putDeleteGet (⟨⟨[]⟩, noRows⟩, []) ↔
      Meets (both (CacheStorage.operations .newest)) (Agrees (Database.plainEnv.link 1))
        putDeleteGet ((⟨⟨[]⟩, ⟨⟨[], []⟩, 0⟩⟩, []), .start) :=
  interchangeable_iff .newest Database.plainEnv fresh_noRows ⟨[]⟩ ⟨[]⟩
    (by simp [putDeleteGet, HasCondition])

end Operation

end Terminator.Storage
