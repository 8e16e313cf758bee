import Terminator.Manager.Moves
import Terminator.Run.Invariant
import Terminator.Storage.Interchange

/-!
# The storage of a link

`BaseLinkService.java`, `StubServiceImpl.java` and `RecordServiceImpl.java`, beside the handlers of
the servers. A handler calls the storage of the `Link` object its server was built with; a request
to the stubs or records of a link calls the storage of the object in `linkIdLinkMap`. Every start
builds a new object with a new storage: a `CacheStorage` is empty then, a `FileStorage` works on
what all links share on the disk. `Kinds` is what the storages do with a call, and `kinds` what
`CacheStorage` and `FileStorage` do.

**`answers_storages`**: over any requests to the manager, restarts of the process, calls of handlers
and requests to the services, it is as if each link had one storage of its own: handlers and
services call the same one, a cache from the start of the link to its stop, the disk for ever.
-/

namespace Terminator.Manager.Storages

open Terminator.Java Terminator.Run Terminator.Storage

/-- What storages do with a call: a `CacheStorage`, from the empty one on, and the `FileStorage` of
a link, over what is on the disk. -/
structure Kinds (ω ρ γ δ : Type) where
  emptyCache : γ
  cache : ω → γ → ρ × γ
  file : Nat → ω → δ → ρ × δ

/-- A process: the manager, what the cache of each `Link` object holds, and the disk. -/
structure Process (γ δ : Type) where
  control : LinkControl
  caches : Ref → γ
  disk : δ

section Methods

variable {ω ρ γ δ : Type} (K : Kinds ω ρ γ δ)

/-- A call of `link.getStorage()`. -/
def callStorage (l : Ref) (op : ω) : Method (Process γ δ) ρ := fun s =>
  match (s.control.links.get l).storage, (s.control.links.get l).id with
  | some .CACHE, _ =>
    let r := K.cache op (s.caches l)
    .ok r.1 { s with caches := Function.update s.caches l r.2 }
  | some .FILE, some linkId =>
    let r := K.file linkId op s.disk
    .ok r.1 { s with disk := r.2 }
  | _, _ => .error .nullPointer s

/-- `BaseLinkService.getLink`, which is `LinkControlServiceImpl.getLink`. -/
def getLink (linkId : Nat) : Method (Process γ δ) (Option Ref) := do
  return (← get).control.linkIdLinkMap linkId

/-- `checkLinkStatus`. -/
def checkLinkStatus (linkId : Nat) (status : ServerStatus) : Method (Process γ δ) Unit := do
  let link ← getLink linkId
  match status with
  | .running => if link = none then throw .linkStatus
  | .stopped => if link ≠ none then throw .linkStatus

/-- `getActiveStorage`, as the `Link` object it takes the storage of. -/
def getActiveStorage (linkId : Nat) : Method (Process γ δ) Ref := do
  checkLinkStatus linkId .running
  match ← getLink linkId with
  | none => throw .nullPointer
  | some l => return l

/-- `StubServiceImpl.getStubData`, `addStubData` and `deleteStubData`, by the call they make. -/
def stubService (linkId : Nat) (op : ω) : Method (Process γ δ) ρ := do
  let l ← getActiveStorage linkId
  callStorage K l op

/-- `RecordServiceImpl.deleteRecord`. -/
def deleteRecord (linkId : Nat) (op : ω) : Method (Process γ δ) ρ := do
  match ← getLink linkId with
  | none => throw .linkStatus
  | some l => callStorage K l op

end Methods

/-! ## Runs -/

/-- What happens to the process. -/
inductive Event (ω : Type) where
  | manage (op : Operation)
  | restart
  /-- A handler of the server calls its storage. -/
  | message (linkId : Nat) (op : ω)
  | stub (linkId : Nat) (op : ω)
  | record (linkId : Nat) (op : ω)

/-- What a call comes to. -/
def answer {σ ρ : Type} : EStateM.Result Throwable σ ρ → Except Throwable ρ
  | .ok r _ => .ok r
  | .error e _ => .error e

/-- The manager of a new process. -/
def bootControl (table : LinkTable) : LinkControl := { newManager with table := table }

section Runs

variable {ω ρ γ δ : Type} (K : Kinds ω ρ γ δ) (register : ProtocolRegister)

/-- A new process. -/
def boot (table : LinkTable) (disk : δ) : Process γ δ :=
  ⟨bootControl table, fun _ => K.emptyCache, disk⟩

/-- The call an event makes. -/
def Event.call : Event ω → Process γ δ → Option (Method (Process γ δ) ρ)
  | .manage _, _ | .restart, _ => none
  | .message linkId op, s =>
    (s.control.linkIdServerMap linkId).map fun q => callStorage K (s.control.servers.get q).link op
  | .stub linkId op, _ => some (stubService K linkId op)
  | .record linkId op, _ => some (deleteRecord K linkId op)

/-- The process after an event. -/
def step (e : Event ω) (s : Process γ δ) : Process γ δ :=
  match e with
  | .manage op => { s with control := Manager.step register op s.control }
  | .restart => boot K s.control.table s.disk
  | e => match e.call K s with
    | none => s
    | some m => after (m.run s)

/-- What its call comes to. -/
def answers (e : Event ω) (s : Process γ δ) : List (Except Throwable ρ) :=
  match e.call K s with
  | none => []
  | some m => [answer (m.run s)]

end Runs

/-! ## One storage for each link -/

/-- The manager, one cache for each link, and the disk. -/
structure PerLink (γ δ : Type) where
  control : LinkControl
  memory : Nat → γ
  disk : δ

section Spec

variable {ω ρ γ δ : Type} (K : Kinds ω ρ γ δ) (register : ProtocolRegister)

def PerLink.boot (table : LinkTable) (disk : δ) : PerLink γ δ :=
  ⟨bootControl table, fun _ => K.emptyCache, disk⟩

/-- A call of the storage of a link. -/
def PerLink.access (linkId : Nat) (op : ω) : Method (PerLink γ δ) ρ := fun p =>
  match p.control.running linkId with
  | none => .error .linkStatus p
  | some link =>
    if link.storage = some .FILE then
      let r := K.file linkId op p.disk
      .ok r.1 { p with disk := r.2 }
    else
      let r := K.cache op (p.memory linkId)
      .ok r.1 { p with memory := Function.update p.memory linkId r.2 }

/-- A request to the manager: a link that starts has an empty cache. -/
def PerLink.manage (op : Operation) (p : PerLink γ δ) : PerLink γ δ :=
  let control := Manager.step register op p.control
  { p with
    control := control
    memory := fun id =>
      if (p.control.running id).isNone && (control.running id).isSome then K.emptyCache
      else p.memory id }

/-- The call an event makes. -/
def PerLink.call : Event ω → PerLink γ δ → Option (Method (PerLink γ δ) ρ)
  | .manage _, _ | .restart, _ => none
  | .message linkId op, p =>
    if (p.control.running linkId).isSome then some (PerLink.access K linkId op) else none
  | .stub linkId op, _ | .record linkId op, _ => some (PerLink.access K linkId op)

def PerLink.step (e : Event ω) (p : PerLink γ δ) : PerLink γ δ :=
  match e with
  | .manage op => p.manage K register op
  | .restart => PerLink.boot K p.control.table p.disk
  | e => match PerLink.call K e p with
    | none => p
    | some m => after (m.run p)

def PerLink.answers (e : Event ω) (p : PerLink γ δ) : List (Except Throwable ρ) :=
  match PerLink.call K e p with
  | none => []
  | some m => [answer (m.run p)]

end Spec

/-! ## What a request to the services reaches -/

section Services

variable {ω ρ γ δ : Type} {K : Kinds ω ρ γ δ} {linkId : Nat} {s : Process γ δ}

theorem checkLinkStatus_running_run_of_none (h : s.control.linkIdLinkMap linkId = none) :
    (checkLinkStatus linkId .running).run s = .error .linkStatus s := by
  change (if s.control.linkIdLinkMap linkId = none then throw .linkStatus
    else pure () : Method (Process γ δ) Unit).run s = _
  rw [if_pos h]
  rfl

theorem checkLinkStatus_running_run_of_some {l : Ref}
    (h : s.control.linkIdLinkMap linkId = some l) :
    (checkLinkStatus linkId .running).run s = .ok () s := by
  change (if s.control.linkIdLinkMap linkId = none then throw .linkStatus
    else pure () : Method (Process γ δ) Unit).run s = _
  rw [h, if_neg (Option.some_ne_none l)]
  rfl

theorem getLink_run (linkId : Nat) (s : Process γ δ) :
    (getLink linkId).run s = .ok (s.control.linkIdLinkMap linkId) s := rfl

/-- No request to a link without an object gets through. -/
theorem services_run_of_none (op : ω) (h : s.control.linkIdLinkMap linkId = none) :
    (stubService K linkId op).run s = .error .linkStatus s ∧
      (deleteRecord K linkId op).run s = .error .linkStatus s := by
  constructor
  · unfold stubService getActiveStorage
    exact run_bind_of_error (run_bind_of_error (checkLinkStatus_running_run_of_none h))
  · unfold deleteRecord
    rw [run_bind_of_ok (getLink_run linkId s), h]
    rfl

/-- The services call the storage of the object they find. -/
theorem services_run_of_some {l : Ref} (op : ω) (h : s.control.linkIdLinkMap linkId = some l) :
    (stubService K linkId op).run s = (callStorage K l op).run s ∧
      (deleteRecord K linkId op).run s = (callStorage K l op).run s := by
  constructor
  · have hactive : (getActiveStorage linkId).run s = .ok l s := by
      unfold getActiveStorage
      rw [run_bind_of_ok (checkLinkStatus_running_run_of_some h),
        run_bind_of_ok (getLink_run linkId s), h]
      rfl
    exact run_bind_of_ok hactive
  · unfold deleteRecord
    rw [run_bind_of_ok (getLink_run linkId s), h]

end Services

/-! ## What a request to the manager does to the objects -/

/-- How an id's object changes. -/
inductive Relinks (s s' : LinkControl) (id : Nat) : Prop where
  | kept (h : s'.linkIdLinkMap id = s.linkIdLinkMap id)
  | removed (h : s'.linkIdLinkMap id = none)
  | started {l : Ref} (hnone : s.linkIdLinkMap id = none) (hl : s'.linkIdLinkMap id = some l)
      (hfresh : s.links.size ≤ l)

section Objects

variable {register : ProtocolRegister} {s : LinkControl}

/-- **An id gets a new object, or none, or keeps the one it has.** -/
theorem step_relinks (register : ProtocolRegister) (h : ∀ id, Owned s id) (op : Operation) :
    s.links.size ≤ (Manager.step register op s).links.size ∧
      ∀ id, Relinks s (Manager.step register op s) id := by
  have halloc : ∀ link, s.links.size ≤ (s.links.alloc link).2.size := fun link =>
    Nat.le_of_lt (Heap.size_lt_size_alloc _ _)
  cases op with
  | addLink form => exact ⟨Nat.le_refl _, fun _ => .kept rfl⟩
  | updateLink linkId form => exact ⟨Nat.le_refl _, fun _ => .kept rfl⟩
  | deleteLink linkId => exact ⟨Nat.le_refl _, fun _ => .kept rfl⟩
  | startServer linkId up =>
    have hstarts := startServer_starts register up s linkId
    change s.links.size ≤ (after ((startServer register up linkId).run s)).links.size ∧
      ∀ id, Relinks s (after ((startServer register up linkId).run s)) id
    generalize (startServer register up linkId).run s = result at hstarts
    cases hstarts with
    | absent => exact ⟨Nat.le_refl _, fun _ => .kept rfl⟩
    | again => exact ⟨halloc _, fun _ => .kept rfl⟩
    | failed e link' servers => exact ⟨halloc _, fun _ => .kept rfl⟩
    | opened hlink hq =>
      refine ⟨halloc _, fun id => ?_⟩
      by_cases hid : id = linkId
      · subst hid
        exact .started ((h id).of_no_server hq) (Function.update_self _ _ _) (Nat.le_refl _)
      · exact .kept (Function.update_of_ne hid _ _)
  | stopServer linkId stops =>
    have hstops := stopServer_stops stops s linkId
    change s.links.size ≤ (after ((stopServer stops linkId).run s)).links.size ∧
      ∀ id, Relinks s (after ((stopServer stops linkId).run s)) id
    generalize (stopServer stops linkId).run s = result at hstops
    have hremoved : ∀ {s' : LinkControl},
        s'.linkIdLinkMap = Function.update s.linkIdLinkMap linkId none →
        ∀ id, Relinks s s' id := by
      intro s' hmap id
      by_cases hid : id = linkId
      · subst hid
        exact .removed (by rw [hmap, Function.update_self])
      · exact .kept (by rw [hmap, Function.update_of_ne hid])
    cases hstops with
    | absent => exact ⟨Nat.le_refl _, fun _ => .kept rfl⟩
    | failed => exact ⟨halloc _, fun _ => .kept rfl⟩
    | again => exact ⟨halloc _, hremoved rfl⟩
    | closed => exact ⟨halloc _, hremoved rfl⟩
  | changeWorkMode linkId mode =>
    have hchanges := changeWorkMode_changes mode s linkId
    change s.links.size ≤ (after ((changeWorkMode mode linkId).run s)).links.size ∧
      ∀ id, Relinks s (after ((changeWorkMode mode linkId).run s)) id
    generalize (changeWorkMode mode linkId).run s = result at hchanges
    have hsize : ∀ q, (modeLinks s mode q).size = s.links.size := fun q => Heap.size_set _ _ _
    cases hchanges with
    | refused => exact ⟨Nat.le_refl _, fun _ => .kept rfl⟩
    | @gone q => exact ⟨Nat.le_of_eq (hsize q).symm, fun _ => .kept rfl⟩
    | @changed link q =>
      refine ⟨?_, fun _ => .kept rfl⟩
      rw [after_ok, Heap.size_alloc, hsize q]
      exact Nat.le_succ _

/-- Every link that runs has a storage: one of the two that `StorageFactory` builds. -/
def HaveStorage (running : Nat → Option Link) : Prop :=
  ∀ id link, running id = some link → link.storage = some .CACHE ∨ link.storage = some .FILE

theorem storage_configured (signer extractor : JString) (link : Link) :
    (link.configured signer extractor).storage = some .CACHE ∨
      (link.configured signer extractor).storage = some .FILE := by
  change some (storageOf link.storageType) = _ ∨ some (storageOf link.storageType) = _
  unfold storageOf
  split
  · exact .inr rfl
  · exact .inl rfl

/-- A link is configured when it is started, and a change of its mode leaves its storage. -/
theorem haveStorage_moves {t t' : LinkTable} {running running' : Nat → Option Link}
    {op : Operation} (h : HaveStorage running)
    (hmoves : Moves register t running op t' running') : HaveStorage running' := by
  have hupdate : ∀ (id : Nat) (link : Link),
      (link.storage = some .CACHE ∨ link.storage = some .FILE) →
      HaveStorage (Function.update running id (some link)) := by
    intro id link hstorage id' link' hlink'
    by_cases hid : id' = id
    · rw [hid, Function.update_self] at hlink'
      rwa [← Option.some.inj hlink']
    · rw [Function.update_of_ne hid] at hlink'
      exact h id' link' hlink'
  cases hmoves with
  | addLink | updateLink | deleteLink | startIdle | startAgain | stopIdle | stopAgain |
    changeIdle => exact h
  | @start id up link plugins =>
    exact hupdate id _ (storage_configured plugins.1 plugins.2 link)
  | @stop id =>
    intro id' link' hlink'
    by_cases hid : id' = id
    · rw [hid, Function.update_self] at hlink'
      cases hlink'
    · rw [Function.update_of_ne hid] at hlink'
      exact h id' link' hlink'
  | @changeGone id mode link hrunning =>
    have hstorage := h id link hrunning
    exact hupdate id _ hstorage
  | @change id mode link _ hrunning =>
    have hstorage := h id link hrunning
    exact hupdate id _ hstorage

end Objects

/-! ## Refinement -/

section Refinement

variable {ω ρ γ δ : Type} {K : Kinds ω ρ γ δ} {s s' : Process γ δ} {p : PerLink γ δ}

/-- The cache of a link is that of its object, and an object that is not built yet has none. -/
structure Sim (K : Kinds ω ρ γ δ) (s : Process γ δ) (p : PerLink γ δ) : Prop where
  control : p.control = s.control
  disk : p.disk = s.disk
  owned : ∀ id, Owned s.control id
  storage : HaveStorage s.control.running
  memory : ∀ id l, s.control.linkIdLinkMap id = some l → s.caches l = p.memory id
  fresh : ∀ l, s.control.links.size ≤ l → s.caches l = K.emptyCache

theorem sim_boot (K : Kinds ω ρ γ δ) (table : LinkTable) (disk : δ) :
    Sim K (boot K table disk) (PerLink.boot K table disk) where
  control := rfl
  disk := rfl
  owned := owned_of_emptyMaps fun _ => ⟨rfl, rfl⟩
  storage _ _ h := by cases h
  memory _ _ h := by cases h
  fresh _ _ := rfl

/-- What a call of a running link's storage comes to, on both levels: the answer `r`, and the states
`s'` and `p'`. -/
def Calls (K : Kinds ω ρ γ δ) (s : Process γ δ) (p : PerLink γ δ) (l : Ref) (id : Nat) (op : ω) :
    Prop :=
  ∃ r s' p', (callStorage K l op).run s = .ok r s' ∧ (PerLink.access K id op).run p = .ok r p' ∧
    Sim K s' p'

/-- **The storage of an object is that of its link.** -/
theorem Sim.calls (h : Sim K s p) {id : Nat} {l : Ref}
    (hl : s.control.linkIdLinkMap id = some l) (op : ω) : Calls K s p l id op := by
  cases h.owned id with
  | unregistered _ hnone =>
    rw [hnone] at hl
    cases hl
  | @registered q l' hq hl' hq_lt hl_lt hserver hid =>
    obtain rfl := Option.some.inj (hl'.symm.trans hl)
    have hrunning := running_of_server hq hserver
    have hp : p.control.running id = some (s.control.links.get l') := by rw [h.control, hrunning]
    have hstorage := h.storage id _ hrunning
    rcases hstorage with htype | htype
    · refine ⟨(K.cache op (s.caches l')).1,
        { s with caches := Function.update s.caches l' (K.cache op (s.caches l')).2 },
        { p with memory := Function.update p.memory id (K.cache op (s.caches l')).2 },
        ?_, ?_, h.control, h.disk, h.owned, h.storage, ?_, ?_⟩
      · change callStorage K l' op s = _
        simp only [callStorage, htype]
      · change PerLink.access K id op p = _
        simp only [PerLink.access, hp, htype, ← h.memory id l' hl]
        rfl
      · intro id' l'' hl''
        dsimp only at hl'' ⊢
        by_cases heq : id' = id
        · rw [heq] at hl'' ⊢
          obtain rfl := Option.some.inj (hl'.symm.trans hl'')
          rw [Function.update_self, Function.update_self]
        · -- two links never share an object
          have hne : l'' ≠ l' := by
            rintro rfl
            cases h.owned id' with
            | unregistered _ hnone =>
              rw [hnone] at hl''
              cases hl''
            | @registered q' l'' _ hl0 _ _ _ hid' =>
              obtain rfl := Option.some.inj (hl0.symm.trans hl'')
              exact heq (Option.some.inj (hid'.symm.trans hid))
          rw [Function.update_of_ne hne, Function.update_of_ne heq]
          exact h.memory id' l'' hl''
      · intro l'' hfresh
        have hne : l'' ≠ l' := Nat.ne_of_gt (Nat.lt_of_lt_of_le hl_lt hfresh)
        dsimp only
        rw [Function.update_of_ne hne]
        exact h.fresh l'' hfresh
    · refine ⟨(K.file id op s.disk).1, { s with disk := (K.file id op s.disk).2 },
        { p with disk := (K.file id op s.disk).2 }, ?_, ?_, h.control, rfl, h.owned, h.storage,
        h.memory, h.fresh⟩
      · change callStorage K l' op s = _
        simp only [callStorage, htype, hid]
      · change PerLink.access K id op p = _
        simp only [PerLink.access, hp, htype, h.disk]
        rfl

/-- The links with an object are those that run. -/
theorem linkMap_eq_none_iff {c : LinkControl} {id : Nat} (h : Owned c id) :
    c.linkIdLinkMap id = none ↔ c.running id = none := by
  cases h with
  | unregistered hq hl => exact iff_of_true hl (running_eq_none_iff.mpr hq)
  | registered hq hl _ _ hserver =>
    rw [hl, running_of_server hq hserver]
    exact iff_of_false (Option.some_ne_none _) (Option.some_ne_none _)

/-- **A request to the manager** leaves each cache with its link. -/
theorem Sim.manage (h : Sim K s p) (register : ProtocolRegister) (op : Operation) :
    Sim K { s with control := Manager.step register op s.control } (p.manage K register op) := by
  obtain ⟨howned, hmoves⟩ := step_moves register h.owned op
  obtain ⟨hsize, hrelinks⟩ := step_relinks register h.owned op
  refine ⟨by rw [PerLink.manage, h.control], h.disk, howned, haveStorage_moves h.storage hmoves,
    fun id l hl => ?_, fun l hl => h.fresh l (Nat.le_trans hsize hl)⟩
  dsimp only at hl
  rw [PerLink.manage, h.control]
  dsimp only
  cases hrelinks id with
  | kept hkept =>
    rw [hkept] at hl
    have hruns : s.control.running id ≠ none := fun hnone => by
      rw [(linkMap_eq_none_iff (h.owned id)).mpr hnone] at hl
      cases hl
    have hisNone : (s.control.running id).isNone = false :=
      Option.isNone_eq_false_iff.mpr (Option.isSome_iff_ne_none.mpr hruns)
    rw [hisNone, Bool.false_and, if_neg Bool.false_ne_true]
    exact h.memory id l hl
  | removed hremoved =>
    rw [hremoved] at hl
    cases hl
  | started hnone hl' hfresh =>
    have hstopped := (linkMap_eq_none_iff (h.owned id)).mp hnone
    have hruns : ((Manager.step register op s.control).running id).isSome := by
      rw [Option.isSome_iff_ne_none]
      intro hnone'
      rw [(linkMap_eq_none_iff (howned id)).mpr hnone'] at hl'
      cases hl'
    obtain rfl := Option.some.inj (hl'.symm.trans hl)
    rw [hstopped, hruns, Option.isNone_none, Bool.true_and, if_pos rfl]
    exact h.fresh _ hfresh

/-- A call on both levels: the same answer, and related states. -/
def Agree (K : Kinds ω ρ γ δ) (s : Process γ δ) (p : PerLink γ δ) (m : Method (Process γ δ) ρ)
    (m' : Method (PerLink γ δ) ρ) : Prop :=
  Sim K (after (m.run s)) (after (m'.run p)) ∧ answer (m.run s) = answer (m'.run p)

theorem Calls.agree {l : Ref} {id : Nat} {op : ω} {m : Method (Process γ δ) ρ}
    (h : Calls K s p l id op) (hm : m.run s = (callStorage K l op).run s) :
    Agree K s p m (PerLink.access K id op) := by
  obtain ⟨r, s', p', hrun, hrun', hsim⟩ := h
  rw [Agree, hm, hrun, hrun']
  exact ⟨hsim, rfl⟩

/-- A request to the services. -/
theorem Sim.agree_services (h : Sim K s p) (id : Nat) (op : ω) :
    Agree K s p (stubService K id op) (PerLink.access K id op) ∧
      Agree K s p (deleteRecord K id op) (PerLink.access K id op) := by
  cases hl : s.control.linkIdLinkMap id with
  | none =>
    obtain ⟨hstub, hrecord⟩ := services_run_of_none (K := K) op hl
    have haccess : (PerLink.access K id op).run p = .error .linkStatus p := by
      have hstopped := (linkMap_eq_none_iff (h.owned id)).mp hl
      change PerLink.access K id op p = _
      simp only [PerLink.access, h.control, hstopped]
    rw [Agree, Agree, hstub, hrecord, haccess]
    exact ⟨⟨h, rfl⟩, h, rfl⟩
  | some l =>
    obtain ⟨hstub, hrecord⟩ := services_run_of_some (K := K) op hl
    exact ⟨(h.calls hl op).agree hstub, (h.calls hl op).agree hrecord⟩

/-- **One event**: the states stay related, and the answers agree. -/
theorem Sim.step (h : Sim K s p) (register : ProtocolRegister) (e : Event ω) :
    Sim K (step K register e s) (PerLink.step K register e p) ∧
      answers K e s = PerLink.answers K e p := by
  cases e with
  | manage op => exact ⟨h.manage register op, rfl⟩
  | restart =>
    refine ⟨?_, rfl⟩
    rw [Storages.step, PerLink.step, h.control, h.disk]
    exact sim_boot K _ _
  | stub id op =>
    obtain ⟨hsim, hanswer⟩ := (h.agree_services id op).1
    exact ⟨hsim, congrArg (fun a => [a]) hanswer⟩
  | record id op =>
    obtain ⟨hsim, hanswer⟩ := (h.agree_services id op).2
    exact ⟨hsim, congrArg (fun a => [a]) hanswer⟩
  | message id op =>
    cases hq : s.control.linkIdServerMap id with
    | none =>
      have hcall : (Event.message id op).call K s = none := by rw [Event.call, hq, Option.map_none]
      have hcall' : PerLink.call K (.message id op) p = none := by
        rw [PerLink.call, h.control, running_eq_none_iff.mpr hq]
        rfl
      simp only [Storages.step, PerLink.step, answers, PerLink.answers, hcall, hcall']
      exact ⟨h, trivial⟩
    | some q =>
      obtain ⟨l, hl, -, -, hserver, -⟩ := (h.owned id).of_server hq
      have hcall : (Event.message id op).call K s = some (callStorage K l op) := by
        rw [Event.call, hq, Option.map_some, hserver]
      have hcall' : PerLink.call K (.message id op) p = some (PerLink.access K id op) := by
        rw [PerLink.call, h.control, running_of_server hq hserver]
        rfl
      obtain ⟨hsim, hanswer⟩ := (h.calls hl op).agree rfl
      simp only [Storages.step, PerLink.step, answers, PerLink.answers, hcall, hcall']
      exact ⟨hsim, congrArg (fun a => [a]) hanswer⟩

/-- Whatever happens, all calls come to the same on both levels. -/
theorem answers_eq (K : Kinds ω ρ γ δ) (register : ProtocolRegister) (table : LinkTable) (disk : δ)
    (es : List (Event ω)) :
    collect (step K register) (answers K) es (boot K table disk) =
      collect (PerLink.step K register) (PerLink.answers K) es (PerLink.boot K table disk) :=
  collect_of_simulation (R := Sim K) (fun e _ _ h => (h.step register e).1)
    (fun e _ _ h => (h.step register e).2) (sim_boot K table disk)

end Refinement

/-! ## The two storages -/

/-- What `CacheStorage` and `FileStorage` do with a call of `Storage`. Each storage has the objects
it was given, and the ids its `putStubData` has returned. -/
def kinds (evict : CacheStorage.Eviction) (env : DatabaseEnv) :
    Kinds Storage.Operation Answer (World CacheStorage.Counted × List Nat)
      (World Database × (Nat → List Nat)) where
  emptyCache := (⟨⟨[]⟩, ⟨⟨[], []⟩, 0⟩⟩, [])
  cache op c := Storage.Operation.step (CacheStorage.operations evict) op c
  file linkId op d :=
    let r := Storage.Operation.step (Database.operations env linkId) op (d.1, d.2 linkId)
    (r.1, r.2.1, Function.update d.2 linkId r.2.2)

/-- **One storage for each link.** -/
theorem answers_storages (evict : CacheStorage.Eviction) (env : DatabaseEnv)
    (register : ProtocolRegister) (table : LinkTable) (disk : World Database × (Nat → List Nat))
    (es : List (Event Storage.Operation)) :
    collect (step (kinds evict env) register) (answers (kinds evict env)) es
        (boot (kinds evict env) table disk) =
      collect (PerLink.step (kinds evict env) register) (PerLink.answers (kinds evict env)) es
        (PerLink.boot (kinds evict env) table disk) :=
  answers_eq (kinds evict env) register table disk es

end Terminator.Manager.Storages
