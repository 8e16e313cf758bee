import Terminator.Manager.LinkControl

/-!
# What a restart recovers

`LinkControlServiceImpl.recoveryLink`, which `SpringInit` calls in a new process: the rows that say
running are started again, one after the other in the order the select returns them. An exception of
one start leaves the loop.

**`recovered_iff`**: every link that says running and can be started has a server afterwards exactly
when no running link that cannot be started is listed before one that can.
-/

namespace Terminator.Manager

open Terminator.Java

/-- `selectAllLink`. The statement orders nothing, so the order of the rows is a parameter. -/
def LinkTable.selectAllLink (order : List Nat) (t : LinkTable) : List Link :=
  order.filterMap fun id => t.selectLinkById id

theorem LinkTable.selectAllLink_cons_some {t : LinkTable} {id : Nat} {link : Link}
    (h : t.selectLinkById id = some link) (order : List Nat) :
    t.selectAllLink (id :: order) = link :: t.selectAllLink order :=
  List.filterMap_cons_some (f := fun id => t.selectLinkById id) h

theorem LinkTable.selectAllLink_cons_none {t : LinkTable} {id : Nat}
    (h : t.selectLinkById id = none) (order : List Nat) :
    t.selectAllLink (id :: order) = t.selectAllLink order :=
  List.filterMap_cons_none (f := fun id => t.selectLinkById id) h

/-- The rows of the table in some order, each once. -/
structure Listed (t : LinkTable) (order : List Nat) : Prop where
  nodup : order.Nodup
  mem_iff : ∀ id, id ∈ order ↔ t.Live id

/-- `getAllLink`. The objects it builds are only read. -/
def getAllLink (order : List Nat) : Method LinkControl (List Link) := do
  return (← get).table.selectAllLink order

section Recovery

variable (register : ProtocolRegister) (up : Nat → Startup)

/-- `startServer(link.getId())`. -/
def startLink (link : Link) : Method LinkControl Unit :=
  match link.id with
  | none => throw .nullPointer
  | some id => startServer register (up id) id

/-- The loop of `recoveryLink`. -/
def recoverEach : List Link → Method LinkControl Unit
  | [] => pure ()
  | link :: allLink => do
    if link.status = some .running then
      startLink register up link
    recoverEach allLink

/-- `recoveryLink`. -/
def recoveryLink (order : List Nat) : Method LinkControl Unit := do
  let allLink ← getAllLink order
  recoverEach register up allLink

/-- The row says running. -/
def Runs (t : LinkTable) (id : Nat) : Prop :=
  ∃ link, t.selectLinkById id = some link ∧ link.status = some .running

/-- The link can be started: its plugins are built, and its port is free. -/
def Startable (t : LinkTable) (id : Nat) : Prop :=
  ∃ plugins, Opens register (up id) id t plugins

end Recovery

variable {register : ProtocolRegister} {up : Nat → Startup} {s : LinkControl}

/-! ## One start -/

/-- Writing running into a row that says running. -/
theorem LinkTable.setStatus_of_runs {t : LinkTable} {id : Nat} (h : Runs t id) :
    t.setStatus .running id = t := by
  obtain ⟨link, hlink, hstatus⟩ := h
  obtain ⟨row, hrow, -, rfl⟩ := LinkTable.selectLinkById_eq_some hlink
  have hself : ({ row with status := some .running } : LinkRow) = row := by
    rw [← show row.status = some .running from hstatus]
  obtain ⟨rows, autoIncrement, hlt⟩ := t
  unfold LinkTable.setStatus LinkTable.update
  congr 1
  dsimp only at hrow ⊢
  rw [hrow, Option.map_some, hself]
  exact Function.update_eq_self_iff.mpr hrow.symm

/-- A start of a link that says running and has no server registers one if it can, and throws if it
cannot. -/
theorem startServer_of_runs (register : ProtocolRegister) (up : Nat → Startup) {id : Nat}
    (hruns : Runs s.table id) (hq : s.linkIdServerMap id = none) :
    (Startable register up s.table id ∧ ∃ s', (startServer register (up id) id).run s = .ok () s' ∧
        s'.table = s.table ∧
        s'.linkIdServerMap = Function.update s.linkIdServerMap id (some s.servers.size)) ∨
      (¬ Startable register up s.table id ∧ ∃ e s',
        (startServer register (up id) id).run s = .error e s' ∧
        s'.linkIdServerMap = s.linkIdServerMap) := by
  have hstarts := startServer_starts register (up id) s id
  generalize (startServer register (up id) id).run s = result at hstarts
  have ⟨link, hlink, _⟩ := hruns
  cases hstarts with
  | absent hlink' =>
    rw [hlink] at hlink'
    cases hlink'
  | again _ hq' =>
    rw [hq] at hq'
    cases hq'
  | failed e link' servers _ _ hfail _ =>
    exact .inr ⟨fun ⟨plugins, hopens⟩ => hfail plugins hopens, e, _, rfl, rfl⟩
  | @opened link' plugins hlink' _ hplugins hbinds =>
    exact .inl ⟨⟨plugins, link', hlink', hplugins, hbinds⟩, _, rfl,
      LinkTable.setStatus_of_runs hruns, rfl⟩

/-- A start takes no server out of the map. -/
theorem registered_startServer {id id' : Nat} (h : s.linkIdServerMap id ≠ none) (up : Startup) :
    (after ((startServer register up id').run s)).linkIdServerMap id ≠ none := by
  have hstarts := startServer_starts register up s id'
  generalize (startServer register up id').run s = result at hstarts
  cases hstarts with
  | absent | again | failed => exact h
  | opened =>
    rw [after_ok]
    dsimp only
    by_cases hid : id = id'
    · rw [hid, Function.update_self]
      exact Option.some_ne_none _
    · rw [Function.update_of_ne hid]
      exact h

theorem registered_startLink (register : ProtocolRegister) (up : Nat → Startup) {id : Nat}
    (h : s.linkIdServerMap id ≠ none) (link : Link) :
    (after ((startLink register up link).run s)).linkIdServerMap id ≠ none := by
  unfold startLink
  cases link.id with
  | none => exact h
  | some id' => exact registered_startServer h (up id')

/-! ## The loop -/

theorem recoverEach_run_of_not_running {link : Link} (h : link.status ≠ some .running)
    (allLink : List Link) (s : LinkControl) :
    (recoverEach register up (link :: allLink)).run s =
      (recoverEach register up allLink).run s := by
  rw [recoverEach, if_neg h]

theorem recoverEach_of_running {link : Link} (h : link.status = some .running)
    (allLink : List Link) : recoverEach register up (link :: allLink) =
      startLink register up link >>= fun _ => recoverEach register up allLink := by
  rw [recoverEach, if_pos h]

theorem registered_recoverEach {id : Nat} (allLink : List Link)
    (h : s.linkIdServerMap id ≠ none) :
    (after ((recoverEach register up allLink).run s)).linkIdServerMap id ≠ none := by
  induction allLink generalizing s with
  | nil => exact h
  | cons link allLink ih =>
    by_cases hstatus : link.status = some .running
    · rw [recoverEach_of_running hstatus]
      have hstart := registered_startLink register up h link
      cases hrun : (startLink register up link).run s with
      | ok u s' =>
        rw [hrun] at hstart
        rw [run_bind_of_ok hrun]
        exact ih hstart
      | error e s' =>
        rw [hrun] at hstart
        rw [run_bind_of_error hrun]
        exact hstart
    · rw [recoverEach_run_of_not_running hstatus]
      exact ih h

section Loop

variable (register up)

/-- The links of `order` that say running and can be started have a server. -/
def Recovered (t : LinkTable) (order : List Nat) (s : LinkControl) : Prop :=
  ∀ id ∈ order, Runs t id → Startable register up t id → s.linkIdServerMap id ≠ none

/-- No running link that cannot be started stands before one that can. -/
def NoneBlocked (t : LinkTable) (order : List Nat) : Prop :=
  order.Pairwise fun id id' => Runs t id → ¬ Startable register up t id →
    Runs t id' → ¬ Startable register up t id'

end Loop

/-- The loop over rows of which none is registered yet: by induction on the rows, a link that does
not run, one that starts and one whose start throws. -/
theorem recovered_recoverEach_iff (t : LinkTable) {order : List Nat} (hnodup : order.Nodup)
    (htable : s.table = t) (hnone : ∀ id ∈ order, s.linkIdServerMap id = none) :
    Recovered register up t order
        (after ((recoverEach register up (t.selectAllLink order)).run s)) ↔
      NoneBlocked register up t order := by
  induction order generalizing s with
  | nil => exact iff_of_true (fun _ h => absurd h List.not_mem_nil) List.Pairwise.nil
  | cons id order ih =>
    obtain ⟨hid, hnodup⟩ := List.nodup_cons.mp hnodup
    have hnone' : ∀ id' ∈ order, s.linkIdServerMap id' = none := fun id' h =>
      hnone id' (List.mem_cons_of_mem id h)
    unfold Recovered NoneBlocked at ih ⊢
    rw [List.forall_mem_cons, List.pairwise_cons]
    by_cases hruns : Runs t id
    · have ⟨link, hlink, hstatus⟩ := hruns
      have hloop : recoverEach register up (t.selectAllLink (id :: order)) =
          startServer register (up id) id >>= fun _ =>
            recoverEach register up (t.selectAllLink order) := by
        rw [LinkTable.selectAllLink_cons_some hlink, recoverEach_of_running hstatus]
        unfold startLink
        rw [LinkTable.id_of_selectLinkById hlink]
      rw [hloop]
      rcases startServer_of_runs register up (htable ▸ hruns)
        (hnone id List.mem_cons_self) with
        ⟨hstart, s', hrun, htable', hmap⟩ | ⟨hstart, e, s', hrun, hmap⟩
      · rw [htable] at hstart htable'
        have hnone'' : ∀ id' ∈ order, s'.linkIdServerMap id' = none := fun id' h => by
          rw [hmap, Function.update_of_ne (ne_of_mem_of_not_mem h hid)]
          exact hnone' id' h
        rw [run_bind_of_ok hrun, ih hnodup htable' hnone'']
        refine and_congr_left fun _ => iff_of_true (fun _ _ => ?_) fun _ _ _ h => absurd hstart h
        refine registered_recoverEach _ ?_
        rw [hmap, Function.update_self]
        exact Option.some_ne_none _
      · -- the exception leaves the loop, so none of the rows behind is started
        rw [htable] at hstart
        rw [run_bind_of_error hrun, after_error, hmap]
        constructor
        · rintro ⟨-, hrest⟩
          have hblocked : ∀ id' ∈ order, Runs t id' → ¬ Startable register up t id' :=
            fun id' h hruns' hstart' => hrest id' h hruns' hstart' (hnone' id' h)
          refine ⟨fun id' h _ _ => hblocked id' h, ?_⟩
          exact List.pairwise_of_forall_mem_list fun _ _ id' h _ _ => hblocked id' h
        · rintro ⟨hblocked, -⟩
          exact ⟨fun _ h => absurd h hstart,
            fun id' h hruns' hstart' => absurd hstart' (hblocked id' h hruns hstart hruns')⟩
    · have hloop : (recoverEach register up (t.selectAllLink (id :: order))).run s =
          (recoverEach register up (t.selectAllLink order)).run s := by
        cases hlink : t.selectLinkById id with
        | none => rw [LinkTable.selectAllLink_cons_none hlink]
        | some link =>
          rw [LinkTable.selectAllLink_cons_some hlink]
          exact recoverEach_run_of_not_running (fun hstatus => hruns ⟨link, hlink, hstatus⟩) _ s
      rw [hloop, ih hnodup htable hnone']
      exact and_congr_left fun _ =>
        iff_of_true (fun h => absurd h hruns) fun _ _ h => absurd h hruns

/-! ## The restart -/

/-- A link that says running and can be started has a server. -/
def RecoversAll (register : ProtocolRegister) (up : Nat → Startup) (t : LinkTable)
    (s : LinkControl) : Prop :=
  ∀ id, Runs t id → Startable register up t id → s.linkIdServerMap id ≠ none

theorem live_of_runs {t : LinkTable} {id : Nat} (h : Runs t id) : t.Live id := by
  obtain ⟨link, hlink, -⟩ := h
  exact LinkTable.live_of_select hlink

/-- **Recovery** starts every running link that can be started exactly when none of them is listed
behind a running link that cannot. -/
theorem recovered_iff (register : ProtocolRegister) (up : Nat → Startup) {s : LinkControl}
    (hnew : ∀ id, s.linkIdServerMap id = none) {order : List Nat} (hlisted : Listed s.table order) :
    RecoversAll register up s.table (after ((recoveryLink register up order).run s)) ↔
      NoneBlocked register up s.table order := by
  have hrun : (recoveryLink register up order).run s =
      (recoverEach register up (s.table.selectAllLink order)).run s := rfl
  rw [hrun, ← recovered_recoverEach_iff s.table hlisted.nodup rfl fun id _ => hnew id]
  constructor
  · exact fun h id _ hruns hstart => h id hruns hstart
  · exact fun h id hruns hstart =>
      h id ((hlisted.mem_iff id).mpr (live_of_runs hruns)) hruns hstart

/-- Two links that say running. -/
def twoRunning : LinkTable :=
  ((LinkTable.empty.insertLink (recordForm.link none)).insertLink
    (LinkForm.link { recordForm with localPort := 8081 } none)).setStatus .running 1
      |>.setStatus .running 2

theorem listed_twoRunning (order : List Nat) (h : List.Perm order [1, 2]) :
    Listed twoRunning order where
  nodup := h.nodup_iff.mpr (by decide)
  mem_iff id := by
    rw [h.mem_iff]
    constructor
    · intro hid
      obtain rfl | rfl := List.mem_pair.mp hid
      · exact ⟨_, rfl, rfl⟩
      · exact ⟨_, rfl, rfl⟩
    · rintro ⟨row, hrow, -⟩
      have hlt : id < 3 := twoRunning.ids_lt id row hrow
      have hzero : id ≠ 0 := by
        rintro rfl
        cases hrow
      have hor : id = 1 ∨ id = 2 := by omega
      exact List.mem_pair.mpr hor

/-- The port of the first link is taken. -/
def firstTaken (id : Nat) : Startup := { freePort with binds := id ≠ 1 }

/-- A new process over the two rows. -/
def twoStored : LinkControl := { newManager with table := twoRunning }

theorem noneBlocked_takenLast : NoneBlocked httpRegister firstTaken twoRunning [2, 1] := by
  refine .cons (fun id _ _ hstart => absurd ?_ hstart) (List.pairwise_singleton _ _)
  exact ⟨_, _, rfl, rfl, rfl⟩

theorem recovered_takenLast : RecoversAll httpRegister firstTaken twoRunning
    (after ((recoveryLink httpRegister firstTaken [2, 1]).run twoStored)) :=
  (recovered_iff httpRegister firstTaken (s := twoStored) (fun _ => rfl)
    (listed_twoRunning [2, 1] (List.Perm.swap 1 2 []))).mpr noneBlocked_takenLast

/-- The row behind the link whose port is taken is left without a server. -/
theorem not_recovered_takenFirst : Listed twoRunning [1, 2] ∧
    ¬ RecoversAll httpRegister firstTaken twoRunning
      (after ((recoveryLink httpRegister firstTaken [1, 2]).run twoStored)) := by
  refine ⟨listed_twoRunning [1, 2] (List.Perm.refl _), fun h => ?_⟩
  exact h 2 ⟨_, rfl, rfl⟩ ⟨_, _, rfl, rfl, rfl⟩ rfl

end Terminator.Manager
