import Terminator.Manager.Moves
import Terminator.Run.Invariant

/-!
# Memory and database in step

The maps of `LinkControlServiceImpl` and the rows of `link` are two copies of which links run, and
the work mode of a running link is kept a third time in the object its server reads. No call of
`startServer`, `stopServer` and `changeWorkMode` writes them all at once.

**`inStep_of_control`**: as long as no row is edited or deleted past the service, they agree after
every call, however often a start fails.
-/

namespace Terminator.Manager

open Terminator.Java Terminator.Storage

/-- The maps, the running servers and the rows agree. -/
structure InStep (s : LinkControl) : Prop where
  keys : ∀ id, s.linkIdServerMap id ≠ none ↔ s.linkIdLinkMap id ≠ none
  status : ∀ id, s.linkIdServerMap id ≠ none ↔
    ∃ row, s.table.rows id = some row ∧ row.status = some .running
  workMode : ∀ id q l, s.linkIdServerMap id = some q → s.linkIdLinkMap id = some l →
    (s.servers.get q).state = .running ∧ ∃ row, s.table.rows id = some row ∧
      (s.links.get (s.servers.get q).link).workMode = row.workMode ∧
      (s.links.get l).workMode = row.workMode

/-- The maps, the rows and the modes of the registered servers agree, whether the servers still have
their channels or a failing stop has closed them. -/
structure RowsMatch (s : LinkControl) : Prop where
  keys : ∀ id, s.linkIdServerMap id ≠ none ↔ s.linkIdLinkMap id ≠ none
  status : ∀ id, s.linkIdServerMap id ≠ none ↔
    ∃ row, s.table.rows id = some row ∧ row.status = some .running
  workMode : ∀ id q l, s.linkIdServerMap id = some q → s.linkIdLinkMap id = some l →
    ∃ row, s.table.rows id = some row ∧
      (s.links.get (s.servers.get q).link).workMode = row.workMode ∧
      (s.links.get l).workMode = row.workMode

/-- The calls that keep to the service; its servers stop when they are told to. -/
def Operation.Control : Operation → Prop
  | addLink _ | startServer _ _ | changeWorkMode _ _ => True
  | stopServer _ stops => stops = true
  | updateLink _ _ | deleteLink _ => False

/-- One id in the rows and in memory. -/
inductive Agrees (t : LinkTable) (running : Nat → Option Link) (id : Nat) : Prop where
  | stopped (hrunning : running id = none)
      (hrow : ∀ row, t.rows id = some row → row.status = some .stopped)
  | running {link : Link} {row : LinkRow} (hrunning : running id = some link)
      (hrow : t.rows id = some row) (hdel : row.isDelete = false)
      (hstatus : row.status = some .running) (hmode : row.workMode = link.workMode)

section Step

variable {t t' : LinkTable} {running running' : Nat → Option Link} {id : Nat}

/-- What agrees for an id does so after a step elsewhere. -/
theorem Agrees.frame (h : Agrees t running id) (hrow : t'.rows id = t.rows id)
    (hrunning : running' id = running id) : Agrees t' running' id := by
  cases h with
  | stopped hrunning0 hrow0 =>
    rw [← hrow] at hrow0
    exact .stopped (hrunning.trans hrunning0) hrow0
  | running hrunning0 hrow0 hdel hstatus hmode =>
    exact .running (hrunning.trans hrunning0) (hrow.trans hrow0) hdel hstatus hmode

theorem Agrees.addLink (h : Agrees t running id) (link : Link) :
    Agrees (t.insertLink link) running id := by
  by_cases hid : id = t.autoIncrement
  · cases h with
    | stopped hrunning _ =>
      refine .stopped hrunning fun row hrow => ?_
      rw [hid, LinkTable.rows_insertLink_self] at hrow
      obtain rfl := Option.some.inj hrow
      rfl
    | running _ hrow =>
      have hlt := t.ids_lt id _ hrow
      omega
  · exact h.frame (LinkTable.rows_insertLink_ne hid link) rfl

theorem Agrees.setStopped (hrunning : running id = none) :
    Agrees (t.setStatus .stopped id) running id := by
  refine .stopped hrunning fun row hrow => ?_
  unfold LinkTable.setStatus at hrow
  rw [LinkTable.rows_update_self] at hrow
  obtain ⟨row', -, rfl⟩ := Option.map_eq_some_iff.mp hrow
  rfl

theorem Agrees.setRunning {link : Link} {row : LinkRow} (hrow : t.rows id = some row)
    (hdel : row.isDelete = false) (hrunning : running id = some link)
    (hmode : row.workMode = link.workMode) : Agrees (t.setStatus .running id) running id := by
  have hrow' : (t.setStatus .running id).rows id = some { row with status := some .running } := by
    unfold LinkTable.setStatus
    rw [LinkTable.rows_update_self, hrow, Option.map_some]
  exact .running hrunning hrow' hdel rfl hmode

/-- A step writes one row and starts or stops one link. -/
theorem agrees_update {f : LinkRow → LinkRow} (h : ∀ id, Agrees t running id)
    (hself : Agrees (t.update id f) running' id)
    (hrunning : ∀ id', id' ≠ id → running' id' = running id') (id' : Nat) :
    Agrees (t.update id f) running' id' := by
  by_cases hid : id' = id
  · rw [hid]
    exact hself
  · exact (h id').frame (LinkTable.rows_update_ne hid f t) (hrunning id' hid)

/-- **A call keeps every id in agreement.** -/
theorem agrees_of_moves {register : ProtocolRegister} {op : Operation}
    (h : ∀ id, Agrees t running id) (hop : op.Control)
    (hmoves : Moves register t running op t' running') : ∀ id, Agrees t' running' id := by
  cases hmoves with
  | addLink form => exact fun id => (h id).addLink _
  | updateLink => exact False.elim hop
  | deleteLink => exact False.elim hop
  | startIdle => exact h
  | stopIdle => exact h
  | changeIdle => exact h
  | @startAgain id up link link' hlink hrunning =>
    refine agrees_update h ?_ fun _ _ => rfl
    cases h id with
    | stopped hnone => rw [hnone] at hrunning; cases hrunning
    | running hrunning hrow hdel _ hmode => exact .setRunning hrow hdel hrunning hmode
  | @start id up link plugins hlink hrunning _ _ =>
    refine agrees_update h ?_ fun id' hid => Function.update_of_ne hid _ _
    obtain ⟨row, hrow, hdel, rfl⟩ := LinkTable.selectLinkById_eq_some hlink
    exact .setRunning hrow hdel (Function.update_self _ _ _) rfl
  | @stopAgain id stops link hlink hrunning =>
    exact agrees_update h (.setStopped hrunning) fun _ _ => rfl
  | @stop id link link' hlink hrunning =>
    exact agrees_update h (.setStopped (Function.update_self _ _ _)) fun id' hid =>
      Function.update_of_ne hid _ _
  | @changeGone id mode link hrunning hlink =>
    -- a running link has a row, and no call deletes it
    cases h id with
    | stopped hnone => rw [hnone] at hrunning; cases hrunning
    | running _ hrow hdel =>
      rw [LinkTable.selectLinkById_of_row hrow hdel] at hlink
      cases hlink
  | @change id mode link link' hrunning hlink =>
    refine agrees_update h ?_ fun id' hid => Function.update_of_ne hid _ _
    cases h id with
    | stopped hnone => rw [hnone] at hrunning; cases hrunning
    | @running _ row _ hrow hdel hstatus _ =>
      have hrow' : (t.setWorkMode mode id).rows id = some { row with workMode := some mode } := by
        unfold LinkTable.setWorkMode
        rw [LinkTable.rows_update_self, hrow, Option.map_some]
      exact .running (Function.update_self _ _ _) hrow' hdel hstatus rfl

end Step

/-! ## A state, and a run -/

variable {register : ProtocolRegister} {s : LinkControl}

/-- No registered server has lost its channels. -/
def ServersRun (s : LinkControl) : Prop :=
  ∀ id q, s.linkIdServerMap id = some q → (s.servers.get q).state = .running

theorem ServersRun.frame {s' : LinkControl} (h : ServersRun s)
    (hmap : s'.linkIdServerMap = s.linkIdServerMap) (howned : ∀ id, Owned s id)
    (hservers : s'.servers = s.servers ∨ ∃ server, s'.servers = (s.servers.alloc server).2) :
    ServersRun s' := by
  intro id q hq
  rw [hmap] at hq
  obtain ⟨-, -, hlt, -⟩ := (howned id).of_server hq
  rcases hservers with hservers | ⟨server, hservers⟩
  · rw [hservers]
    exact h id q hq
  · rw [hservers, Heap.get_alloc_of_lt hlt]
    exact h id q hq

/-- **A call whose stop returns** leaves the registered servers running. -/
theorem serversRun_step (register : ProtocolRegister) {op : Operation} (h : ServersRun s)
    (howned : ∀ id, Owned s id) (hop : op.Control) : ServersRun (step register op s) := by
  cases op with
  | addLink form => exact h
  | updateLink | deleteLink => exact hop.elim
  | startServer linkId up =>
    have hstarts := startServer_starts register up s linkId
    change ServersRun (after ((startServer register up linkId).run s))
    generalize (startServer register up linkId).run s = result at hstarts
    cases hstarts with
    | absent => exact h
    | again => exact h.frame rfl howned (.inl rfl)
    | failed e link' servers hlink hq hfail hservers => exact h.frame rfl howned hservers
    | opened hlink hq hplugins hbinds =>
      intro id q hq'
      rw [after_ok] at hq' ⊢
      dsimp only at hq' ⊢
      by_cases hid : id = linkId
      · rw [hid, Function.update_self] at hq'
        rw [← Option.some.inj hq', Heap.get_alloc_self]
      · rw [Function.update_of_ne hid] at hq'
        obtain ⟨-, -, hlt, -⟩ := (howned id).of_server hq'
        rw [Heap.get_alloc_of_lt hlt]
        exact h id q hq'
  | stopServer linkId stops =>
    obtain rfl : stops = true := hop
    have hstops := stopServer_stops true s linkId
    change ServersRun (after ((stopServer true linkId).run s))
    generalize (stopServer true linkId).run s = result at hstops
    cases hstops with
    | absent => exact h
    | failed hlink hq hstops => cases hstops
    | again => exact h.frame rfl howned (.inl rfl)
    | closed hlink hq =>
      intro id q' hq'
      rw [after_ok] at hq' ⊢
      dsimp only at hq' ⊢
      by_cases hid : id = linkId
      · rw [hid, Function.update_self] at hq'
        cases hq'
      · rw [Function.update_of_ne hid] at hq'
        rw [Heap.get_set_ne (server_ne (howned linkId) (howned id) hid hq hq')]
        exact h id q' hq'
  | changeWorkMode linkId mode =>
    have hchanges := changeWorkMode_changes mode s linkId
    change ServersRun (after ((changeWorkMode mode linkId).run s))
    generalize (changeWorkMode mode linkId).run s = result at hchanges
    cases hchanges with
    | refused => exact h
    | gone => exact h.frame rfl howned (.inl rfl)
    | changed => exact h.frame rfl howned (.inl rfl)

theorem rowsMatch_of_agrees (howned : ∀ id, Owned s id)
    (hagrees : ∀ id, Agrees s.table s.running id) : RowsMatch s where
  keys id := by
    cases howned id with
    | unregistered hq hl => rw [hq, hl]
    | registered hq hl => rw [hq, hl]; simp
  status id := by
    rw [Ne, ← running_eq_none_iff]
    cases hagrees id with
    | stopped hrunning hrow =>
      refine ⟨fun h => absurd hrunning h, fun ⟨row, hrow', hstatus⟩ => ?_⟩
      rw [hrow row hrow'] at hstatus
      cases hstatus
    | running hrunning hrow _ hstatus =>
      rw [hrunning]
      exact ⟨fun _ => ⟨_, hrow, hstatus⟩, fun _ => Option.some_ne_none _⟩
  workMode id q l hq hl := by
    obtain ⟨l', hl', -, -, hserver, -⟩ := (howned id).of_server hq
    obtain rfl := Option.some.inj (hl'.symm.trans hl)
    rw [hserver]
    cases hagrees id with
    | stopped hrunning => rw [running_eq_none_iff.mp hrunning] at hq; cases hq
    | running hrunning hrow _ _ hmode =>
      obtain rfl := Option.some.inj ((running_of_server hq hserver).symm.trans hrunning)
      exact ⟨_, hrow, hmode.symm, hmode.symm⟩

theorem RowsMatch.inStep (h : RowsMatch s) (hrun : ServersRun s) : InStep s :=
  ⟨h.keys, h.status, fun id q l hq hl => ⟨hrun id q hq, h.workMode id q l hq hl⟩⟩

/-- **Memory and database stay in step**: from empty maps and stopped rows, after each of any calls
of `addLink`, `startServer`, `stopServer` and `changeWorkMode`. -/
theorem inStep_of_control (register : ProtocolRegister) (s : LinkControl) (ops : List Operation)
    (hmaps : EmptyMaps s)
    (hrows : ∀ id row, s.table.rows id = some row → row.status = some .stopped)
    (hops : ∀ op ∈ ops, op.Control) : Run.Always (step register) InStep ops s := by
  refine Run.always_of_invariant
    (I := fun s => (∀ id, Owned s id) ∧ ServersRun s ∧ ∀ id, Agrees s.table s.running id)
    (fun s h => (rowsMatch_of_agrees h.1 h.2.2).inStep h.2.1) (fun op s h (hop : op.Control) => ?_)
    ⟨owned_of_emptyMaps hmaps, fun id q hq => ?_, fun id => ?_⟩
    (Run.meets_of_forall fun op hop _ => hops op hop)
  · obtain ⟨howned, hmoves⟩ := step_moves register h.1 op
    exact ⟨howned, serversRun_step register h.2.1 h.1 hop, agrees_of_moves h.2.2 hop hmoves⟩
  · rw [(hmaps id).1] at hq
    cases hq
  · exact .stopped (running_eq_none_iff.mpr (hmaps id).1) (hrows id)

/-- A link that is added, started, switched and stopped. -/
theorem inStep_startChangeStop :
    Run.Always (step httpRegister) InStep
      [.addLink recordForm, .startServer 1 freePort, .changeWorkMode 1 .STUB, .stopServer 1 true]
      newManager ∧
    (Run.run (step httpRegister) [.addLink recordForm, .startServer 1 freePort]
      newManager).linkIdServerMap 1 = some 0 :=
  ⟨inStep_of_control httpRegister newManager _ (fun _ => ⟨rfl, rfl⟩) (fun _ _ h => by cases h)
    (by simp [Operation.Control]), rfl⟩

end Terminator.Manager
