import Terminator.Manager.Recovery
import Terminator.Manager.Storages

/-!
# A restart of the process

`LinkControlServiceImpl.destroy`, which Spring calls when the process ends, and `recoveryLink` in
the next one. `destroy` stops the registered servers and writes no row: the rows still say running,
and `recoveryLink` starts these links again from their rows.

**`running_restart_iff`**: after any requests, and if every link whose row says running can be
started, the new process runs the links the old one did, in their modes, with their plugins and
storages, exactly when no row of a registered link was edited or deleted behind its server.
-/

namespace Terminator.Manager

open Terminator.Java Terminator.Storage Terminator.Run Terminator.Manager.Storages

/-! ## The model -/

/-- The loop of `destroy` over the keys of `linkIdServerMap`; a `stop` that throws leaves it. -/
def destroy (stops : Nat → Bool) : List Nat → Method LinkControl Unit
  | [] => pure ()
  | id :: ids => do
    match (← get).linkIdServerMap id with
    | none => pure ()
    | some q => Server.stop (stops id) q
    destroy stops ids

/-- The process ends, and the next one recovers its links. -/
def restart (register : ProtocolRegister) (stops : Nat → Bool) (ids : List Nat)
    (up : Nat → Startup) (order : List Nat) (s : LinkControl) : LinkControl :=
  let ended := after ((destroy stops ids).run s)
  after ((recoveryLink register up order).run (bootControl ended.table))

theorem keeps_table_stop (stops : Bool) (q : Ref) :
    Keeps LinkControl.table (Server.stop stops q) := by
  intro s
  cases stops with
  | true => rfl
  | false => rfl

/-- `destroy` writes no row. -/
theorem keeps_table_destroy (stops : Nat → Bool) (ids : List Nat) :
    Keeps LinkControl.table (destroy stops ids) := by
  induction ids with
  | nil => exact keeps_pure _ _
  | cons id ids ih =>
    refine keeps_bind (keeps_get _) fun s => ?_
    cases s.linkIdServerMap id with
    | none => exact ih
    | some q => exact keeps_bind (keeps_table_stop _ q) fun _ => ih

/-! ## What a restart makes of the rows -/

section Recovered

variable (register : ProtocolRegister) (up : Nat → Startup)

/-- The link a row that says running is started with. -/
def recoveredLink (t : LinkTable) (id : Nat) : Option Link :=
  match t.selectLinkById id with
  | none => none
  | some link =>
    if link.status = some .running then
      match createPlugins register (up id) link with
      | .error _ => none
      | .ok plugins =>
        some { link.configured plugins.1 plugins.2 with status := some .running }
    else none

variable {register up} {t t' : LinkTable} {running running' : Nat → Option Link} {id : Nat}
  {link : Link} {s : LinkControl}

theorem recoveredLink_of_not_runs (h : ¬ Runs t id) : recoveredLink register up t id = none := by
  unfold recoveredLink
  cases hlink : t.selectLinkById id with
  | none => rfl
  | some link => exact if_neg fun hstatus => h ⟨link, hlink, hstatus⟩

theorem recoveredLink_of_runs {plugins : JString × JString}
    (hlink : t.selectLinkById id = some link) (hstatus : link.status = some .running)
    (hplugins : createPlugins register (up id) link = .ok plugins) :
    recoveredLink register up t id =
      some { link.configured plugins.1 plugins.2 with status := some .running } := by
  unfold recoveredLink
  rw [hlink]
  dsimp only
  rw [if_pos hstatus, hplugins]

/-- A start of a link that can be started. -/
theorem running_of_start {up : Startup} {plugins : JString × JString}
    (hmoves : Moves register t running (.startServer id up) t' running')
    (hnone : running id = none) (hlink : t.selectLinkById id = some link)
    (hplugins : createPlugins register up link = .ok plugins) (hbinds : up.binds = true) :
    running' = Function.update running id
      (some { link.configured plugins.1 plugins.2 with status := some .running }) := by
  cases hmoves with
  | startIdle h => exact absurd ⟨link, hlink, hplugins, hbinds⟩ (h plugins)
  | startAgain _ hrunning =>
    rw [hnone] at hrunning
    cases hrunning
  | start hlink' _ hplugins' =>
    obtain rfl := Option.some.inj (hlink.symm.trans hlink')
    obtain rfl := Except.ok.inj (hplugins.symm.trans hplugins')
    rfl

/-- **The loop of `recoveryLink`** when every link that says running can be started: by induction on
the rows. -/
theorem recoverEach_running {order : List Nat} (hnodup : order.Nodup) (htable : s.table = t)
    (howned : ∀ id, Owned s id) (hnone : ∀ id ∈ order, s.linkIdServerMap id = none)
    (hstart : ∀ id, Runs t id → Startable register up t id) :
    ∃ s', (recoverEach register up (t.selectAllLink order)).run s = .ok () s' ∧
      (∀ id ∈ order, s'.running id = recoveredLink register up t id) ∧
      ∀ id, id ∉ order → s'.running id = s.running id := by
  induction order generalizing s with
  | nil => exact ⟨s, rfl, fun _ h => absurd h List.not_mem_nil, fun _ _ => rfl⟩
  | cons id order ih =>
    obtain ⟨hid, hnodup⟩ := List.nodup_cons.mp hnodup
    have hnone' : ∀ id' ∈ order, s.linkIdServerMap id' = none := fun id' h =>
      hnone id' (List.mem_cons_of_mem id h)
    have hself := hnone id List.mem_cons_self
    by_cases hruns : Runs t id
    · have ⟨link, hlink, hstatus⟩ := hruns
      have hloop : recoverEach register up (t.selectAllLink (id :: order)) =
          startServer register (up id) id >>= fun _ =>
            recoverEach register up (t.selectAllLink order) := by
        rw [LinkTable.selectAllLink_cons_some hlink, recoverEach_of_running hstatus]
        unfold startLink
        rw [LinkTable.id_of_selectLinkById hlink]
      obtain ⟨plugins, link', hlink', hplugins, hbinds⟩ := hstart id hruns
      obtain rfl := Option.some.inj (hlink.symm.trans hlink')
      rcases startServer_of_runs register up (htable ▸ hruns) hself with
        ⟨-, s1, hrun, htable1, hmap⟩ | ⟨hnot, -⟩
      · obtain ⟨howned1, hmoves⟩ := @startServer_moves register _ howned id (up id)
        rw [hrun, after_ok] at howned1 hmoves
        have hrunning := running_of_start hmoves (running_eq_none_iff.mpr hself)
          (by rw [htable]; exact hlink) hplugins hbinds
        obtain ⟨s', hrun', hin, hout⟩ := ih hnodup (htable1.trans htable) howned1 fun id' h => by
          rw [hmap, Function.update_of_ne (ne_of_mem_of_not_mem h hid)]
          exact hnone' id' h
        refine ⟨s', by rw [hloop, run_bind_of_ok hrun, hrun'], fun id' h => ?_, fun id' h => ?_⟩
        · rcases List.mem_cons.mp h with rfl | h
          · rw [hout id' hid, hrunning, Function.update_self,
              recoveredLink_of_runs hlink hstatus hplugins]
          · exact hin id' h
        · obtain ⟨hne, hnotin⟩ := not_or.mp (mt List.mem_cons.mpr h)
          rw [hout id' hnotin, hrunning, Function.update_of_ne hne]
      · rw [htable] at hnot
        exact absurd (hstart id hruns) hnot
    · have hloop : (recoverEach register up (t.selectAllLink (id :: order))).run s =
          (recoverEach register up (t.selectAllLink order)).run s := by
        cases hlink : t.selectLinkById id with
        | none => rw [LinkTable.selectAllLink_cons_none hlink]
        | some link =>
          rw [LinkTable.selectAllLink_cons_some hlink]
          exact recoverEach_run_of_not_running (fun hstatus => hruns ⟨link, hlink, hstatus⟩) _ s
      obtain ⟨s', hrun', hin, hout⟩ := ih hnodup htable howned hnone'
      refine ⟨s', by rw [hloop, hrun'], fun id' h => ?_, fun id' h => ?_⟩
      · rcases List.mem_cons.mp h with rfl | h
        · rw [hout id' hid, recoveredLink_of_not_runs hruns]
          exact running_eq_none_iff.mpr hself
        · exact hin id' h
      · exact hout id' (not_or.mp (mt List.mem_cons.mpr h)).2

/-- **What runs after a restart**: the links whose rows say running, as their rows are. -/
theorem running_restart (stops : Nat → Bool) (ids : List Nat) {order : List Nat}
    (hlisted : Listed s.table order)
    (hstart : ∀ id, Runs s.table id → Startable register up s.table id) (id : Nat) :
    (restart register stops ids up order s).running id = recoveredLink register up s.table id := by
  have htable : (after ((destroy stops ids).run s)).table = s.table :=
    keeps_table_destroy stops ids s
  have hboot : (bootControl s.table).table = s.table := rfl
  obtain ⟨s', hrun, hin, hout⟩ := recoverEach_running hlisted.nodup hboot
    (owned_of_emptyMaps fun _ => ⟨rfl, rfl⟩) (fun _ _ => rfl) hstart
  have hrestart : restart register stops ids up order s = s' := by
    unfold restart
    dsimp only
    rw [htable]
    change after ((recoverEach register up (s.table.selectAllLink order)).run _) = _
    rw [hrun, after_ok]
  rw [hrestart]
  by_cases hid : id ∈ order
  · exact hin id hid
  · have hnot : ¬ Runs s.table id := fun hruns =>
      hid ((hlisted.mem_iff id).mpr (live_of_runs hruns))
    rw [hout id hid, recoveredLink_of_not_runs hnot]
    rfl

end Recovered

/-! ## What the rows say of the servers -/

section Kept

variable {register : ProtocolRegister} {t t' : LinkTable} {running running' : Nat → Option Link}
  {id : Nat} {link link' : Link}

/-- The link of a server is as `configLink` has left it, but for its mode. -/
def Configured (register : ProtocolRegister) (id : Nat) (link : Link) : Prop :=
  ∃ up plugins, createPlugins register up link = .ok plugins ∧ link.id = some id ∧
    link = { link.configured plugins.1 plugins.2 with status := some .running }

/-- What the rows and the servers of an id have in common, whoever edits or deletes rows. -/
structure Kept (register : ProtocolRegister) (t : LinkTable) (running : Nat → Option Link)
    (id : Nat) : Prop where
  row : running id ≠ none → ∃ row, t.rows id = some row
  status : ∀ row, t.rows id = some row → row.isDelete = false →
    (row.status = some .running ↔ running id ≠ none)
  configured : ∀ link, running id = some link → Configured register id link

/-- The plugins depend on three columns, and on the link's id not at all. -/
theorem createPlugins_congr (register : ProtocolRegister) (up : Startup)
    (hsign : link'.signClass = link.signClass) (hextract : link'.extractClass = link.extractClass)
    (hprotocol : link'.protocolType = link.protocolType) :
    createPlugins register up link' = createPlugins register up link := by
  unfold createPlugins getPluginClass
  rw [hsign, hextract, hprotocol]

/-- The class a mode is given, whatever is found at the time. -/
theorem class_unique {className byDefault c c' : Option JString} {e : Throwable}
    {found found' : Bool}
    (h : (if isBlank className then Except.ok byDefault
      else if found then .ok className else .error e) = .ok c)
    (h' : (if isBlank className then Except.ok byDefault
      else if found' then .ok className else .error e) = .ok c') : c' = c := by
  by_cases hblank : isBlank className = true
  · rw [if_pos hblank] at h h'
    exact Except.ok.inj (h'.symm.trans h)
  · rw [if_neg hblank] at h h'
    cases found with
    | false => cases h
    | true =>
      cases found' with
      | false => cases h'
      | true => exact Except.ok.inj (h'.symm.trans h)

theorem getPluginClass_unique {up up' : Startup} {mode : WorkMode} {c c' : Option JString}
    (h : getPluginClass register up link mode = .ok c)
    (h' : getPluginClass register up' link mode = .ok c') : c' = c := by
  unfold getPluginClass at h h'
  cases mode with
  | TUNNEL => exact class_unique h h'
  | RECORD => exact class_unique h h'
  | REPLAY => exact class_unique h h'
  | STUB => exact class_unique h h'

theorem eq_some_of_getPluginInstance {up : Startup} {c : Option JString} {clazz : JString}
    (h : getPluginInstance up c = .ok clazz) : c = some clazz := by
  cases c with
  | none => cases h
  | some clazz' =>
    unfold getPluginInstance at h
    dsimp only at h
    split at h
    · rw [Except.ok.inj h]
    · cases h

/-- What building the plugins of a link comes to. -/
theorem createPlugins_eq_ok {up : Startup} {plugins : JString × JString}
    (h : createPlugins register up link = .ok plugins) :
    getPluginClass register up link .RECORD = .ok (some plugins.1) ∧
      getPluginClass register up link .STUB = .ok (some plugins.2) := by
  unfold createPlugins at h
  cases hsigner : getPluginClass register up link .RECORD with
  | error e =>
    rw [hsigner] at h
    cases h
  | ok signerClass =>
    cases hextractor : getPluginClass register up link .STUB with
    | error e =>
      rw [hsigner, hextractor] at h
      cases h
    | ok extractorClass =>
      rw [hsigner, hextractor] at h
      change getPluginInstance up signerClass >>= _ = _ at h
      cases hnew : getPluginInstance up signerClass with
      | error e =>
        rw [hnew] at h
        cases h
      | ok signer =>
        rw [hnew] at h
        change getPluginInstance up extractorClass >>= _ = _ at h
        cases hnew' : getPluginInstance up extractorClass with
        | error e =>
          rw [hnew'] at h
          cases h
        | ok extractor =>
          rw [hnew'] at h
          obtain rfl := Except.ok.inj h
          exact ⟨by rw [eq_some_of_getPluginInstance hnew],
            by rw [eq_some_of_getPluginInstance hnew']⟩

/-- Two starts that build the plugins of a link build the same. -/
theorem createPlugins_unique {up up' : Startup} {plugins plugins' : JString × JString}
    (h : createPlugins register up link = .ok plugins)
    (h' : createPlugins register up' link = .ok plugins') : plugins' = plugins := by
  obtain ⟨hsigner, hextractor⟩ := createPlugins_eq_ok h
  obtain ⟨hsigner', hextractor'⟩ := createPlugins_eq_ok h'
  have hfst := Option.some.inj (getPluginClass_unique hsigner hsigner')
  have hsnd := Option.some.inj (getPluginClass_unique hextractor hextractor')
  exact Prod.ext hfst hsnd

/-! ## What a request keeps -/

theorem Kept.frame (h : Kept register t running id) (hrow : t'.rows id = t.rows id)
    (hrunning : running' id = running id) : Kept register t' running' id where
  row := by
    rw [hrunning, hrow]
    exact h.row
  status row := by
    rw [hrunning, hrow]
    exact h.status row
  configured link := by
    rw [hrunning]
    exact h.configured link

/-- A statement that leaves the status of a row, or deletes it. -/
theorem Kept.update (h : Kept register t running id) {f : LinkRow → LinkRow} (id' : Nat)
    (hstatus : ∀ row, (f row).isDelete = false →
      row.isDelete = false ∧ (f row).status = row.status) :
    Kept register (t.update id' f) running id := by
  by_cases hid : id = id'
  · subst hid
    refine ⟨fun hruns => ?_, fun row hrow hdel => ?_, h.configured⟩
    · obtain ⟨row, hrow⟩ := h.row hruns
      exact ⟨f row, by rw [LinkTable.rows_update_self, hrow, Option.map_some]⟩
    · rw [LinkTable.rows_update_self] at hrow
      obtain ⟨row', hrow', rfl⟩ := Option.map_eq_some_iff.mp hrow
      obtain ⟨hdel', hsame⟩ := hstatus row' hdel
      rw [hsame]
      exact h.status row' hrow' hdel'
  · exact h.frame (LinkTable.rows_update_ne hid f t) rfl

/-- The row of a link whose status is written. -/
theorem kept_setStatus {status : ServerStatus} {row : LinkRow} (hrow : t.rows id = some row)
    (hstatus : status = .running ↔ running' id ≠ none)
    (hconfigured : ∀ link, running' id = some link → Configured register id link) :
    Kept register (t.setStatus status id) running' id := by
  have hrow' : (t.setStatus status id).rows id = some { row with status := some status } := by
    unfold LinkTable.setStatus
    rw [LinkTable.rows_update_self, hrow, Option.map_some]
  refine ⟨fun _ => ⟨_, hrow'⟩, fun row' hrow'' _ => ?_, hconfigured⟩
  obtain rfl := Option.some.inj (hrow'.symm.trans hrow'')
  rw [Option.some.injEq]
  exact hstatus

/-- The mode of a link is none of what `configLink` looks at. -/
theorem Configured.setWorkMode (h : Configured register id link) (mode : WorkMode) :
    Configured register id { link with workMode := some mode } := by
  obtain ⟨up, plugins, hplugins, hid, hlink⟩ := h
  refine ⟨up, plugins, ?_, hid, ?_⟩
  · rw [← hplugins]
    exact createPlugins_congr register up rfl rfl rfl
  · rw [hlink]
    rfl

/-- A change of the mode of a server's link. -/
theorem kept_changed (h : ∀ id, Kept register t running id) (hrunning : running id = some link)
    (mode : WorkMode) (id' : Nat) :
    Kept register t (Function.update running id (some { link with workMode := some mode }))
      id' := by
  by_cases hid : id' = id
  · subst hid
    have hruns : running id' ≠ none := by
      rw [hrunning]
      exact Option.some_ne_none _
    have hruns' : Function.update running id' (some { link with workMode := some mode }) id' ≠
        none := by
      rw [Function.update_self]
      exact Option.some_ne_none _
    refine ⟨fun _ => (h id').row hruns, fun row hrow hdel => ?_, fun link' hlink' => ?_⟩
    · rw [(h id').status row hrow hdel]
      exact iff_of_true hruns hruns'
    · rw [Function.update_self] at hlink'
      obtain rfl := Option.some.inj hlink'
      exact ((h id').configured link hrunning).setWorkMode mode
  · exact (h id').frame rfl (Function.update_of_ne hid _ _)

/-- **A request keeps it**, for every id. -/
theorem kept_of_moves {op : Operation} (h : ∀ id, Kept register t running id)
    (hmoves : Moves register t running op t' running') : ∀ id, Kept register t' running' id := by
  cases hmoves with
  | startIdle | stopIdle | changeIdle => exact h
  | addLink form =>
    intro id
    by_cases hid : id = t.autoIncrement
    · subst hid
      have hnone : running t.autoIncrement = none := by
        by_contra hruns
        obtain ⟨row, hrow⟩ := (h _).row hruns
        exact absurd (t.ids_lt _ row hrow) (Nat.lt_irrefl _)
      refine ⟨fun hruns => absurd hnone hruns, fun row hrow _ => ?_, (h _).configured⟩
      rw [LinkTable.rows_insertLink_self] at hrow
      obtain rfl := Option.some.inj hrow
      exact iff_of_false nofun fun hruns => hruns hnone
    · exact (h id).frame (LinkTable.rows_insertLink_ne hid _) rfl
  | updateLink id' form => exact fun id => (h id).update id' fun row hdel => ⟨hdel, rfl⟩
  | deleteLink id' => exact fun id => (h id).update id' fun row hdel => by cases hdel
  | @startAgain id up link link' hlink hrunning =>
    intro id'
    by_cases hid : id' = id
    · subst hid
      obtain ⟨row, hrow, -⟩ := LinkTable.selectLinkById_eq_some hlink
      refine kept_setStatus hrow (iff_of_true rfl ?_) (h id').configured
      rw [hrunning]
      exact Option.some_ne_none _
    · exact (h id').frame (LinkTable.rows_update_ne hid _ _) rfl
  | @start id up link plugins hlink hrunning hplugins _ =>
    intro id'
    by_cases hid : id' = id
    · subst hid
      obtain ⟨row, hrow, -⟩ := LinkTable.selectLinkById_eq_some hlink
      refine kept_setStatus hrow (iff_of_true rfl ?_) fun link' hlink' => ?_
      · rw [Function.update_self]
        exact Option.some_ne_none _
      · rw [Function.update_self] at hlink'
        obtain rfl := Option.some.inj hlink'
        have hid : link.id = some id' := LinkTable.id_of_selectLinkById hlink
        refine ⟨up, plugins, ?_, hid, rfl⟩
        rw [← hplugins]
        exact createPlugins_congr register up rfl rfl rfl
    · exact (h id').frame (LinkTable.rows_update_ne hid _ _) (Function.update_of_ne hid _ _)
  | @stopAgain id stops link hlink hrunning =>
    intro id'
    by_cases hid : id' = id
    · subst hid
      obtain ⟨row, hrow, -⟩ := LinkTable.selectLinkById_eq_some hlink
      exact kept_setStatus hrow (iff_of_false nofun fun hruns => hruns hrunning) (h id').configured
    · exact (h id').frame (LinkTable.rows_update_ne hid _ _) rfl
  | @stop id link link' hlink hrunning =>
    intro id'
    by_cases hid : id' = id
    · subst hid
      obtain ⟨row, hrow, -⟩ := LinkTable.selectLinkById_eq_some hlink
      have hnone : Function.update running id' none id' = none := Function.update_self _ _ _
      refine kept_setStatus hrow (iff_of_false nofun fun hruns => hruns hnone) fun _ hlink'' => ?_
      rw [hnone] at hlink''
      cases hlink''
    · exact (h id').frame (LinkTable.rows_update_ne hid _ _) (Function.update_of_ne hid _ _)
  | @changeGone id mode link hrunning hlink => exact kept_changed h hrunning mode
  | @change id mode link link' hrunning hlink =>
    exact fun id' => (kept_changed h hrunning mode id').update id fun row hdel => ⟨hdel, rfl⟩

end Kept

/-! ## The restart -/

section Restart

variable {register : ProtocolRegister} {up : Nat → Startup} {s : LinkControl} {id : Nat}
  {link : Link}

theorem kept_new (register : ProtocolRegister) (id : Nat) :
    Kept register newManager.table newManager.running id := by
  have hrow : newManager.table.rows id = none := rfl
  have hrunning : newManager.running id = none := rfl
  refine ⟨fun hruns => absurd hrunning hruns, fun row hrow' => ?_, fun link hlink => ?_⟩
  · rw [hrow] at hrow'
    cases hrow'
  · rw [hrunning] at hlink
    cases hlink

/-- The rows and the servers after any requests. -/
theorem kept_run (register : ProtocolRegister) (ops : List Operation) :
    let s := run (step register) ops newManager
    (∀ id, Owned s id) ∧ ∀ id, Kept register s.table s.running id := by
  have hstep : ∀ op s, ((∀ id, Owned s id) ∧ ∀ id, Kept register s.table s.running id) → True →
      (∀ id, Owned (step register op s) id) ∧
        ∀ id, Kept register (step register op s).table (step register op s).running id := by
    intro op s h _
    obtain ⟨howned, hmoves⟩ := step_moves register h.1 op
    exact ⟨howned, kept_of_moves h.2 hmoves⟩
  have hnew : (∀ id, Owned newManager id) ∧
      ∀ id, Kept register newManager.table newManager.running id :=
    ⟨owned_of_emptyMaps fun _ => ⟨rfl, rfl⟩, kept_new register⟩
  have hmeets : Meets (step register) (fun _ _ => True) ops newManager :=
    meets_of_forall fun _ _ _ => trivial
  exact run_of_invariant hstep hnew hmeets

/-- No one has edited or deleted the row of a link behind its server. -/
def Unedited (t : LinkTable) (id : Nat) (link : Link) : Prop :=
  ∃ row, t.rows id = some row ∧ row.isDelete = false ∧ row.toColumns = link.toColumns

theorem Columns.setRunning_self {c : Columns} (h : c.status = some .running) :
    { c with status := some .running } = c := by
  rw [← h]

/-- A server is started again as it was iff its row is still that of its link. -/
theorem recoveredLink_eq_iff (h : Kept register s.table s.running id)
    (hstart : Runs s.table id → Startable register up s.table id)
    (hrunning : s.running id = some link) :
    recoveredLink register up s.table id = some link ↔ Unedited s.table id link := by
  obtain ⟨up', plugins, hplugins, hid, hlink⟩ := h.configured link hrunning
  constructor
  · intro hrecovered
    by_cases hruns : Runs s.table id
    · have ⟨link', hlink', hstatus⟩ := hruns
      obtain ⟨plugins', link'', hlink'', hplugins', -⟩ := hstart hruns
      obtain rfl := Option.some.inj (hlink'.symm.trans hlink'')
      rw [recoveredLink_of_runs hlink' hstatus hplugins'] at hrecovered
      obtain ⟨row, hrow, hdel, rfl⟩ := LinkTable.selectLinkById_eq_some hlink'
      refine ⟨row, hrow, hdel, ?_⟩
      rw [← Option.some.inj hrecovered]
      exact (Columns.setRunning_self hstatus).symm
    · rw [recoveredLink_of_not_runs hruns] at hrecovered
      cases hrecovered
  · rintro ⟨row, hrow, hdel, hcolumns⟩
    have hstatus : link.status = some .running := by rw [hlink]
    have hselect : s.table.selectLinkById id = some { link with
        requestSigner := none, requestExtractor := none, storage := none } := by
      rw [LinkTable.selectLinkById_of_row hrow hdel, hcolumns, ← hid]
    obtain ⟨plugins', link', hlink', hplugins', -⟩ := hstart ⟨_, hselect, hstatus⟩
    obtain rfl := Option.some.inj (hselect.symm.trans hlink')
    obtain rfl := createPlugins_unique hplugins
      ((createPlugins_congr register (up id) rfl rfl rfl).trans hplugins')
    rw [recoveredLink_of_runs hselect hstatus hplugins']
    exact congrArg some hlink.symm

/-- **A restart gives every link the server it had**, and no other link one, exactly when no row of
a registered link was edited or deleted. -/
theorem running_restart_iff (register : ProtocolRegister) (ops : List Operation)
    (stops : Nat → Bool) (ids : List Nat) (up : Nat → Startup) (order : List Nat)
    (hlisted : Listed (run (step register) ops newManager).table order)
    (hstart : ∀ id, Runs (run (step register) ops newManager).table id →
      Startable register up (run (step register) ops newManager).table id) :
    let s := run (step register) ops newManager
    (restart register stops ids up order s).running = s.running ↔
      ∀ id link, s.running id = some link → Unedited s.table id link := by
  have ⟨_, hkept⟩ := kept_run register ops
  intro s
  constructor
  · intro hsame id link hrunning
    refine (recoveredLink_eq_iff (hkept id) (hstart id) hrunning).mp ?_
    rw [← running_restart stops ids hlisted hstart id, hsame]
    exact hrunning
  · intro hunedited
    funext id
    rw [running_restart stops ids hlisted hstart id]
    cases hrunning : s.running id with
    | some link =>
      exact (recoveredLink_eq_iff (hkept id) (hstart id) hrunning).mpr
        (hunedited id link hrunning)
    | none =>
      refine recoveredLink_of_not_runs ?_
      rintro ⟨link, hlink, hstatus⟩
      obtain ⟨row, hrow, hdel, rfl⟩ := LinkTable.selectLinkById_eq_some hlink
      exact ((hkept id).status row hrow hdel).mp hstatus hrunning

/-- A link that is added, started and switched. -/
def switched : LinkControl :=
  run (step httpRegister) [.addLink recordForm, .startServer 1 freePort, .changeWorkMode 1 .REPLAY]
    newManager

theorem eq_one_of_row {row : LinkRow} (h : switched.table.rows id = some row) : id = 1 := by
  have hlt : id < 2 := switched.table.ids_lt id row h
  have hzero : id ≠ 0 := by
    rintro rfl
    cases h
  omega

theorem listed_switched : Listed switched.table [1] where
  nodup := List.nodup_singleton 1
  mem_iff id := by
    rw [List.mem_singleton]
    constructor
    · rintro rfl
      exact ⟨_, rfl, rfl⟩
    · rintro ⟨row, hrow, -⟩
      exact eq_one_of_row hrow

theorem running_restart_switched :
    (restart httpRegister (fun _ => true) [1] (fun _ => freePort) [1] switched).running =
      switched.running ∧ switched.running 1 ≠ none := by
  refine ⟨?_, Option.some_ne_none _⟩
  refine (running_restart_iff httpRegister _ (fun _ => true) [1] (fun _ => freePort) [1]
    listed_switched fun id hruns => ?_).mpr fun id link hrunning => ?_
  · obtain ⟨row, hrow, -⟩ := live_of_runs hruns
    obtain rfl := eq_one_of_row hrow
    exact ⟨_, _, rfl, rfl, rfl⟩
  · have hruns : switched.running id ≠ none := fun hnone =>
      Option.some_ne_none _ (hrunning.symm.trans hnone)
    obtain ⟨row, hrow⟩ := ((kept_run httpRegister _).2 id).row hruns
    obtain rfl := eq_one_of_row hrow
    obtain rfl := Option.some.inj (hrunning.symm.trans rfl)
    exact ⟨_, rfl, rfl, rfl⟩

end Restart

end Terminator.Manager
