import Terminator.Manager.LinkControl

/-!
# The manager, link by link

What matters of a state of `LinkControl` is the table and, for each id, the `Link` object the
registered server runs on (`running`). `Moves` is how a request changes these two, said without
references: the manager as an abstract machine.

**`step_moves`** connects the levels: from a state in which every id is `Owned` (both maps hold it
or neither does, and its server runs on an object no other id's server shares), a request leads to
such a state again, by one of the `Moves`.
-/

namespace Terminator.Manager

open Terminator.Java Terminator.Storage

/-- The link the server registered for the id runs on. -/
def LinkControl.running (s : LinkControl) (id : Nat) : Option Link :=
  (s.linkIdServerMap id).map fun q => s.links.get (s.servers.get q).link

/-- The id in memory. The server runs, or has lost its channels to a `stopServer` that failed. -/
inductive Owned (s : LinkControl) (id : Nat) : Prop where
  | unregistered (hq : s.linkIdServerMap id = none) (hl : s.linkIdLinkMap id = none)
  | registered {q l : Ref} (hq : s.linkIdServerMap id = some q) (hl : s.linkIdLinkMap id = some l)
      (hq_lt : q < s.servers.size) (hl_lt : l < s.links.size)
      (hserver : (s.servers.get q).link = l) (hid : (s.links.get l).id = some id)

/-- Neither map holds an id. -/
def EmptyMaps (s : LinkControl) : Prop :=
  ∀ id, s.linkIdServerMap id = none ∧ s.linkIdLinkMap id = none

theorem owned_of_emptyMaps {s : LinkControl} (h : EmptyMaps s) (id : Nat) : Owned s id :=
  .unregistered (h id).1 (h id).2

/-- How a request changes the rows and the running links. -/
inductive Moves (register : ProtocolRegister) (t : LinkTable) (running : Nat → Option Link) :
    Operation → LinkTable → (Nat → Option Link) → Prop where
  | addLink (form : LinkForm) :
      Moves register t running (.addLink form) (t.insertLink (form.link none)) running
  | updateLink (id : Nat) (form : LinkForm) :
      Moves register t running (.updateLink id form) (t.updateLink (form.link (some id))) running
  | deleteLink (id : Nat) :
      Moves register t running (.deleteLink id) (t.deleteLink id) running
  | startIdle {id : Nat} {up : Startup} (h : ∀ plugins, ¬ Opens register up id t plugins) :
      Moves register t running (.startServer id up) t running
  | startAgain {id : Nat} {up : Startup} {link link' : Link}
      (hlink : t.selectLinkById id = some link) (hrunning : running id = some link') :
      Moves register t running (.startServer id up) (t.setStatus .running id) running
  | start {id : Nat} {up : Startup} {link : Link} {plugins : JString × JString}
      (hlink : t.selectLinkById id = some link) (hrunning : running id = none)
      (hplugins : createPlugins register up link = .ok plugins) (hbinds : up.binds = true) :
      Moves register t running (.startServer id up) (t.setStatus .running id)
        (Function.update running id
          (some { link.configured plugins.1 plugins.2 with status := some .running }))
  | stopIdle {id : Nat} {stops : Bool}
      (h : t.selectLinkById id = none ∨ (stops = false ∧ running id ≠ none)) :
      Moves register t running (.stopServer id stops) t running
  | stopAgain {id : Nat} {stops : Bool} {link : Link}
      (hlink : t.selectLinkById id = some link) (hrunning : running id = none) :
      Moves register t running (.stopServer id stops) (t.setStatus .stopped id) running
  | stop {id : Nat} {link link' : Link} (hlink : t.selectLinkById id = some link)
      (hrunning : running id = some link') :
      Moves register t running (.stopServer id true) (t.setStatus .stopped id)
        (Function.update running id none)
  | changeIdle {id : Nat} {mode : WorkMode} (hrunning : running id = none) :
      Moves register t running (.changeWorkMode id mode) t running
  | changeGone {id : Nat} {mode : WorkMode} {link : Link} (hrunning : running id = some link)
      (hlink : t.selectLinkById id = none) :
      Moves register t running (.changeWorkMode id mode) t
        (Function.update running id (some { link with workMode := some mode }))
  | change {id : Nat} {mode : WorkMode} {link link' : Link} (hrunning : running id = some link)
      (hlink : t.selectLinkById id = some link') :
      Moves register t running (.changeWorkMode id mode) (t.setWorkMode mode id)
        (Function.update running id (some { link with workMode := some mode }))

section Frames

variable {s s' : LinkControl} {id : Nat}

/-- A server keeps its link. -/
theorem link_of_set_state (servers : Heap Server) (q q' : Ref) (state : ServerState) :
    ((servers.set q { servers.get q with state := state }).get q').link
      = (servers.get q').link := by
  rcases Heap.get_set_or servers q q' { servers.get q with state := state } with
    hsame | ⟨rfl, hset⟩
  · rw [hsame]
  · rw [hset]

theorem running_eq_none_iff : s.running id = none ↔ s.linkIdServerMap id = none :=
  Option.map_eq_none_iff

theorem running_of_server {q l : Ref} (hq : s.linkIdServerMap id = some q)
    (hserver : (s.servers.get q).link = l) : s.running id = some (s.links.get l) := by
  unfold LinkControl.running
  rw [hq, Option.map_some, hserver]

/-- What is known of an id with a server. -/
theorem Owned.of_server (h : Owned s id) {q : Ref} (hq : s.linkIdServerMap id = some q) :
    ∃ l, s.linkIdLinkMap id = some l ∧ q < s.servers.size ∧ l < s.links.size ∧
      (s.servers.get q).link = l ∧ (s.links.get l).id = some id := by
  cases h with
  | unregistered hq' => rw [hq'] at hq; cases hq
  | @registered q' l hq' hl hq_lt hl_lt hserver hid =>
    obtain rfl := Option.some.inj (hq'.symm.trans hq)
    exact ⟨l, hl, hq_lt, hl_lt, hserver, hid⟩

theorem Owned.of_no_server (h : Owned s id) (hq : s.linkIdServerMap id = none) :
    s.linkIdLinkMap id = none := by
  cases h with
  | unregistered _ hl => exact hl
  | registered hq' => rw [hq'] at hq; cases hq

/-- An id keeps its link when its entries, its server and its link stay as they are. -/
theorem Owned.frame (h : Owned s id) (hq : s'.linkIdServerMap id = s.linkIdServerMap id)
    (hl : s'.linkIdLinkMap id = s.linkIdLinkMap id)
    (hservers : ∀ q, s.linkIdServerMap id = some q → q < s.servers.size →
      q < s'.servers.size ∧ (s'.servers.get q).link = (s.servers.get q).link)
    (hlinks : ∀ l, l < s.links.size → (s.links.get l).id = some id →
      l < s'.links.size ∧ s'.links.get l = s.links.get l) :
    Owned s' id ∧ s'.running id = s.running id := by
  cases h with
  | unregistered hq0 hl0 =>
    rw [hq0] at hq
    rw [hl0] at hl
    exact ⟨.unregistered hq hl,
      (running_eq_none_iff.mpr hq).trans (running_eq_none_iff.mpr hq0).symm⟩
  | @registered q l hq0 hl0 hq_lt hl_lt hserver hid =>
    obtain ⟨hq_lt', hserver'⟩ := hservers q hq0 hq_lt
    obtain ⟨hl_lt', hlink'⟩ := hlinks l hl_lt hid
    rw [hq0] at hq
    rw [hl0] at hl
    rw [hserver] at hserver'
    refine ⟨.registered hq hl hq_lt' hl_lt' hserver' (by rw [hlink', hid]), ?_⟩
    rw [running_of_server hq hserver', running_of_server hq0 hserver, hlink']

/-- Two ids never share a server. -/
theorem server_ne {id' : Nat} {q q' : Ref} (h : Owned s id) (h' : Owned s id') (hne : id' ≠ id)
    (hq : s.linkIdServerMap id = some q) (hq' : s.linkIdServerMap id' = some q') : q ≠ q' := by
  rintro rfl
  obtain ⟨l, -, -, -, hserver, hid⟩ := h.of_server hq
  obtain ⟨l', -, -, -, hserver', hid'⟩ := h'.of_server hq'
  obtain rfl : l = l' := hserver.symm.trans hserver'
  exact hne (Option.some.inj (hid'.symm.trans hid))

end Frames

/-! ## A request moves -/

variable {register : ProtocolRegister} {s : LinkControl}

/-- A state with the same maps, the same running links, and every id owned. -/
theorem moves_of_frame {op : Operation} {s' : LinkControl}
    (h : ∀ id, Owned s' id ∧ s'.running id = s.running id)
    (hmoves : Moves register s.table s.running op s'.table s.running) :
    (∀ id, Owned s' id) ∧ Moves register s.table s.running op s'.table s'.running := by
  have hrunning : s'.running = s.running := funext fun id => (h id).2
  rw [hrunning]
  exact ⟨fun id => (h id).1, hmoves⟩

/-- A state in which one id changes. -/
theorem moves_of_update {op : Operation} {s' : LinkControl} (id : Nat) {link : Option Link}
    (h : ∀ id', id' ≠ id → Owned s' id' ∧ s'.running id' = s.running id')
    (hself : Owned s' id) (hlink : s'.running id = link)
    (hmoves : Moves register s.table s.running op s'.table (Function.update s.running id link)) :
    (∀ id, Owned s' id) ∧ Moves register s.table s.running op s'.table s'.running := by
  have hrunning : s'.running = Function.update s.running id link := by
    funext id'
    by_cases hid : id' = id
    · rw [hid, hlink, Function.update_self]
    · rw [(h id' hid).2, Function.update_of_ne hid]
  rw [hrunning]
  refine ⟨fun id' => ?_, hmoves⟩
  by_cases hid : id' = id
  · rw [hid]
    exact hself
  · exact (h id' hid).1

/-- Building objects and writing rows leaves the objects of an id as they are. -/
theorem Owned.frame_alloc {s' : LinkControl} {id : Nat} (h : Owned s id) (link : Link)
    (hq : s'.linkIdServerMap id = s.linkIdServerMap id)
    (hl : s'.linkIdLinkMap id = s.linkIdLinkMap id)
    (hservers : s'.servers = s.servers ∨ ∃ server, s'.servers = (s.servers.alloc server).2)
    (hlinks : s'.links = (s.links.alloc link).2) :
    Owned s' id ∧ s'.running id = s.running id := by
  refine h.frame hq hl (fun q _ hq => ?_) fun l hl _ => ?_
  · rcases hservers with hservers | ⟨server, hservers⟩
    · rw [hservers]
      exact ⟨hq, rfl⟩
    · rw [hservers]
      exact ⟨Heap.lt_size_alloc hq server, congrArg Server.link (Heap.get_alloc_of_lt hq server)⟩
  · rw [hlinks]
    exact ⟨Heap.lt_size_alloc hl link, Heap.get_alloc_of_lt hl link⟩

theorem startServer_moves (h : ∀ id, Owned s id) (id : Nat) (up : Startup) :
    let s' := after ((startServer register up id).run s)
    (∀ id, Owned s' id) ∧
      Moves register s.table s.running (.startServer id up) s'.table s'.running := by
  have hstarts := startServer_starts register up s id
  generalize (startServer register up id).run s = result at hstarts
  cases hstarts with
  | absent hlink =>
    refine ⟨h, .startIdle fun plugins hopens => ?_⟩
    obtain ⟨link, hlink', -⟩ := hopens
    rw [hlink] at hlink'
    cases hlink'
  | again hlink hq =>
    exact moves_of_frame (fun id' => (h id').frame_alloc _ rfl rfl (.inl rfl) rfl)
      (.startAgain hlink (by unfold LinkControl.running; rw [hq, Option.map_some]))
  | failed e link' servers hlink hq hfail hservers =>
    exact moves_of_frame (fun id' => (h id').frame_alloc _ rfl rfl hservers rfl) (.startIdle hfail)
  | @opened link plugins hlink hq hplugins hbinds =>
    refine moves_of_update id (fun id' hid => (h id').frame_alloc _
      (Function.update_of_ne hid _ _) (Function.update_of_ne hid _ _) (.inr ⟨_, rfl⟩) rfl) ?_ ?_
      (.start hlink (running_eq_none_iff.mpr hq) hplugins hbinds)
    · refine .registered (Function.update_self _ _ _) (Function.update_self _ _ _)
        (Heap.size_lt_size_alloc _ _) (Heap.size_lt_size_alloc _ _)
        (congrArg Server.link (Heap.get_alloc_self _ _)) ?_
      rw [after_ok, Heap.get_alloc_self]
      exact (LinkTable.id_of_selectLinkById hlink : link.id = some id)
    · have hserver : ((s.servers.alloc ⟨s.links.size, .running⟩).2.get s.servers.size).link
          = s.links.size := congrArg Server.link (Heap.get_alloc_self _ _)
      rw [running_of_server (Function.update_self _ _ _) hserver]
      exact congrArg some (Heap.get_alloc_self _ _)

theorem stopServer_moves (h : ∀ id, Owned s id) (id : Nat) (stops : Bool) :
    let s' := after ((stopServer stops id).run s)
    (∀ id, Owned s' id) ∧
      Moves register s.table s.running (.stopServer id stops) s'.table s'.running := by
  have hstops := stopServer_stops stops s id
  generalize (stopServer stops id).run s = result at hstops
  cases hstops with
  | absent hlink => exact ⟨h, .stopIdle (.inl hlink)⟩
  | failed hlink hq hstops =>
    refine moves_of_frame (fun id' => ?_) (.stopIdle (.inr ⟨hstops, fun hnone => ?_⟩))
    · exact (h id').frame rfl rfl
        (fun q' _ hlt => ⟨by rw [after_error, Heap.size_set]; exact hlt, link_of_set_state _ _ _ _⟩)
        fun l hl _ => ⟨Heap.lt_size_alloc hl _, Heap.get_alloc_of_lt hl _⟩
    · rw [running_eq_none_iff.mp hnone] at hq
      cases hq
  | again hlink hq =>
    refine moves_of_frame (fun id' => (h id').frame_alloc _ rfl ?_ (.inl rfl) rfl)
      (.stopAgain hlink (running_eq_none_iff.mpr hq))
    by_cases hid : id' = id
    · rw [hid]
      exact (Function.update_self _ _ _).trans ((h id).of_no_server hq).symm
    · exact Function.update_of_ne hid _ _
  | @closed link q hlink hq hstops =>
    rw [hstops]
    refine moves_of_update id (fun id' hid => ?_)
      (.unregistered (Function.update_self _ _ _) (Function.update_self _ _ _))
      (running_eq_none_iff.mpr (Function.update_self _ _ _))
      (.stop hlink (by unfold LinkControl.running; rw [hq, Option.map_some]))
    refine (h id').frame (Function.update_of_ne hid _ _) (Function.update_of_ne hid _ _)
      (fun q' hq' hlt => ⟨by rw [after_ok, Heap.size_set]; exact hlt, ?_⟩)
      fun l hl _ => ⟨Heap.lt_size_alloc hl _, Heap.get_alloc_of_lt hl _⟩
    exact link_of_set_state _ _ _ _

/-- `s'` is `s` after `server.changeWorkMode(mode)`, with more objects at most. -/
structure ModeSet (s s' : LinkControl) (q : Ref) (mode : WorkMode) : Prop where
  servers : s'.servers = s.servers
  serverMap : s'.linkIdServerMap = s.linkIdServerMap
  linkMap : s'.linkIdLinkMap = s.linkIdLinkMap
  links : ∀ l, l < s.links.size → l < s'.links.size ∧ s'.links.get l = (modeLinks s mode q).get l

section ModeLinks

variable {s' : LinkControl} {id : Nat} {q : Ref} {mode : WorkMode}

/-- The mode of one server's link is no other server's. -/
theorem ModeSet.frame (hset : ModeSet s s' q mode) (h : ∀ id, Owned s id)
    (hq : s.linkIdServerMap id = some q) {id' : Nat} (hne : id' ≠ id) :
    Owned s' id' ∧ s'.running id' = s.running id' := by
  refine (h id').frame (by rw [hset.serverMap]) (by rw [hset.linkMap])
    (fun q _ hq => by rw [hset.servers]; exact ⟨hq, rfl⟩) fun l hl hid => ⟨(hset.links l hl).1, ?_⟩
  rw [(hset.links l hl).2]
  refine Heap.get_set_ne ?_ _
  rintro rfl
  obtain ⟨l', -, -, -, hserver, hid'⟩ := (h id).of_server hq
  rw [hserver, hid'] at hid
  exact hne (Option.some.inj hid).symm

theorem ModeSet.running (hset : ModeSet s s' q mode) (h : Owned s id)
    (hq : s.linkIdServerMap id = some q) :
    Owned s' id ∧ ∃ link, s.running id = some link ∧
      s'.running id = some { link with workMode := some mode } := by
  obtain ⟨l, hl, hq_lt, hl_lt, hserver, hid⟩ := h.of_server hq
  obtain ⟨hl_lt', hget⟩ := hset.links l hl_lt
  unfold modeLinks at hget
  rw [hserver, Heap.get_set_self hl_lt] at hget
  have hserver' : (s'.servers.get q).link = l := by rw [hset.servers, hserver]
  have hq' : s'.linkIdServerMap id = some q := by rw [hset.serverMap, hq]
  refine ⟨.registered hq' (by rw [hset.linkMap, hl]) (by rw [hset.servers]; exact hq_lt) hl_lt'
    hserver' (by rw [hget]; exact hid), s.links.get l, running_of_server hq hserver, ?_⟩
  rw [running_of_server hq' hserver', hget]

end ModeLinks

theorem changeWorkMode_moves (h : ∀ id, Owned s id) (id : Nat) (mode : WorkMode) :
    let s' := after ((changeWorkMode mode id).run s)
    (∀ id, Owned s' id) ∧
      Moves register s.table s.running (.changeWorkMode id mode) s'.table s'.running := by
  have hchanges := changeWorkMode_changes mode s id
  generalize (changeWorkMode mode id).run s = result at hchanges
  have hsize : ∀ q l, l < s.links.size → l < (modeLinks s mode q).size := fun q l hl => by
    unfold modeLinks
    rw [Heap.size_set]
    exact hl
  cases hchanges with
  | refused hq => exact ⟨h, .changeIdle (running_eq_none_iff.mpr hq)⟩
  | @gone q hq hlink =>
    have hset : ModeSet s { s with links := modeLinks s mode q } q mode :=
      ⟨rfl, rfl, rfl, fun l hl => ⟨hsize q l hl, rfl⟩⟩
    obtain ⟨hself, link, hrunning, hrunning'⟩ := hset.running (h id) hq
    exact moves_of_update id (fun id' hid => hset.frame h hq hid) hself hrunning'
      (.changeGone hrunning hlink)
  | @changed link' q hq hlink =>
    have hset : ModeSet s { s with
        table := s.table.setWorkMode mode id
        links := ((modeLinks s mode q).alloc { link' with workMode := some mode }).2 } q mode :=
      ⟨rfl, rfl, rfl, fun l hl =>
        ⟨Heap.lt_size_alloc (hsize q l hl) _, Heap.get_alloc_of_lt (hsize q l hl) _⟩⟩
    obtain ⟨hself, link, hrunning, hrunning'⟩ := hset.running (h id) hq
    exact moves_of_update id (fun id' hid => hset.frame h hq hid) hself hrunning'
      (.change hrunning hlink)

/-- **A request moves**: from a state in which every id is owned to one in which every id is. -/
theorem step_moves (register : ProtocolRegister) (h : ∀ id, Owned s id) (op : Operation) :
    (∀ id, Owned (step register op s) id) ∧
      Moves register s.table s.running op (step register op s).table
        (step register op s).running := by
  have htable : ∀ t : LinkTable, ∀ id, Owned { s with table := t } id ∧
      LinkControl.running { s with table := t } id = s.running id := fun t id =>
    (h id).frame rfl rfl (fun _ _ hq => ⟨hq, rfl⟩) fun _ hl _ => ⟨hl, rfl⟩
  cases op with
  | addLink form => exact moves_of_frame (htable _) (.addLink form)
  | updateLink id form => exact moves_of_frame (htable _) (.updateLink id form)
  | deleteLink id => exact moves_of_frame (htable _) (.deleteLink id)
  | startServer id up => exact startServer_moves h id up
  | stopServer id stops => exact stopServer_moves h id stops
  | changeWorkMode id mode => exact changeWorkMode_moves h id mode

end Terminator.Manager
