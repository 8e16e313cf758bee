import Terminator.Manager.LinkControl
import Terminator.Run.Invariant

/-!
# Requests for one link, side by side

`startServer`, `stopServer`, `changeWorkMode` and `updateLink` of one link, called by any number of
threads. Nothing locks the row or the two maps, so the calls interleave statement by statement: read
the row, look the server up, build and bind a server or stop it, update each map, write the row. The
statements are those of `LinkControl`; `Phase` says which of them a thread has behind it. A thread
that is not ready for a step leaves the state as it is, so every list of events is an interleaving.

* `takes_step`: what a step can do;
* **`alone_startServer`**, **`alone_stopServer`**, **`alone_changeWorkMode`**: a request no other
  thread interferes with does what the method of `LinkControl` does.
-/

namespace Terminator.Manager.Requests

open Terminator.Java Terminator.Run

/-- A request of several statements. -/
inductive Request where
  | startServer (up : Startup)
  | stopServer (stops : Bool)
  | changeWorkMode (mode : WorkMode)

/-- What a thread has behind it, and the objects it holds. -/
inductive Phase where
  | idle
  | startRead (up : Startup) (l : Ref)
  | startMissing (up : Startup) (l : Ref)
  | startOpened (l q : Ref)
  | startLinkPut (l q : Ref)
  | startRegistered (l : Ref)
  | stopRead (stops : Bool) (l : Ref)
  | stopFound (stops : Bool) (l q : Ref)
  | stopStopped (l : Ref)
  | stopUnregistered (l : Ref)
  | stopLinkRemoved (l : Ref)
  | changeFound (mode : WorkMode) (q : Ref)
  | changeSet (mode : WorkMode)
  | changeRead (mode : WorkMode) (l : Ref)
  | done

/-- The manager and its threads. -/
structure Threads where
  control : LinkControl
  phase : Nat → Phase

/-- A thread takes up a request, or goes on with it; `updateLink` is a single statement. -/
inductive Event where
  | begin (t : Nat) (request : Request)
  | go (t : Nat)
  | updateLink (form : LinkForm)

/-! ## Statements -/

/-- `linkIdServerMap.get(linkId)`. -/
def lookup (id : Nat) : Method LinkControl (Option Ref) := do return (← get).linkIdServerMap id

/-- `configLink(link); server = new ServerImpl(link); server.start()`. -/
def createServer (register : ProtocolRegister) (up : Startup) (l : Ref) :
    Method LinkControl Ref := do
  configLink register up l
  let q ← newServer l
  Server.start up q
  return q

/-- `linkIdLinkMap.put(linkId, link)`, or `remove`. -/
def setLinkMap (id : Nat) (l : Option Ref) : Method LinkControl Unit :=
  modify fun s => { s with linkIdLinkMap := Function.update s.linkIdLinkMap id l }

/-- `linkIdServerMap.put(linkId, server)`, or `remove`. -/
def setServerMap (id : Nat) (q : Option Ref) : Method LinkControl Unit :=
  modify fun s => { s with linkIdServerMap := Function.update s.linkIdServerMap id q }

/-- `link.setStatus(status); linkService.modifyLink(link)`. -/
def writeStatus (status : ServerStatus) (l : Ref) : Method LinkControl Unit := do
  setLink l fun link => { link with status := some status }
  modifyLink l

/-- `link.setWorkMode(mode); linkService.modifyLink(link)`. -/
def writeWorkMode (mode : WorkMode) (l : Ref) : Method LinkControl Unit := do
  setLink l fun link => { link with workMode := some mode }
  modifyLink l

/-! ## Steps -/

/-- Thread `t` executes a statement; an exception ends its request. -/
def Threads.perform {α : Type} (t : Nat) (statement : Method LinkControl α) (next : α → Phase)
    (s : Threads) : Threads :=
  match statement.run s.control with
  | .ok a control => ⟨control, Function.update s.phase t (next a)⟩
  | .error _ control => ⟨control, Function.update s.phase t .done⟩

/-- How a thread goes on from a lookup. -/
def whenFound (found : Ref → Phase) (missing : Phase) : Option Ref → Phase
  | none => missing
  | some r => found r

/-- The first statement of a request. -/
def first (id t : Nat) : Request → Threads → Threads
  | .startServer up => Threads.perform t (getLinkById id) (whenFound (.startRead up) .done)
  | .stopServer stops => Threads.perform t (getLinkById id) (whenFound (.stopRead stops) .done)
  | .changeWorkMode mode => Threads.perform t (lookup id) (whenFound (.changeFound mode) .done)

/-- The next statement of a request. -/
def next (register : ProtocolRegister) (id t : Nat) : Phase → Threads → Threads
  | .idle => fun s => s
  | .startRead up l => Threads.perform t (lookup id)
      (whenFound (fun _ => .startRegistered l) (.startMissing up l))
  | .startMissing up l => Threads.perform t (createServer register up l) (.startOpened l)
  | .startOpened l q => Threads.perform t (setLinkMap id (some l)) fun _ => .startLinkPut l q
  | .startLinkPut l q => Threads.perform t (setServerMap id (some q)) fun _ => .startRegistered l
  | .startRegistered l => Threads.perform t (writeStatus .running l) fun _ => .done
  | .stopRead stops l => Threads.perform t (lookup id)
      (whenFound (.stopFound stops l) (.stopUnregistered l))
  | .stopFound stops l q => Threads.perform t (Server.stop stops q) fun _ => .stopStopped l
  | .stopStopped l => Threads.perform t (setServerMap id none) fun _ => .stopUnregistered l
  | .stopUnregistered l => Threads.perform t (setLinkMap id none) fun _ => .stopLinkRemoved l
  | .stopLinkRemoved l => Threads.perform t (writeStatus .stopped l) fun _ => .done
  | .changeFound mode q => Threads.perform t (Server.changeWorkMode mode q) fun _ => .changeSet mode
  | .changeSet mode => Threads.perform t (getLinkById id) (whenFound (.changeRead mode) .done)
  | .changeRead mode l => Threads.perform t (writeWorkMode mode l) fun _ => .done
  | .done => fun s => s

/-- One step of one thread. -/
def step (register : ProtocolRegister) (id : Nat) : Event → Threads → Threads
  | .begin t request, s =>
    match s.phase t with
    | .idle => first id t request s
    | _ => s
  | .go t, s => next register id t (s.phase t) s
  | .updateLink form, s =>
    { s with control := { s.control with
        table := s.control.table.updateLink (form.link (some id)) } }

/-- No thread is in the middle of a request. -/
def Threads.Completed (s : Threads) : Prop := ∀ t, s.phase t = .idle ∨ s.phase t = .done

/-- Threads that have not taken up a request. -/
def ready (c : LinkControl) : Threads := ⟨c, fun _ => .idle⟩

/-- A link that was added and never started. -/
def addedLink : LinkControl := Manager.step httpRegister (.addLink recordForm) newManager

/-! ## What a statement does -/

section Statements

variable {register : ProtocolRegister} {up : Startup} {c c' : LinkControl} {id : Nat} {l q : Ref}

/-- `createServer` works on its own link and builds a server at most. -/
structure Builds (c : LinkControl) (l : Ref) (c' : LinkControl) : Prop where
  table : c'.table = c.table
  serverMap : c'.linkIdServerMap = c.linkIdServerMap
  linkMap : c'.linkIdLinkMap = c.linkIdLinkMap
  links : c'.links = c.links ∨ ∃ signer extractor,
    c'.links = c.links.set l ((c.links.get l).configured signer extractor)
  servers : c'.servers = c.servers ∨ ∃ server, c'.servers = (c.servers.alloc server).2

theorem configLink_builds (register : ProtocolRegister) (up : Startup) (c : LinkControl) (l : Ref) :
    Builds c l (after ((configLink register up l).run c)) ∧
      (after ((configLink register up l).run c)).servers = c.servers := by
  have hread : (readLink l).run c = .ok (c.links.get l) c := rfl
  unfold configLink
  rw [run_bind_of_ok hread]
  cases createPlugins register up (c.links.get l) with
  | error e =>
    rw [run_bind_of_error (run_fromExcept_error e c), after_error]
    exact ⟨⟨rfl, rfl, rfl, .inl rfl, .inl rfl⟩, rfl⟩
  | ok plugins =>
    rw [run_bind_of_ok (run_fromExcept_ok plugins c)]
    exact ⟨⟨rfl, rfl, rfl, .inr ⟨plugins.1, plugins.2, rfl⟩, .inl rfl⟩, rfl⟩

/-- **`createServer`**: if it returns, the server is a new one and runs. -/
theorem createServer_builds (register : ProtocolRegister) (up : Startup) (c : LinkControl)
    (l : Ref) :
    Builds c l (after ((createServer register up l).run c)) ∧
      ∀ q c', (createServer register up l).run c = .ok q c' →
        c'.servers = (c.servers.alloc ⟨l, .running⟩).2 ∧ q = c.servers.size := by
  unfold createServer
  obtain ⟨hbuilds, hservers⟩ := configLink_builds register up c l
  cases hconfig : (configLink register up l).run c with
  | error e c1 =>
    rw [hconfig, after_error] at hbuilds
    rw [run_bind_of_error hconfig, after_error]
    exact ⟨hbuilds, fun q c' h => by cases h⟩
  | ok u c1 =>
    rw [hconfig, after_ok] at hbuilds hservers
    rw [run_bind_of_ok hconfig, run_bind_of_ok (newServer_run l c1)]
    cases hbinds : up.binds with
    | false =>
      rw [run_bind_of_error (Server.start_run_of_taken hbinds), after_error]
      refine ⟨⟨hbuilds.table, hbuilds.serverMap, hbuilds.linkMap, hbuilds.links,
        .inr ⟨⟨l, .idle⟩, ?_⟩⟩, fun q c' h => by cases h⟩
      dsimp only
      rw [hservers]
    | true =>
      rw [run_bind_of_ok (Server.start_run_alloc hbinds rfl)]
      refine ⟨⟨hbuilds.table, hbuilds.serverMap, hbuilds.linkMap, hbuilds.links,
        .inr ⟨⟨l, .running⟩, ?_⟩⟩, fun q c' h => ?_⟩
      · rw [EStateM.run_pure, after_ok]
        dsimp only
        rw [hservers]
      · rw [EStateM.run_pure] at h
        obtain ⟨hq, hc⟩ := EStateM.Result.ok.inj h
        rw [← hc, ← hq, ← hservers]
        exact ⟨rfl, rfl⟩

/-- The manager after a link was written back with another status. -/
def statusWritten (status : ServerStatus) (l : Ref) (c : LinkControl) : LinkControl :=
  let links := c.links.set l { c.links.get l with status := some status }
  { c with links := links, table := c.table.updateLink (links.get l) }

/-- The manager after a link was written back with another mode. -/
def workModeWritten (mode : WorkMode) (l : Ref) (c : LinkControl) : LinkControl :=
  let links := c.links.set l { c.links.get l with workMode := some mode }
  { c with links := links, table := c.table.updateLink (links.get l) }

end Statements

/-! ## What a step can do -/

/-- The first statement of a request: the manager it leaves, and how far the thread gets. -/
inductive Begins (id : Nat) (c : LinkControl) : Request → LinkControl → Phase → Prop where
  | absent {up : Startup} (hlink : c.table.selectLinkById id = none) :
      Begins id c (.startServer up) c .done
  | startRead {up : Startup} {link : Link} (hlink : c.table.selectLinkById id = some link) :
      Begins id c (.startServer up) { c with links := (c.links.alloc link).2 }
        (.startRead up c.links.size)
  | stopAbsent {stops : Bool} (hlink : c.table.selectLinkById id = none) :
      Begins id c (.stopServer stops) c .done
  | stopRead {stops : Bool} {link : Link} (hlink : c.table.selectLinkById id = some link) :
      Begins id c (.stopServer stops) { c with links := (c.links.alloc link).2 }
        (.stopRead stops c.links.size)
  | refused {mode : WorkMode} (hq : c.linkIdServerMap id = none) :
      Begins id c (.changeWorkMode mode) c .done
  | changeFound {mode : WorkMode} {q : Ref} (hq : c.linkIdServerMap id = some q) :
      Begins id c (.changeWorkMode mode) c (.changeFound mode q)

/-- The next statement of a request. -/
inductive Goes (id : Nat) (c : LinkControl) : Phase → LinkControl → Phase → Prop where
  | startMissing {up : Startup} {l : Ref} (hq : c.linkIdServerMap id = none) :
      Goes id c (.startRead up l) c (.startMissing up l)
  | startFound {up : Startup} {l q : Ref} (hq : c.linkIdServerMap id = some q) :
      Goes id c (.startRead up l) c (.startRegistered l)
  | startFailed {up : Startup} {l : Ref} {c' : LinkControl} (hbuilds : Builds c l c') :
      Goes id c (.startMissing up l) c' .done
  | startOpened {up : Startup} {l : Ref} {c' : LinkControl} (hbuilds : Builds c l c')
      (hservers : c'.servers = (c.servers.alloc ⟨l, .running⟩).2) :
      Goes id c (.startMissing up l) c' (.startOpened l c.servers.size)
  | startLinkPut {l q : Ref} :
      Goes id c (.startOpened l q)
        { c with linkIdLinkMap := Function.update c.linkIdLinkMap id (some l) } (.startLinkPut l q)
  | startRegistered {l q : Ref} :
      Goes id c (.startLinkPut l q)
        { c with linkIdServerMap := Function.update c.linkIdServerMap id (some q) }
        (.startRegistered l)
  | started {l : Ref} : Goes id c (.startRegistered l) (statusWritten .running l c) .done
  | stopMissing {stops : Bool} {l : Ref} (hq : c.linkIdServerMap id = none) :
      Goes id c (.stopRead stops l) c (.stopUnregistered l)
  | stopFound {stops : Bool} {l q : Ref} (hq : c.linkIdServerMap id = some q) :
      Goes id c (.stopRead stops l) c (.stopFound stops l q)
  | stopFailed {l q : Ref} :
      Goes id c (.stopFound false l q)
        { c with servers := c.servers.set q { c.servers.get q with state := .closed } } .done
  | stopStopped {l q : Ref} :
      Goes id c (.stopFound true l q)
        { c with servers := c.servers.set q { c.servers.get q with state := .stopped } }
        (.stopStopped l)
  | stopUnregistered {l : Ref} :
      Goes id c (.stopStopped l)
        { c with linkIdServerMap := Function.update c.linkIdServerMap id none }
        (.stopUnregistered l)
  | stopLinkRemoved {l : Ref} :
      Goes id c (.stopUnregistered l)
        { c with linkIdLinkMap := Function.update c.linkIdLinkMap id none } (.stopLinkRemoved l)
  | stopped {l : Ref} : Goes id c (.stopLinkRemoved l) (statusWritten .stopped l c) .done
  | changeSet {mode : WorkMode} {q : Ref} :
      Goes id c (.changeFound mode q) { c with links := modeLinks c mode q } (.changeSet mode)
  | changeGone {mode : WorkMode} (hlink : c.table.selectLinkById id = none) :
      Goes id c (.changeSet mode) c .done
  | changeRead {mode : WorkMode} {link : Link} (hlink : c.table.selectLinkById id = some link) :
      Goes id c (.changeSet mode) { c with links := (c.links.alloc link).2 }
        (.changeRead mode c.links.size)
  | changed {mode : WorkMode} {l : Ref} :
      Goes id c (.changeRead mode l) (workModeWritten mode l c) .done

/-- What a step can do. -/
inductive Takes (id : Nat) (s : Threads) : Event → Threads → Prop where
  | stay (e : Event) : Takes id s e s
  | begin {t : Nat} {request : Request} {c' : LinkControl} {p' : Phase} (ht : s.phase t = .idle)
      (h : Begins id s.control request c' p') :
      Takes id s (.begin t request) ⟨c', Function.update s.phase t p'⟩
  | go {t : Nat} {c' : LinkControl} {p' : Phase} (h : Goes id s.control (s.phase t) c' p') :
      Takes id s (.go t) ⟨c', Function.update s.phase t p'⟩
  | updateLink (form : LinkForm) :
      Takes id s (.updateLink form) { s with control := { s.control with
        table := s.control.table.updateLink (form.link (some id)) } }

section Inversion

variable {register : ProtocolRegister} {id : Nat} {s : Threads} {t : Nat}

theorem perform_of_ok {α : Type} {statement : Method LinkControl α} {f : α → Phase} {a : α}
    {c : LinkControl} (h : statement.run s.control = .ok a c) :
    s.perform t statement f = ⟨c, Function.update s.phase t (f a)⟩ := by
  unfold Threads.perform
  rw [h]

theorem perform_of_error {α : Type} {statement : Method LinkControl α} {f : α → Phase}
    {e : Throwable} {c : LinkControl} (h : statement.run s.control = .error e c) :
    s.perform t statement f = ⟨c, Function.update s.phase t .done⟩ := by
  unfold Threads.perform
  rw [h]

/-- A lookup in a map throws nothing and changes nothing. -/
theorem perform_lookup (t : Nat) (f : Option Ref → Phase) (s : Threads) :
    s.perform t (lookup id) f =
      ⟨s.control, Function.update s.phase t (f (s.control.linkIdServerMap id))⟩ := rfl

theorem first_begins (id t : Nat) (request : Request) (s : Threads) :
    ∃ c' p', first id t request s = ⟨c', Function.update s.phase t p'⟩ ∧
      Begins id s.control request c' p' := by
  cases request with
  | startServer up =>
    cases hlink : s.control.table.selectLinkById id with
    | none => exact ⟨_, _, perform_of_ok (getLinkById_run_none hlink), .absent hlink⟩
    | some link => exact ⟨_, _, perform_of_ok (getLinkById_run_some hlink), .startRead hlink⟩
  | stopServer stops =>
    cases hlink : s.control.table.selectLinkById id with
    | none => exact ⟨_, _, perform_of_ok (getLinkById_run_none hlink), .stopAbsent hlink⟩
    | some link => exact ⟨_, _, perform_of_ok (getLinkById_run_some hlink), .stopRead hlink⟩
  | changeWorkMode mode =>
    refine ⟨_, _, perform_lookup t _ s, ?_⟩
    cases hq : s.control.linkIdServerMap id with
    | none => exact .refused hq
    | some q => exact .changeFound hq

/-- A thread goes on, unless it has nothing to do. -/
theorem next_goes (register : ProtocolRegister) (id t : Nat) (p : Phase) (s : Threads) :
    next register id t p s = s ∨
      ∃ c' p', next register id t p s = ⟨c', Function.update s.phase t p'⟩ ∧
        Goes id s.control p c' p' := by
  cases p with
  | idle => exact .inl rfl
  | done => exact .inl rfl
  | startRead up l =>
    refine .inr ⟨_, _, perform_lookup t _ s, ?_⟩
    cases hq : s.control.linkIdServerMap id with
    | none => exact .startMissing hq
    | some q => exact .startFound hq
  | startMissing up l =>
    obtain ⟨hbuilds, hok⟩ := createServer_builds register up s.control l
    cases hrun : (createServer register up l).run s.control with
    | error e c' =>
      rw [hrun, after_error] at hbuilds
      exact .inr ⟨_, _, perform_of_error hrun, .startFailed hbuilds⟩
    | ok q c' =>
      rw [hrun, after_ok] at hbuilds
      obtain ⟨hservers, rfl⟩ := hok q c' hrun
      exact .inr ⟨_, _, perform_of_ok hrun, .startOpened hbuilds hservers⟩
  | startOpened l q => exact .inr ⟨_, _, rfl, .startLinkPut⟩
  | startLinkPut l q => exact .inr ⟨_, _, rfl, .startRegistered⟩
  | startRegistered l => exact .inr ⟨_, _, rfl, .started⟩
  | stopRead stops l =>
    refine .inr ⟨_, _, perform_lookup t _ s, ?_⟩
    cases hq : s.control.linkIdServerMap id with
    | none => exact .stopMissing hq
    | some q => exact .stopFound hq
  | stopFound stops l q =>
    cases stops with
    | false => exact .inr ⟨_, _, rfl, .stopFailed⟩
    | true => exact .inr ⟨_, _, rfl, .stopStopped⟩
  | stopStopped l => exact .inr ⟨_, _, rfl, .stopUnregistered⟩
  | stopUnregistered l => exact .inr ⟨_, _, rfl, .stopLinkRemoved⟩
  | stopLinkRemoved l => exact .inr ⟨_, _, rfl, .stopped⟩
  | changeFound mode q => exact .inr ⟨_, _, rfl, .changeSet⟩
  | changeSet mode =>
    cases hlink : s.control.table.selectLinkById id with
    | none => exact .inr ⟨_, _, perform_of_ok (getLinkById_run_none hlink), .changeGone hlink⟩
    | some link => exact .inr ⟨_, _, perform_of_ok (getLinkById_run_some hlink), .changeRead hlink⟩
  | changeRead mode l => exact .inr ⟨_, _, rfl, .changed⟩

/-- **A step** lets one thread execute one statement, or leaves everything as it is. -/
theorem takes_step (register : ProtocolRegister) (id : Nat) (e : Event) (s : Threads) :
    Takes id s e (step register id e s) := by
  cases e with
  | begin t request =>
    rw [step]
    cases ht : s.phase t with
    | idle =>
      obtain ⟨c', p', hstep, h⟩ := first_begins id t request s
      simp only [hstep]
      exact .begin ht h
    | startRead | startMissing | startOpened | startLinkPut | startRegistered | stopRead |
      stopFound | stopStopped | stopUnregistered | stopLinkRemoved | changeFound | changeSet |
      changeRead | done => exact .stay _
  | go t =>
    rw [step]
    rcases next_goes register id t (s.phase t) s with hstep | ⟨c', p', hstep, h⟩
    · rw [hstep]
      exact .stay _
    · rw [hstep]
      exact .go h
  | updateLink form => exact .updateLink form

end Inversion

/-! ## A thread alone -/

section Alone

variable {register : ProtocolRegister} {id t : Nat}

/-- The next `n` steps of thread `t`, which has got as far as `p`, do what `rest` does. -/
def Alone (register : ProtocolRegister) (id t n : Nat) (p : Phase)
    (rest : Method LinkControl Unit) : Prop :=
  ∀ (c : LinkControl) (phase : Nat → Phase),
    run (step register id) (List.replicate n (.go t)) ⟨c, Function.update phase t p⟩ =
      ⟨after (rest.run c), Function.update phase t .done⟩

theorem step_go_update (c : LinkControl) (phase : Nat → Phase) (p : Phase) :
    step register id (.go t) ⟨c, Function.update phase t p⟩ =
      next register id t p ⟨c, Function.update phase t p⟩ :=
  congrArg (fun p' => next register id t p' ⟨c, Function.update phase t p⟩)
    (Function.update_self t p phase)

theorem alone_done (n : Nat) : Alone register id t n .done (pure ()) := by
  intro c phase
  induction n with
  | zero => rfl
  | succ n ih =>
    rw [List.replicate_succ, run, step_go_update]
    exact ih

/-- **Sequence**: a statement, and what follows it. -/
theorem Alone.bind {α : Type} {n : Nat} {p : Phase} {statement : Method LinkControl α}
    {f : α → Phase} {rest : α → Method LinkControl Unit}
    (hnext : ∀ s, next register id t p s = s.perform t statement f)
    (h : ∀ a, Alone register id t n (f a) (rest a)) :
    Alone register id t (n + 1) p (statement >>= rest) := by
  intro c phase
  rw [List.replicate_succ, run, step_go_update, hnext]
  cases hrun : statement.run c with
  | ok a c' =>
    rw [perform_of_ok hrun, run_bind_of_ok hrun, Function.update_idem]
    exact h a c' phase
  | error e c' =>
    rw [perform_of_error hrun, run_bind_of_error hrun, Function.update_idem]
    exact alone_done n c' phase

/-- The last statement of a request. -/
theorem Alone.last {n : Nat} {p : Phase} {statement : Method LinkControl Unit}
    (hnext : ∀ s, next register id t p s = s.perform t statement fun _ => .done) :
    Alone register id t (n + 1) p statement := by
  have h : Alone register id t (n + 1) p (statement >>= fun _ => pure ()) :=
    .bind hnext fun _ => alone_done n
  rw [bind_pure_unit] at h
  exact h

theorem alone_startRegistered (n : Nat) (l : Ref) :
    Alone register id t (n + 1) (.startRegistered l) (writeStatus .running l) := .last fun _ => rfl

/-- `startServer` when it has found no server. -/
theorem alone_startMissing (up : Startup) (l : Ref) :
    Alone register id t 4 (.startMissing up l) (do
      let q ← createServer register up l
      setLinkMap id (some l)
      setServerMap id (some q)
      writeStatus .running l) :=
  .bind (fun _ => rfl) fun q =>
    .bind (f := fun _ => .startLinkPut l q) (fun _ => rfl) fun _ =>
      .bind (f := fun _ => .startRegistered l) (fun _ => rfl) fun _ => alone_startRegistered 0 l

/-- The block of `startServer`, statement by statement. -/
theorem openServer_eq (up : Startup) (l : Ref) :
    openServer register up id l = lookup id >>= fun
      | some _ => pure ()
      | none => (do
        let q ← createServer register up l
        setLinkMap id (some l)
        setServerMap id (some q)) := by
  unfold openServer lookup createServer setLinkMap setServerMap
  rw [bind_assoc]
  refine bind_congr fun s => ?_
  rw [pure_bind]
  cases s.linkIdServerMap id with
  | some q => rfl
  | none => simp only [bind_assoc, pure_bind]

/-- `startServer` when it has read its row. -/
theorem alone_startRead (up : Startup) (l : Ref) :
    Alone register id t 5 (.startRead up l) (do
      openServer register up id l
      setLink l fun link => { link with status := some .running }
      modifyLink l) := by
  rw [openServer_eq, bind_assoc]
  refine .bind (f := whenFound (fun _ => .startRegistered l) (.startMissing up l))
    (fun _ => rfl) fun o => ?_
  cases o with
  | some q =>
    rw [pure_bind]
    exact alone_startRegistered 3 l
  | none =>
    simp only [bind_assoc]
    exact alone_startMissing up l

/-- The block of `stopServer`, statement by statement. -/
theorem closeServer_eq (stops : Bool) :
    closeServer stops id = lookup id >>= fun
      | none => pure ()
      | some q => (do
        Server.stop stops q
        setServerMap id none) := by
  unfold closeServer lookup setServerMap
  refine .trans ?_ (bind_assoc (m := Method LinkControl) _ _ _).symm
  refine bind_congr fun s => ?_
  cases s.linkIdServerMap id with
  | none => rfl
  | some q => rfl

/-- `stopServer` when no server is registered, or none any more. -/
theorem alone_stopUnregistered (n : Nat) (l : Ref) :
    Alone register id t (n + 2) (.stopUnregistered l) (do
      setLinkMap id none
      writeStatus .stopped l) :=
  .bind (f := fun _ => .stopLinkRemoved l) (fun _ => rfl) fun _ => .last fun _ => rfl

/-- `stopServer` when it has read its row. -/
theorem alone_stopRead (stops : Bool) (l : Ref) :
    Alone register id t 5 (.stopRead stops l) (do
      closeServer stops id
      setLinkMap id none
      writeStatus .stopped l) := by
  rw [closeServer_eq, bind_assoc]
  refine .bind (f := whenFound (.stopFound stops l) (.stopUnregistered l)) (fun _ => rfl)
    fun o => ?_
  cases o with
  | none =>
    rw [pure_bind]
    exact alone_stopUnregistered 2 l
  | some q =>
    simp only [bind_assoc]
    exact .bind (f := fun _ => .stopStopped l) (fun _ => rfl) fun _ =>
      .bind (f := fun _ => .stopUnregistered l) (fun _ => rfl) fun _ => alone_stopUnregistered 0 l

/-- `changeWorkMode` when it has set the mode of the server. -/
theorem alone_changeSet (mode : WorkMode) :
    Alone register id t 2 (.changeSet mode) (getLinkById id >>= fun
      | none => throw .nullPointer
      | some l => writeWorkMode mode l) := by
  intro c phase
  have hnext : ∀ s, next register id t (.changeSet mode) s =
    s.perform t (getLinkById id) (whenFound (.changeRead mode) .done) := fun _ => rfl
  rw [List.replicate_succ, run, step_go_update, hnext]
  cases hlink : c.table.selectLinkById id with
  | none =>
    rw [perform_of_ok (getLinkById_run_none hlink), run_bind_of_ok (getLinkById_run_none hlink),
      Function.update_idem]
    exact alone_done 1 c phase
  | some link =>
    rw [perform_of_ok (getLinkById_run_some hlink), run_bind_of_ok (getLinkById_run_some hlink),
      Function.update_idem]
    have hlast : Alone register id t 1 (.changeRead mode c.links.size)
      (writeWorkMode mode c.links.size) := .last fun _ => rfl
    exact hlast _ phase

/-- The state behind the first statement of a request. -/
theorem step_begin_of_idle {s : Threads} (ht : s.phase t = .idle) (request : Request) :
    step register id (.begin t request) s = first id t request s := by
  rw [step, ht]

/-- **`startServer` alone**: with no other thread between its steps a request does what the method
does. -/
theorem alone_startServer (up : Startup) (s : Threads) (ht : s.phase t = .idle) :
    run (step register id) (.begin t (.startServer up) :: List.replicate 5 (.go t)) s =
      ⟨after ((startServer register up id).run s.control), Function.update s.phase t .done⟩ := by
  rw [run, step_begin_of_idle ht]
  unfold startServer
  cases hlink : s.control.table.selectLinkById id with
  | none =>
    rw [run_bind_of_ok (getLinkById_run_none hlink)]
    have hfirst : first id t (.startServer up) s = _ := perform_of_ok (getLinkById_run_none hlink)
    rw [hfirst]
    exact alone_done 5 _ _
  | some link =>
    rw [run_bind_of_ok (getLinkById_run_some hlink)]
    have hfirst : first id t (.startServer up) s = _ := perform_of_ok (getLinkById_run_some hlink)
    rw [hfirst]
    exact alone_startRead up s.control.links.size _ _

/-- **`stopServer` alone.** -/
theorem alone_stopServer (stops : Bool) (s : Threads) (ht : s.phase t = .idle) :
    run (step register id) (.begin t (.stopServer stops) :: List.replicate 5 (.go t)) s =
      ⟨after ((stopServer stops id).run s.control), Function.update s.phase t .done⟩ := by
  rw [run, step_begin_of_idle ht]
  unfold stopServer
  cases hlink : s.control.table.selectLinkById id with
  | none =>
    rw [run_bind_of_ok (getLinkById_run_none hlink)]
    have hfirst : first id t (.stopServer stops) s = _ := perform_of_ok (getLinkById_run_none hlink)
    rw [hfirst]
    exact alone_done 5 _ _
  | some link =>
    rw [run_bind_of_ok (getLinkById_run_some hlink)]
    have hfirst : first id t (.stopServer stops) s = _ := perform_of_ok (getLinkById_run_some hlink)
    rw [hfirst]
    exact alone_stopRead stops s.control.links.size _ _

/-- **`changeWorkMode` alone.** -/
theorem alone_changeWorkMode (mode : WorkMode) (s : Threads) (ht : s.phase t = .idle) :
    run (step register id) (.begin t (.changeWorkMode mode) :: List.replicate 3 (.go t)) s =
      ⟨after ((changeWorkMode mode id).run s.control), Function.update s.phase t .done⟩ := by
  rw [run, step_begin_of_idle ht]
  have hfirst : first id t (.changeWorkMode mode) s = _ := perform_lookup t _ s
  rw [hfirst]
  unfold changeWorkMode
  rw [run_bind_of_ok (EStateM.run_get s.control)]
  cases hq : s.control.linkIdServerMap id with
  | none => exact alone_done 3 _ _
  | some q =>
    have h : Alone register id t 3 (.changeFound mode q) (do
        Server.changeWorkMode mode q
        match ← getLinkById id with
        | none => throw .nullPointer
        | some l => writeWorkMode mode l) :=
      .bind (f := fun _ => .changeSet mode) (fun _ => rfl) fun _ => alone_changeSet mode
    exact h _ _

end Alone

end Terminator.Manager.Requests
