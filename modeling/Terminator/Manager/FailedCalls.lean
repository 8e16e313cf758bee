import Terminator.Manager.Moves
import Terminator.Run.Invariant

/-!
# What a failed call leaves behind

`LinkControlServiceImpl` over a state that also has the channels of each server's `ServerContext`,
and over a database whose statements may fail. A call that throws should leave the maps, the rows,
the modes and the channels as they were. Its transaction (`transactionInterceptor` of
`applicationContext-ibatis.xml`) takes back its rows; nothing takes back what it did in memory.

**`changesNothing_iff_harmless`**: from a new process on, every call that throws changes nothing
exactly when

* no `startServer` opens a server and then fails to write the row;
* no `stopServer` fails to release a server that still has channels, or releases it and then fails
  to write the row;
* no `changeWorkMode` changes the mode of a server or closes its connections, and then finds no row,
  or fails to read or to write it.
-/

namespace Terminator.Manager.FailedCalls

open Terminator.Java Terminator.Run

/-- The channels of a `ServerContext`: whether the server channel is open, and the others that
are. -/
structure Context where
  serverChannel : Bool
  otherChannels : List Nat
  deriving DecidableEq

/-- The manager, and the context of each server. -/
structure Serving where
  control : LinkControl
  context : Ref → Context

/-- A method that touches no channel. -/
def onControl {α : Type} (x : Method LinkControl α) : Method Serving α :=
  zoom Serving.control (fun c s => { s with control := c }) x

/-- Assignments to a context. -/
def setContext (q : Ref) (f : Context → Context) : Method Serving Unit :=
  modify fun s => { s with context := Function.update s.context q (f (s.context q)) }

/-! ## The database -/

/-- What the transaction of a call meets: whether it gets a connection, whether its `SELECT` and its
`UPDATE` succeed, and whether it is committed. -/
structure Database where
  connects : Bool
  selects : Bool
  updates : Bool
  commits : Bool

/-- A call can read its row. -/
def Database.reads (db : Database) : Bool := db.connects && db.selects

/-- What a call writes is there after it. -/
def Database.writes (db : Database) : Bool := db.updates && db.commits

/-- A statement throws a `DataAccessException`, or does what it should. -/
def statement {α : Type} (succeeds : Bool) (x : Method LinkControl α) : Method Serving α :=
  if succeeds then onControl x else throw .dataAccess

/-- `getLinkById`. -/
def getLinkById (db : Database) (id : Nat) : Method Serving (Option Ref) :=
  statement db.selects (Manager.getLinkById id)

/-- `modifyLink`. -/
def modifyLink (db : Database) (l : Ref) : Method Serving Unit :=
  statement db.updates (Manager.modifyLink l)

/-- The rows of `s`, and the memory of `s'`. -/
def Serving.withRowsOf (s' s : Serving) : Serving :=
  { s' with control := { s'.control with table := s.control.table } }

/-- `TransactionInterceptor`: if the method throws, or if the commit does, the rows are those of
before. The checked `LinkStatusException` would commit, but no row is written before it. -/
def transactional (db : Database) (x : Method Serving Unit) : Method Serving Unit := fun s =>
  if db.connects then
    match x.run s with
    | .ok u s' => if db.commits then .ok u s' else .error .dataAccess (s'.withRowsOf s)
    | .error e s' => .error e (s'.withRowsOf s)
  else .error .dataAccess s

/-! ## `ServerImpl` and `ServerContext` -/

/-- `new ServerImpl(link)`. -/
def newServer (l : Ref) : Method Serving Ref := do
  let q ← onControl (Manager.newServer l)
  setContext q fun _ => ⟨false, []⟩
  return q

/-- `start`. -/
def start (up : Startup) (q : Ref) : Method Serving Unit := do
  onControl (Server.start up q)
  setContext q fun context => { context with serverChannel := true }

/-- `closeServerChannel`. -/
def closeServerChannel (q : Ref) : Method Serving Unit :=
  setContext q fun context => { context with serverChannel := false }

/-- `closeOtherChannels`. -/
def closeOtherChannels (q : Ref) : Method Serving Unit :=
  setContext q fun context => { context with otherChannels := [] }

/-- `stop`: `releaseResources` closes the channels before it may throw, at the timer or at one of
the factories. -/
def stop (stops : Bool) (q : Ref) : Method Serving Unit := do
  closeServerChannel q
  closeOtherChannels q
  onControl (Server.stop stops q)

/-- `changeWorkMode` of the server. -/
def changeServerMode (mode : WorkMode) (q : Ref) : Method Serving Unit := do
  onControl (Server.changeWorkMode mode q)
  closeOtherChannels q

/-! ## `LinkControlServiceImpl` -/

section Service

variable (register : ProtocolRegister) (up : Startup) (stops : Bool) (mode : WorkMode)
  (db : Database)

/-- `if (server == null) { … }` of `startServer`. -/
def openServer (linkId : Nat) (l : Ref) : Method Serving Unit := do
  match (← get).control.linkIdServerMap linkId with
  | some _ => pure ()
  | none => do
    onControl (configLink register up l)
    let q ← newServer l
    start up q
    onControl (modify fun s =>
      { s with linkIdLinkMap := Function.update s.linkIdLinkMap linkId (some l) })
    onControl (modify fun s =>
      { s with linkIdServerMap := Function.update s.linkIdServerMap linkId (some q) })

/-- `startServer`. -/
def startServer (linkId : Nat) : Method Serving Unit := transactional db do
  match ← getLinkById db linkId with
  | none => pure ()
  | some l => do
    openServer register up linkId l
    onControl (setLink l fun link => { link with status := some .running })
    modifyLink db l

/-- `if (server != null) { … }` of `stopServer`. -/
def closeServer (linkId : Nat) : Method Serving Unit := do
  match (← get).control.linkIdServerMap linkId with
  | none => pure ()
  | some q => do
    stop stops q
    onControl (modify fun s =>
      { s with linkIdServerMap := Function.update s.linkIdServerMap linkId none })

/-- `stopServer`. -/
def stopServer (linkId : Nat) : Method Serving Unit := transactional db do
  match ← getLinkById db linkId with
  | none => pure ()
  | some l => do
    closeServer stops linkId
    onControl (modify fun s =>
      { s with linkIdLinkMap := Function.update s.linkIdLinkMap linkId none })
    onControl (setLink l fun link => { link with status := some .stopped })
    modifyLink db l

/-- `changeWorkMode`. -/
def changeWorkMode (linkId : Nat) : Method Serving Unit := transactional db do
  match (← get).control.linkIdServerMap linkId with
  | none => throw .linkStatus
  | some q => do
    changeServerMode mode q
    match ← getLinkById db linkId with
    | none => throw .nullPointer
    | some l => do
      onControl (setLink l fun link => { link with workMode := some mode })
      modifyLink db l

end Service

/-- The method a request calls. -/
def call (register : ProtocolRegister) (db : Database) : Operation → Method Serving Unit
  | .startServer id up => startServer register up db id
  | .stopServer id stops => stopServer stops db id
  | .changeWorkMode id mode => changeWorkMode mode db id
  | op => transactional db (statement db.updates (op.call register))

/-- What happens to the manager and its servers. -/
inductive Event where
  /-- A request, to its end. -/
  | request (op : Operation) (db : Database)
  /-- The server channel accepts a connection. -/
  | accept (q : Ref) (channel : Nat)
  /-- A connection of the server is relayed over a channel of its own. -/
  | relay (q : Ref) (channel : Nat)
  /-- A channel is closed from outside. -/
  | closed (q : Ref) (channel : Nat)

/-- The channels of one server change. -/
def Serving.withContext (s : Serving) (q : Ref) (context : Context) : Serving :=
  { s with context := Function.update s.context q context }

/-- One event. -/
def step (register : ProtocolRegister) : Event → Serving → Serving
  | .request op db, s => after ((call register db op).run s)
  | .accept q channel, s =>
    let context := s.context q
    if context.serverChannel then
      s.withContext q { context with otherChannels := channel :: context.otherChannels }
    else s
  | .relay q channel, s =>
    let context := s.context q
    if context.otherChannels = [] then s
    else s.withContext q { context with otherChannels := channel :: context.otherChannels }
  | .closed q channel, s =>
    let context := s.context q
    s.withContext q { context with otherChannels := context.otherChannels.erase channel }

/-! ## Methods over `LinkControl` -/

section Calls

variable {α β : Type} {register : ProtocolRegister} {up : Startup} {stops : Bool} {mode : WorkMode}
  {db : Database} {s : Serving} {id : Nat}

/-- How a method ends, over the contexts it leaves. -/
def attach (context : Ref → Context) :
    EStateM.Result Throwable LinkControl α → EStateM.Result Throwable Serving α
  | .ok a c => .ok a ⟨c, context⟩
  | .error e c => .error e ⟨c, context⟩

theorem onControl_run (x : Method LinkControl α) (s : Serving) :
    (onControl x).run s = attach s.context (x.run s.control) := by
  unfold onControl
  rw [run_zoom]
  cases x.run s.control <;> rfl

/-- A sequence, statement by statement. If the first throws, the second changes no context. -/
theorem run_bind_attach {x' : Method Serving α} {x : Method LinkControl α}
    {f' : α → Method Serving β} {f : α → Method LinkControl β} {context context' : Ref → Context}
    (hx : x'.run s = attach context (x.run s.control))
    (hf : ∀ a c, x.run s.control = .ok a c →
      (f' a).run ⟨c, context⟩ = attach context' ((f a).run c))
    (herror : ∀ e c, x.run s.control = .error e c → context' = context) :
    (x' >>= f').run s = attach context' ((x >>= f).run s.control) := by
  cases hrun : x.run s.control with
  | ok a c =>
    rw [hrun] at hx
    rw [run_bind_of_ok hx, run_bind_of_ok hrun]
    exact hf a c hrun
  | error e c =>
    rw [hrun] at hx
    rw [run_bind_of_error hx, run_bind_of_error hrun, herror e c hrun]
    rfl

/-- A sequence whose rest touches no channel. -/
theorem run_bind_onControl {x' : Method Serving α} {x : Method LinkControl α}
    {f' : α → Method Serving β} {f : α → Method LinkControl β} {context : Ref → Context}
    (hx : x'.run s = attach context (x.run s.control))
    (hf : ∀ a c, (f' a).run ⟨c, context⟩ = attach context ((f a).run c)) :
    (x' >>= f').run s = attach context ((x >>= f).run s.control) :=
  run_bind_attach hx (fun a c _ => hf a c) fun _ _ _ => rfl

/-- Two statements that touch no channel. -/
theorem onControl_bind_run (x : Method LinkControl α) (y : Method LinkControl β)
    (c : LinkControl) (context : Ref → Context) :
    (onControl x >>= fun _ => onControl y).run ⟨c, context⟩ =
      attach context ((x >>= fun _ => y).run c) :=
  run_bind_onControl (onControl_run x ⟨c, context⟩) fun _ c => onControl_run y ⟨c, context⟩

theorem servers_of_configLink {l : Ref} {c c' : LinkControl}
    (h : (configLink register up l).run c = .ok () c') : c'.servers = c.servers := by
  unfold configLink at h
  obtain ⟨link, c1, hread, hconfig⟩ := run_bind_eq_ok_iff.mp h
  obtain ⟨plugins, c2, hplugins, hset⟩ := run_bind_eq_ok_iff.mp hconfig
  obtain ⟨-, rfl⟩ := run_fromExcept_eq_ok_iff.mp hplugins
  cases hread
  cases hset
  rfl

theorem newServer_run (l : Ref) (s : Serving) :
    (newServer l).run s = attach (Function.update s.context s.control.servers.size ⟨false, []⟩)
      ((Manager.newServer l).run s.control) := rfl

/-- The contexts after `start`. -/
def started (up : Startup) (q : Ref) (context : Ref → Context) : Ref → Context :=
  if up.binds then Function.update context q { context q with serverChannel := true } else context

theorem started_of_ne {q q' : Ref} (hne : q' ≠ q) (up : Startup) (context : Ref → Context) :
    started up q context q' = context q' := by
  unfold started
  by_cases hbinds : up.binds = true
  · rw [if_pos hbinds, Function.update_of_ne hne]
  · rw [if_neg hbinds]

theorem start_run (up : Startup) (q : Ref) (s : Serving) :
    (start up q).run s = attach (started up q s.context) ((Server.start up q).run s.control) := by
  unfold start Server.start started
  cases up.binds <;> rfl

theorem openServer_run (register : ProtocolRegister) (up : Startup) (s : Serving) (id : Nat)
    (l : Ref) :
    ∃ context, (openServer register up id l).run s =
        attach context ((Manager.openServer register up id l).run s.control) ∧
      ∀ q, q ≠ s.control.servers.size → context q = s.context q := by
  unfold openServer Manager.openServer
  rw [run_bind_of_ok (EStateM.run_get _), run_bind_of_ok (EStateM.run_get _)]
  cases hq : s.control.linkIdServerMap id with
  | some q => exact ⟨s.context, rfl, fun _ _ => rfl⟩
  | none =>
    dsimp only
    cases hconfig : (configLink register up l).run s.control with
    | error e c =>
      refine ⟨s.context, ?_, fun _ _ => rfl⟩
      exact run_bind_attach (onControl_run _ s) (fun a c h => by rw [hconfig] at h; cases h)
        fun _ _ _ => rfl
    | ok u c =>
      -- the server is built with a context of its own, whether it starts or not
      let built := Function.update s.context c.servers.size ⟨false, []⟩
      refine ⟨started up c.servers.size built, ?_, fun q hq => ?_⟩
      · refine run_bind_attach (onControl_run _ s) (fun u' c' h => ?_) fun e c' h => ?_
        · obtain ⟨rfl, rfl⟩ := EStateM.Result.ok.inj (hconfig.symm.trans h)
          refine run_bind_attach (newServer_run l ⟨c, s.context⟩) (fun q c' hnew => ?_)
            fun e c' hnew => by cases hnew
          obtain ⟨rfl, -⟩ := EStateM.Result.ok.inj hnew
          exact run_bind_onControl (start_run up _ ⟨c', built⟩) fun _ c =>
            onControl_bind_run _ _ c _
        · rw [hconfig] at h
          cases h
      · have hsize : c.servers.size = s.control.servers.size :=
          congrArg Heap.size (servers_of_configLink hconfig)
        have hne : q ≠ c.servers.size := hsize ▸ hq
        rw [started_of_ne hne]
        exact Function.update_of_ne hne _ _

theorem stop_run (stops : Bool) (q : Ref) (s : Serving) :
    (stop stops q).run s = attach (Function.update s.context q ⟨false, []⟩)
      ((Server.stop stops q).run s.control) := by
  have hclose : (closeServerChannel q).run s = .ok () { s with
      context := Function.update s.context q { s.context q with serverChannel := false } } := rfl
  have hcloseOthers : (closeOtherChannels q).run { s with
      context := Function.update s.context q { s.context q with serverChannel := false } } =
      .ok () { s with context := Function.update s.context q ⟨false, []⟩ } := by
    unfold closeOtherChannels setContext
    rw [EStateM.run_modify]
    dsimp only
    rw [Function.update_idem, Function.update_self]
  unfold stop
  rw [run_bind_of_ok hclose, run_bind_of_ok hcloseOthers, onControl_run]

/-- The contexts after `closeServer`. -/
def released (s : Serving) (id : Nat) : Ref → Context :=
  match s.control.linkIdServerMap id with
  | none => s.context
  | some q => Function.update s.context q ⟨false, []⟩

theorem closeServer_run (stops : Bool) (s : Serving) (id : Nat) :
    (closeServer stops id).run s =
      attach (released s id) ((Manager.closeServer stops id).run s.control) := by
  unfold closeServer Manager.closeServer released
  rw [run_bind_of_ok (EStateM.run_get _), run_bind_of_ok (EStateM.run_get _)]
  cases hq : s.control.linkIdServerMap id with
  | none => rfl
  | some q => exact run_bind_onControl (stop_run stops q s) fun _ c => onControl_run _ ⟨c, _⟩

/-- The contexts after `changeWorkMode`. -/
def disconnected (s : Serving) (id : Nat) : Ref → Context :=
  match s.control.linkIdServerMap id with
  | none => s.context
  | some q => Function.update s.context q { s.context q with otherChannels := [] }

/-! ## Transactions -/

theorem getLinkById_run_refused (hdb : db.selects = false) :
    (getLinkById db id).run s = .error .dataAccess s := by
  unfold getLinkById statement
  rw [hdb]
  rfl

theorem getLinkById_run_none (hdb : db.selects = true)
    (hlink : s.control.table.selectLinkById id = none) :
    (getLinkById db id).run s = .ok none s := by
  unfold getLinkById statement
  rw [if_pos hdb, onControl_run, Manager.getLinkById_run_none hlink]
  rfl

theorem getLinkById_run_some {link : Link} (hdb : db.selects = true)
    (hlink : s.control.table.selectLinkById id = some link) :
    (getLinkById db id).run s = .ok (some s.control.links.size)
      { s with control := { s.control with links := (s.control.links.alloc link).2 } } := by
  unfold getLinkById statement
  rw [if_pos hdb, onControl_run, Manager.getLinkById_run_some hlink]
  rfl

theorem run_transactional (db : Database) (x : Method Serving Unit) (s : Serving) :
    (transactional db x).run s =
      if db.connects then
        match x.run s with
        | .ok u s' => if db.commits then .ok u s' else .error .dataAccess (s'.withRowsOf s)
        | .error e s' => .error e (s'.withRowsOf s)
      else .error .dataAccess s := rfl

/-- A method that changes nothing. -/
theorem after_transactional_of_same {x : Method Serving Unit} (hx : after (x.run s) = s) :
    after ((transactional db x).run s) = s := by
  rw [run_transactional]
  cases db.connects with
  | false => rfl
  | true =>
    cases hrun : x.run s with
    | error e s' =>
      rw [hrun, after_error] at hx
      rw [hx]
      rfl
    | ok u s' =>
      rw [hrun, after_ok] at hx
      rw [hx]
      cases db.commits <;> rfl

/-- How a call ends whose statements leave `r` if all of them succeed. -/
def ended (db : Database) (s : Serving) (context : Ref → Context) :
    EStateM.Result Throwable LinkControl Unit → EStateM.Result Throwable Serving Unit
  | .ok u c =>
    if db.writes then .ok u ⟨c, context⟩ else .error .dataAccess (Serving.withRowsOf ⟨c, context⟩ s)
  | .error e c => .error e (Serving.withRowsOf ⟨c, context⟩ s)

theorem returned_ended {context : Ref → Context} {r : EStateM.Result Throwable LinkControl Unit} :
    Returned (ended db s context r) ↔ db.writes = true ∧ Returned r := by
  unfold ended
  cases r with
  | error e c => simp
  | ok u c => cases db.writes <;> simp

/-- If it throws, the rows are those of before. -/
theorem after_ended_of_not_returned {context : Ref → Context}
    {r : EStateM.Result Throwable LinkControl Unit} (h : ¬ Returned (ended db s context r)) :
    after (ended db s context r) = Serving.withRowsOf ⟨after r, context⟩ s := by
  unfold ended at h ⊢
  cases r with
  | error e c => rfl
  | ok u c =>
    cases hwrites : db.writes with
    | false => rfl
    | true =>
      rw [hwrites] at h
      exact absurd trivial h

/-- **A call that ends with writing its row**: an `UPDATE` that fails comes to the same as a commit
that does. -/
theorem run_transactional_modifyLink {x x' : Method Serving Unit} {y : Method LinkControl Unit}
    {l : Ref} {s' : Serving} {context : Ref → Context} (hconnects : db.connects = true)
    (hx : x.run s = (x' >>= fun _ => modifyLink db l).run s')
    (hx' : x'.run s' = attach context (y.run s'.control)) :
    (transactional db x).run s =
      ended db s context ((y >>= fun _ => Manager.modifyLink l).run s'.control) := by
  rw [run_transactional, if_pos hconnects, hx]
  cases hrun : y.run s'.control with
  | error e c =>
    rw [hrun] at hx'
    rw [run_bind_of_error hx', run_bind_of_error hrun]
    rfl
  | ok u c =>
    rw [hrun] at hx'
    rw [run_bind_of_ok hx', run_bind_of_ok hrun]
    unfold ended Database.writes modifyLink statement
    cases db.updates <;> cases db.commits <;> rfl

/-! ## The calls -/

theorem reads_iff : db.reads = true ↔ db.connects = true ∧ db.selects = true := by
  simp [Database.reads]

/-- A call that starts with its row, and gets none. -/
theorem after_of_absent {f : Ref → Method Serving Unit}
    (h : db.reads = true → s.control.table.selectLinkById id = none) :
    after ((transactional db (getLinkById db id >>= fun
      | none => pure ()
      | some l => f l)).run s) = s := by
  cases hconnects : db.connects with
  | false =>
    rw [run_transactional, hconnects]
    rfl
  | true =>
    refine after_transactional_of_same ?_
    cases hselects : db.selects with
    | false => rw [run_bind_of_error (getLinkById_run_refused hselects), after_error]
    | true =>
      rw [run_bind_of_ok (getLinkById_run_none hselects (h (reads_iff.mpr ⟨hconnects, hselects⟩)))]
      rfl

/-- A `startServer` that does not get to a row. -/
theorem after_startServer_of_absent (register : ProtocolRegister) (up : Startup)
    (h : db.reads = true → s.control.table.selectLinkById id = none) :
    after ((startServer register up db id).run s) = s := after_of_absent h

/-- **`startServer`** leaves the contexts of all servers there were. -/
theorem startServer_run (register : ProtocolRegister) (up : Startup) {link : Link}
    (hreads : db.reads = true) (hlink : s.control.table.selectLinkById id = some link) :
    ∃ context, (startServer register up db id).run s =
        ended db s context ((Manager.startServer register up id).run s.control) ∧
      ∀ q, q ≠ s.control.servers.size → context q = s.context q := by
  obtain ⟨hconnects, hselects⟩ := reads_iff.mp hreads
  obtain ⟨context, hopen, hframe⟩ := openServer_run register up
    { s with control := { s.control with links := (s.control.links.alloc link).2 } } id
    s.control.links.size
  refine ⟨context, ?_, hframe⟩
  unfold startServer Manager.startServer
  rw [run_bind_of_ok (Manager.getLinkById_run_some hlink)]
  dsimp only
  rw [← bind_assoc]
  refine run_transactional_modifyLink hconnects ?_
    (run_bind_onControl hopen fun _ c => onControl_run _ ⟨c, context⟩)
  rw [run_bind_of_ok (getLinkById_run_some hselects hlink), bind_assoc]

/-- A `stopServer` that does not get to a row. -/
theorem after_stopServer_of_absent (stops : Bool)
    (h : db.reads = true → s.control.table.selectLinkById id = none) :
    after ((stopServer stops db id).run s) = s := after_of_absent h

/-- **`stopServer`** closes the channels of the server it finds, whether it returns or not. -/
theorem stopServer_run (stops : Bool) {link : Link} (hreads : db.reads = true)
    (hlink : s.control.table.selectLinkById id = some link) :
    (stopServer stops db id).run s =
      ended db s (released s id) ((Manager.stopServer stops id).run s.control) := by
  obtain ⟨hconnects, hselects⟩ := reads_iff.mp hreads
  unfold stopServer Manager.stopServer
  rw [run_bind_of_ok (Manager.getLinkById_run_some hlink)]
  dsimp only
  rw [← bind_assoc, ← bind_assoc]
  have hclose := closeServer_run stops
    { s with control := { s.control with links := (s.control.links.alloc link).2 } } id
  refine run_transactional_modifyLink hconnects ?_ (run_bind_onControl
    (run_bind_onControl hclose fun _ c => onControl_run _ ⟨c, released s id⟩)
    fun _ c => onControl_run _ ⟨c, released s id⟩)
  rw [run_bind_of_ok (getLinkById_run_some hselects hlink), bind_assoc, bind_assoc]

/-- A `changeWorkMode` that does not get to a server. -/
theorem after_changeWorkMode_of_refused (mode : WorkMode)
    (h : db.connects = true → s.control.linkIdServerMap id = none) :
    after ((changeWorkMode mode db id).run s) = s := by
  unfold changeWorkMode
  cases hconnects : db.connects with
  | false =>
    rw [run_transactional, hconnects]
    rfl
  | true =>
    refine after_transactional_of_same ?_
    rw [run_bind_of_ok (EStateM.run_get _), h hconnects]
    rfl

/-- The server is switched, whatever becomes of the row. -/
theorem changeServerMode_run {q : Ref} (mode : WorkMode)
    (hq : s.control.linkIdServerMap id = some q) : (changeServerMode mode q).run s =
      .ok () ⟨{ s.control with links := modeLinks s.control mode q }, disconnected s id⟩ := by
  unfold disconnected
  rw [hq]
  rfl

/-- A `changeWorkMode` that does not get to the row any more. -/
theorem changeWorkMode_run_of_gone {q : Ref} (mode : WorkMode) (hconnects : db.connects = true)
    (hq : s.control.linkIdServerMap id = some q)
    (h : db.selects = true → s.control.table.selectLinkById id = none) :
    ∃ e, (changeWorkMode mode db id).run s =
      .error e ⟨{ s.control with links := modeLinks s.control mode q }, disconnected s id⟩ := by
  unfold changeWorkMode
  rw [run_transactional, if_pos hconnects, run_bind_of_ok (EStateM.run_get s), hq]
  dsimp only
  rw [run_bind_of_ok (changeServerMode_run mode hq)]
  cases hselects : db.selects with
  | false =>
    refine ⟨.dataAccess, ?_⟩
    rw [run_bind_of_error (getLinkById_run_refused hselects)]
    rfl
  | true =>
    refine ⟨.nullPointer, ?_⟩
    have hget : (getLinkById db id).run
        ⟨{ s.control with links := modeLinks s.control mode q }, disconnected s id⟩ =
          .ok none _ := getLinkById_run_none hselects (h hselects)
    rw [run_bind_of_ok hget]
    rfl

/-- **`changeWorkMode`** switches the server before it looks for the row. -/
theorem changeWorkMode_run {q : Ref} {link : Link} (mode : WorkMode) (hreads : db.reads = true)
    (hq : s.control.linkIdServerMap id = some q)
    (hlink : s.control.table.selectLinkById id = some link) :
    (changeWorkMode mode db id).run s =
      ended db s (disconnected s id) ((Manager.changeWorkMode mode id).run s.control) := by
  obtain ⟨hconnects, hselects⟩ := reads_iff.mp hreads
  have hmode : (Server.changeWorkMode mode q).run s.control =
      .ok () { s.control with links := modeLinks s.control mode q } := rfl
  have hget : (Manager.getLinkById id).run
      { s.control with links := modeLinks s.control mode q } = .ok _ _ :=
    Manager.getLinkById_run_some hlink
  unfold changeWorkMode Manager.changeWorkMode
  rw [run_bind_of_ok (EStateM.run_get s.control), hq]
  dsimp only
  rw [run_bind_of_ok hmode, run_bind_of_ok hget]
  refine run_transactional_modifyLink hconnects ?_ (onControl_run _ ⟨_, disconnected s id⟩)
  rw [run_bind_of_ok (EStateM.run_get s), hq]
  dsimp only
  have hget : (getLinkById db id).run
      ⟨{ s.control with links := modeLinks s.control mode q }, disconnected s id⟩ = .ok _ _ :=
    getLinkById_run_some hselects hlink
  rw [run_bind_of_ok (changeServerMode_run mode hq), run_bind_of_ok hget]

end Calls

/-! ## A call that throws -/

/-- The mode the registered server of the link runs in. -/
def workModeOf (c : LinkControl) (id : Nat) : Option WorkMode :=
  (c.running id).bind fun link => link.workMode

/-- The maps, the rows, the modes and the channels of the registered servers are the same. -/
structure Unchanged (s s' : Serving) : Prop where
  serverMap : s'.control.linkIdServerMap = s.control.linkIdServerMap
  linkMap : s'.control.linkIdLinkMap = s.control.linkIdLinkMap
  rows : s'.control.table = s.control.table
  workMode : ∀ id, workModeOf s'.control id = workModeOf s.control id
  channels : ∀ id q, s.control.linkIdServerMap id = some q → s'.context q = s.context q

/-- If the event is a request that throws, it changes nothing. -/
def ChangesNothing (register : ProtocolRegister) : Event → Serving → Prop
  | .request op db, s => ¬ Returned ((call register db op).run s) →
      Unchanged s (step register (.request op db) s)
  | _, _ => True

/-- What a call does in memory before it fails is nothing. A `startServer` that cannot write its row
has not opened a server. A `stopServer` that finds a server releases it and writes the row, or
cannot release it and finds its channels closed. A `changeWorkMode` that finds a server finds and
writes its row, or would change neither the mode nor the connections. -/
def Harmless (register : ProtocolRegister) : Event → Serving → Prop
  | .request (.startServer id up) db, s =>
    db.reads = true → db.writes = false → s.control.linkIdServerMap id = none →
      ∀ plugins, ¬ Opens register up id s.control.table plugins
  | .request (.stopServer id stops) db, s =>
    db.reads = true → s.control.table.Live id → ∀ q, s.control.linkIdServerMap id = some q →
      (stops = true → db.writes = true) ∧ (stops = false → s.context q = ⟨false, []⟩)
  | .request (.changeWorkMode id mode) db, s =>
    db.connects = true → ∀ q, s.control.linkIdServerMap id = some q →
      (db.selects = true ∧ s.control.table.Live id ∧ db.writes = true) ∨
        (workModeOf s.control id = some mode ∧ (s.context q).otherChannels = [])
  | _, _ => True

section Calls

variable {register : ProtocolRegister} {db : Database} {s : Serving} {id : Nat}

theorem changesNothing_of_same {op : Operation} (h : after ((call register db op).run s) = s) :
    ChangesNothing register (.request op db) s := by
  intro _
  rw [step, h]
  exact ⟨rfl, rfl, rfl, fun _ => rfl, fun _ _ _ => rfl⟩

/-- A call with a transaction changes nothing if it is undone, and nothing in memory has changed. -/
theorem changesNothing_iff_of_ended (register : ProtocolRegister) (op : Operation)
    {context : Ref → Context} {r : EStateM.Result Throwable LinkControl Unit}
    (hrun : (call register db op).run s = ended db s context r) :
    ChangesNothing register (.request op db) s ↔
      (¬ (db.writes = true ∧ Returned r) →
        Unchanged s (Serving.withRowsOf ⟨after r, context⟩ s)) := by
  change (¬ Returned ((call register db op).run s) →
    Unchanged s (after ((call register db op).run s))) ↔ _
  rw [hrun, ← returned_ended]
  refine forall_congr' fun hthrown => ?_
  rw [after_ended_of_not_returned hthrown]

/-- The maps, the running links and the channels are all there is in memory. -/
theorem unchanged_of_frame {c : LinkControl} {context : Ref → Context}
    (hq : c.linkIdServerMap = s.control.linkIdServerMap)
    (hl : c.linkIdLinkMap = s.control.linkIdLinkMap)
    (hrunning : ∀ id, c.running id = s.control.running id)
    (hcontext : ∀ id q, s.control.linkIdServerMap id = some q → context q = s.context q) :
    Unchanged s (Serving.withRowsOf ⟨c, context⟩ s) where
  serverMap := hq
  linkMap := hl
  rows := rfl
  workMode id := congrArg (fun link : Option Link => link.bind fun link => link.workMode)
    (hrunning id)
  channels := hcontext

/-- A call that builds objects and touches no channel of a registered server. -/
theorem unchanged_of_alloc (h : ∀ id, Owned s.control id) {c : LinkControl}
    {context : Ref → Context} (link : Link)
    (hq : c.linkIdServerMap = s.control.linkIdServerMap)
    (hl : c.linkIdLinkMap = s.control.linkIdLinkMap)
    (hservers : c.servers = s.control.servers ∨
      ∃ server, c.servers = (s.control.servers.alloc server).2)
    (hlinks : c.links = (s.control.links.alloc link).2)
    (hcontext : ∀ id q, s.control.linkIdServerMap id = some q → context q = s.context q) :
    Unchanged s (Serving.withRowsOf ⟨c, context⟩ s) :=
  unchanged_of_frame hq hl
    (fun id => ((h id).frame_alloc link (congrFun hq id) (congrFun hl id) hservers hlinks).2)
    hcontext

theorem startServer_changesNothing_iff (h : ∀ id, Owned s.control id) (up : Startup) :
    ChangesNothing register (.request (.startServer id up) db) s ↔
      Harmless register (.request (.startServer id up) db) s := by
  by_cases hfound : db.reads = true ∧ s.control.table.selectLinkById id ≠ none
  · obtain ⟨hreads, hlive⟩ := hfound
    obtain ⟨link, hlink⟩ := Option.ne_none_iff_exists'.mp hlive
    obtain ⟨context, hrun, hframe⟩ := startServer_run register up hreads hlink
    have hregistered : ∀ id' q, s.control.linkIdServerMap id' = some q →
        context q = s.context q := by
      intro id' q hq
      obtain ⟨-, -, hlt, -⟩ := (h id').of_server hq
      exact hframe q (Nat.ne_of_lt hlt)
    have hstarts := startServer_starts register up s.control id
    have hiff := changesNothing_iff_of_ended register (.startServer id up) hrun
    generalize (Manager.startServer register up id).run s.control = result at hiff hstarts
    cases hstarts with
    | absent hnone => exact absurd hnone hlive
    | again _ hq =>
      refine iff_of_true (hiff.mpr fun _ => ?_) fun _ _ hnone => ?_
      · exact unchanged_of_alloc h _ rfl rfl (.inl rfl) rfl hregistered
      · rw [hq] at hnone
        cases hnone
    | failed e link' servers _ hq hfail hservers =>
      refine iff_of_true (hiff.mpr fun _ => ?_) fun _ _ _ => hfail
      exact unchanged_of_alloc h link' rfl rfl hservers rfl hregistered
    | @opened link' plugins hlink' hq hplugins hbinds =>
      rw [hiff]
      constructor
      · intro hunchanged _ hwrites _ _ _
        -- the new server is registered
        have hmap := congrFun (hunchanged fun hok => by
          rw [hwrites] at hok
          cases hok.1).serverMap id
        rw [hq] at hmap
        cases (Function.update_self id _ _).symm.trans hmap
      · intro hharmless hthrown
        cases hwrites : db.writes with
        | true => exact absurd ⟨hwrites, trivial⟩ hthrown
        | false =>
          exact absurd ⟨link', hlink', hplugins, hbinds⟩ (hharmless hreads hwrites hq plugins)
  · have hnone : db.reads = true → s.control.table.selectLinkById id = none := fun hreads =>
      not_not.mp fun hlive => hfound ⟨hreads, hlive⟩
    refine iff_of_true (changesNothing_of_same (after_startServer_of_absent register up hnone))
      fun hreads _ _ plugins hopens => ?_
    obtain ⟨link, hlink, -⟩ := hopens
    rw [hnone hreads] at hlink
    cases hlink

/-- A server loses its channels, and nobody else anything. -/
theorem unchanged_of_closed (h : ∀ id, Owned s.control id) {c : LinkControl}
    {context : Ref → Context} {q : Ref} (link : Link)
    (hq : c.linkIdServerMap = s.control.linkIdServerMap)
    (hl : c.linkIdLinkMap = s.control.linkIdLinkMap)
    (hservers : c.servers = s.control.servers.set q
      { s.control.servers.get q with state := .closed })
    (hlinks : c.links = (s.control.links.alloc link).2) (hcontext : context = s.context) :
    Unchanged s (Serving.withRowsOf ⟨c, context⟩ s) := by
  refine unchanged_of_frame hq hl (fun id => ?_) fun _ _ _ => by rw [hcontext]
  refine ((h id).frame (congrFun hq id) (congrFun hl id) (fun q' _ hlt => ?_) fun l hlt _ => ?_).2
  · rw [hservers, Heap.size_set]
    exact ⟨hlt, link_of_set_state _ _ _ _⟩
  · rw [hlinks]
    exact ⟨Heap.lt_size_alloc hlt link, Heap.get_alloc_of_lt hlt link⟩

theorem stopServer_changesNothing_iff (h : ∀ id, Owned s.control id) (stops : Bool) :
    ChangesNothing register (.request (.stopServer id stops) db) s ↔
      Harmless register (.request (.stopServer id stops) db) s := by
  by_cases hfound : db.reads = true ∧ s.control.table.selectLinkById id ≠ none
  · obtain ⟨hreads, hlive⟩ := hfound
    obtain ⟨link, hlink⟩ := Option.ne_none_iff_exists'.mp hlive
    have hiff := changesNothing_iff_of_ended register (.stopServer id stops)
      (stopServer_run stops hreads hlink)
    have hstops := stopServer_stops stops s.control id
    generalize (Manager.stopServer stops id).run s.control = result at hiff hstops
    cases hstops with
    | absent hnone => exact absurd hnone hlive
    | again _ hq =>
      have hcontext : released s id = s.context := by
        unfold released
        rw [hq]
      refine iff_of_true (hiff.mpr fun _ => ?_) fun _ _ q hq' => ?_
      · refine unchanged_of_alloc h _ rfl ?_ (.inl rfl) rfl fun _ _ _ => by rw [hcontext]
        rw [after_ok, ← (h id).of_no_server hq, Function.update_eq_self]
      · rw [hq] at hq'
        cases hq'
    | @failed link' q _ hq hstops =>
      have hcontext : released s id = Function.update s.context q ⟨false, []⟩ := by
        unfold released
        rw [hq]
      rw [hcontext] at hiff
      rw [hiff]
      constructor
      · intro hunchanged _ _ q' hq'
        obtain rfl := Option.some.inj (hq.symm.trans hq')
        refine ⟨fun hstops' => (by rw [hstops] at hstops'; cases hstops'), fun _ => ?_⟩
        have hchannels := (hunchanged fun hok => hok.2).channels id q hq
        exact hchannels.symm.trans (Function.update_self _ _ _)
      · intro hharmless _
        have hsame := (hharmless hreads (LinkTable.live_of_select hlink) q hq).2 hstops
        refine unchanged_of_closed h link' rfl rfl rfl rfl ?_
        rw [← hsame, Function.update_eq_self]
    | @closed link' q _ hq hstops =>
      rw [hiff]
      constructor
      · intro hunchanged _ _ q' hq'
        refine ⟨fun _ => ?_, fun hstops' => (by rw [hstops] at hstops'; cases hstops')⟩
        by_contra hwrites
        -- the server has left the map
        have hmap := congrFun (hunchanged fun hok => hwrites hok.1).serverMap id
        rw [hq] at hmap
        cases (Function.update_self id _ _).symm.trans hmap
      · intro hharmless hthrown
        have hwrites := (hharmless hreads (LinkTable.live_of_select hlink) q hq).1 hstops
        exact absurd ⟨hwrites, trivial⟩ hthrown
  · have hnone : db.reads = true → s.control.table.selectLinkById id = none := fun hreads =>
      not_not.mp fun hlive => hfound ⟨hreads, hlive⟩
    refine iff_of_true (changesNothing_of_same (after_stopServer_of_absent stops hnone))
      fun hreads hlive => ?_
    exact absurd (hnone hreads) (LinkTable.selectLinkById_ne_none_iff.mpr hlive)

/-- Other servers' channels stay open when one server's connections are closed. -/
theorem disconnected_of_ne (h : ∀ id, Owned s.control id) {id' : Nat} {q : Ref}
    (hq : s.control.linkIdServerMap id' = some q) (hne : id' ≠ id) :
    disconnected s id q = s.context q := by
  unfold disconnected
  cases hq0 : s.control.linkIdServerMap id with
  | none => rfl
  | some q0 => exact Function.update_of_ne (server_ne (h id) (h id') hne hq0 hq).symm _ _

/-- **A switch that is not written** shows in the mode and in the connections. -/
theorem unchanged_switched_iff (h : ∀ id, Owned s.control id) {c : LinkControl} {q : Ref}
    {mode : WorkMode} (hq : s.control.linkIdServerMap id = some q)
    (hset : ModeSet s.control c q mode) :
    Unchanged s (Serving.withRowsOf ⟨c, disconnected s id⟩ s) ↔
      workModeOf s.control id = some mode ∧ (s.context q).otherChannels = [] := by
  obtain ⟨-, link, hrunning, hrunning'⟩ := hset.running (h id) hq
  have hcontext : disconnected s id q = { s.context q with otherChannels := [] } := by
    unfold disconnected
    rw [hq]
    exact Function.update_self _ _ _
  have hmode : workModeOf c id = some mode := by
    unfold workModeOf
    rw [hrunning']
    rfl
  constructor
  · intro hsame
    refine ⟨(hsame.workMode id).symm.trans hmode, ?_⟩
    rw [← hsame.channels id q hq]
    exact congrArg Context.otherChannels hcontext
  · rintro ⟨hsame, hothers⟩
    refine ⟨hset.serverMap, hset.linkMap, rfl, fun id' => ?_, fun id' q' hq' => ?_⟩
    · by_cases hid : id' = id
      · rw [hid, hsame]
        exact hmode
      · exact congrArg (fun link : Option Link => link.bind fun link => link.workMode)
          (hset.frame h hq hid).2
    · by_cases hid : id' = id
      · rw [hid] at hq'
        obtain rfl := Option.some.inj (hq.symm.trans hq')
        refine hcontext.trans ?_
        rw [← hothers]
      · exact disconnected_of_ne h hq' hid

theorem changeWorkMode_changesNothing_iff (h : ∀ id, Owned s.control id) (mode : WorkMode) :
    ChangesNothing register (.request (.changeWorkMode id mode) db) s ↔
      Harmless register (.request (.changeWorkMode id mode) db) s := by
  by_cases hfound : db.connects = true ∧ s.control.linkIdServerMap id ≠ none
  · obtain ⟨hconnects, hmap⟩ := hfound
    obtain ⟨q, hq⟩ := Option.ne_none_iff_exists'.mp hmap
    have hharmless : Harmless register (.request (.changeWorkMode id mode) db) s ↔
        (db.selects = true ∧ s.control.table.Live id ∧ db.writes = true) ∨
          (workModeOf s.control id = some mode ∧ (s.context q).otherChannels = []) := by
      refine ⟨fun hharmless => hharmless hconnects q hq, fun hcase _ q' hq' => ?_⟩
      obtain rfl := Option.some.inj (hq.symm.trans hq')
      exact hcase
    rw [hharmless]
    by_cases hrow : db.selects = true ∧ s.control.table.selectLinkById id ≠ none
    · obtain ⟨hselects, hlive⟩ := hrow
      obtain ⟨link, hlink⟩ := Option.ne_none_iff_exists'.mp hlive
      have hiff := changesNothing_iff_of_ended register (.changeWorkMode id mode)
        (changeWorkMode_run mode (reads_iff.mpr ⟨hconnects, hselects⟩) hq hlink)
      have hchanges := changeWorkMode_changes mode s.control id
      generalize (Manager.changeWorkMode mode id).run s.control = result at hiff hchanges
      cases hchanges with
      | refused hnone => exact absurd hnone hmap
      | gone _ hnone => exact absurd hnone hlive
      | @changed link' q' hq' hlink' =>
        obtain rfl := Option.some.inj (hq.symm.trans hq')
        have hset : ModeSet s.control { s.control with
            table := s.control.table.setWorkMode mode id
            links := ((modeLinks s.control mode q).alloc { link' with workMode := some mode }).2 }
            q mode := by
          have hsize : ∀ l, l < s.control.links.size → l < (modeLinks s.control mode q).size := by
            intro l hl
            unfold modeLinks
            rw [Heap.size_set]
            exact hl
          exact ⟨rfl, rfl, rfl, fun l hl =>
            ⟨Heap.lt_size_alloc (hsize l hl) _, Heap.get_alloc_of_lt (hsize l hl) _⟩⟩
        rw [hiff, after_ok, unchanged_switched_iff h hq hset]
        have hfound : db.selects = true ∧ s.control.table.Live id :=
          ⟨hselects, LinkTable.live_of_select hlink⟩
        have hreturned : Returned (EStateM.Result.ok () { s.control with
            table := s.control.table.setWorkMode mode id
            links := ((modeLinks s.control mode q).alloc { link' with workMode := some mode }).2 } :
            EStateM.Result Throwable LinkControl Unit) := trivial
        tauto
    · obtain ⟨e, hrun⟩ := changeWorkMode_run_of_gone mode hconnects hq fun hselects =>
        not_not.mp fun hlive => hrow ⟨hselects, hlive⟩
      have hset : ModeSet s.control { s.control with links := modeLinks s.control mode q } q mode :=
        ⟨rfl, rfl, rfl, fun l hl => ⟨by unfold modeLinks; rw [Heap.size_set]; exact hl, rfl⟩⟩
      have hgone : ¬ (db.selects = true ∧ s.control.table.Live id ∧ db.writes = true) := fun hok =>
        hrow ⟨hok.1, LinkTable.selectLinkById_ne_none_iff.mpr hok.2.1⟩
      rw [or_iff_right hgone, ← unchanged_switched_iff h hq hset]
      change (¬ Returned ((changeWorkMode mode db id).run s) →
        Unchanged s (after ((changeWorkMode mode db id).run s))) ↔ _
      rw [hrun]
      exact ⟨fun hunchanged => hunchanged (not_returned_error _ _), fun hunchanged _ => hunchanged⟩
  · have hnone : db.connects = true → s.control.linkIdServerMap id = none := fun hconnects =>
      not_not.mp fun hmap => hfound ⟨hconnects, hmap⟩
    refine iff_of_true (changesNothing_of_same (after_changeWorkMode_of_refused mode hnone))
      fun hconnects q hq => ?_
    rw [hnone hconnects] at hq
    cases hq

/-- A request that is one statement on the rows. -/
theorem update_run (f : LinkTable → LinkTable) (db : Database) (s : Serving) :
    let r := (transactional db (statement db.updates
      (modify fun c => { c with table := f c.table }))).run s
    (∃ t, (after r).control = { s.control with table := t }) ∧ (¬ Returned r → after r = s) := by
  dsimp only
  rw [run_transactional]
  unfold statement
  cases db.connects with
  | false => exact ⟨⟨s.control.table, rfl⟩, fun _ => rfl⟩
  | true =>
    cases db.updates with
    | false => exact ⟨⟨s.control.table, rfl⟩, fun _ => rfl⟩
    | true =>
      cases db.commits with
      | false => exact ⟨⟨s.control.table, rfl⟩, fun _ => rfl⟩
      | true => exact ⟨⟨f s.control.table, rfl⟩, fun h => absurd trivial h⟩

/-- What an event does if it is a request that throws. -/
theorem changesNothing_iff (h : ∀ id, Owned s.control id) (e : Event) :
    ChangesNothing register e s ↔ Harmless register e s := by
  have hupdate : ∀ {op : Operation} {db : Database},
      (¬ Returned ((call register db op).run s) → after ((call register db op).run s) = s) →
      ChangesNothing register (.request op db) s := fun hsame hthrown =>
    changesNothing_of_same (hsame hthrown) hthrown
  cases e with
  | accept | relay | closed => exact Iff.rfl
  | request op db =>
    cases op with
    | addLink form => exact iff_of_true (hupdate (update_run _ db s).2) trivial
    | updateLink id form => exact iff_of_true (hupdate (update_run _ db s).2) trivial
    | deleteLink id => exact iff_of_true (hupdate (update_run _ db s).2) trivial
    | startServer id up => exact startServer_changesNothing_iff h up
    | stopServer id stops => exact stopServer_changesNothing_iff h stops
    | changeWorkMode id mode => exact changeWorkMode_changesNothing_iff h mode

end Calls

/-! ## Runs -/

section Runs

variable {register : ProtocolRegister} {db : Database} {s : Serving} {id : Nat}

/-- The rows are no part of what is in memory. -/
theorem owned_withTable {c : LinkControl} (h : Owned c id) (t : LinkTable) :
    Owned { c with table := t } id := by
  cases h with
  | unregistered hq hl => exact .unregistered hq hl
  | registered hq hl hq_lt hl_lt hserver hid => exact .registered hq hl hq_lt hl_lt hserver hid

theorem owned_ended {context : Ref → Context} {r : EStateM.Result Throwable LinkControl Unit}
    (h : ∀ id, Owned (after r) id) (id : Nat) :
    Owned (after (ended db s context r)).control id := by
  unfold ended
  cases r with
  | error e c => exact owned_withTable (h id) _
  | ok u c =>
    cases db.writes with
    | false => exact owned_withTable (h id) _
    | true => exact h id

theorem owned_changeWorkMode (h : ∀ id, Owned s.control id) (linkId : Nat) (mode : WorkMode)
    (id : Nat) : Owned (after ((changeWorkMode mode db linkId).run s)).control id := by
  by_cases hfound : db.connects = true ∧ s.control.linkIdServerMap linkId ≠ none
  · obtain ⟨hconnects, hmap⟩ := hfound
    obtain ⟨q, hq⟩ := Option.ne_none_iff_exists'.mp hmap
    by_cases hrow : db.selects = true ∧ s.control.table.selectLinkById linkId ≠ none
    · obtain ⟨hselects, hlive⟩ := hrow
      obtain ⟨link, hlink⟩ := Option.ne_none_iff_exists'.mp hlive
      rw [changeWorkMode_run mode (reads_iff.mpr ⟨hconnects, hselects⟩) hq hlink]
      exact owned_ended (@changeWorkMode_moves httpRegister _ h linkId mode).1 id
    · obtain ⟨e, hrun⟩ := changeWorkMode_run_of_gone mode hconnects hq fun hselects =>
        not_not.mp fun hlive => hrow ⟨hselects, hlive⟩
      have hset : ModeSet s.control { s.control with links := modeLinks s.control mode q } q mode :=
        ⟨rfl, rfl, rfl, fun l hl => ⟨by unfold modeLinks; rw [Heap.size_set]; exact hl, rfl⟩⟩
      rw [hrun, after_error]
      by_cases hid : id = linkId
      · rw [hid]
        exact (hset.running (h linkId) hq).1
      · exact (hset.frame h hq hid).1
  · have hnone : db.connects = true → s.control.linkIdServerMap linkId = none := fun hconnects =>
      not_not.mp fun hmap => hfound ⟨hconnects, hmap⟩
    rw [after_changeWorkMode_of_refused mode hnone]
    exact h id

theorem owned_call (register : ProtocolRegister) (db : Database) (op : Operation)
    (h : ∀ id, Owned s.control id) (id : Nat) :
    Owned (after ((call register db op).run s)).control id := by
  have hupdate : ∀ f : LinkTable → LinkTable, Owned (after ((transactional db (statement db.updates
      (modify fun c => { c with table := f c.table }))).run s)).control id := by
    intro f
    obtain ⟨⟨t, hcontrol⟩, -⟩ := update_run f db s
    rw [hcontrol]
    exact owned_withTable (h id) t
  cases op with
  | addLink form => exact hupdate _
  | updateLink linkId form => exact hupdate _
  | deleteLink linkId => exact hupdate _
  | changeWorkMode linkId mode => exact owned_changeWorkMode h linkId mode id
  | startServer linkId up =>
    change Owned (after ((startServer register up db linkId).run s)).control id
    by_cases hfound : db.reads = true ∧ s.control.table.selectLinkById linkId ≠ none
    · obtain ⟨link, hlink⟩ := Option.ne_none_iff_exists'.mp hfound.2
      obtain ⟨context, hrun, -⟩ := startServer_run register up hfound.1 hlink
      rw [hrun]
      exact owned_ended (startServer_moves h linkId up).1 id
    · rw [after_startServer_of_absent register up fun hreads =>
        not_not.mp fun hlive => hfound ⟨hreads, hlive⟩]
      exact h id
  | stopServer linkId stops =>
    change Owned (after ((stopServer stops db linkId).run s)).control id
    by_cases hfound : db.reads = true ∧ s.control.table.selectLinkById linkId ≠ none
    · obtain ⟨link, hlink⟩ := Option.ne_none_iff_exists'.mp hfound.2
      rw [stopServer_run stops hfound.1 hlink]
      exact owned_ended (@stopServer_moves register _ h linkId stops).1 id
    · rw [after_stopServer_of_absent stops fun hreads =>
        not_not.mp fun hlive => hfound ⟨hreads, hlive⟩]
      exact h id

theorem owned_step (register : ProtocolRegister) (e : Event) (h : ∀ id, Owned s.control id)
    (id : Nat) : Owned (step register e s).control id := by
  cases e with
  | request op db => exact owned_call register db op h id
  | accept q channel =>
    unfold step
    dsimp only
    split <;> exact h id
  | relay q channel =>
    unfold step
    dsimp only
    split <;> exact h id
  | closed q channel => exact h id

end Runs

/-- **A call that throws changes nothing**, in every state a run from a new process reaches, exactly
when the run meets `Harmless`. -/
theorem changesNothing_iff_harmless (register : ProtocolRegister) {s : Serving}
    (hnew : EmptyMaps s.control) (es : List Event) :
    Meets (step register) (ChangesNothing register) es s ↔
      Meets (step register) (Harmless register) es s :=
  meets_congr_of_invariant (I := fun s : Serving => ∀ id, Owned s.control id)
    (fun e _ h => changesNothing_iff h e) (fun e _ h => owned_step register e h)
    (owned_of_emptyMaps hnew)

/-- The manager of a new process. -/
def newServing : Serving := ⟨newManager, fun _ => ⟨false, []⟩⟩

/-- A database that does what it is asked, and one that cannot write. -/
def database : Database := ⟨true, true, true, true⟩
def readOnly : Database := ⟨true, true, false, true⟩

/-- A link is switched too early, started, reached by a client, and switched. The row of the second
start is not written. -/
theorem changesNothing_switched :
    Meets (step httpRegister) (ChangesNothing httpRegister)
      [.request (.addLink recordForm) database, .request (.changeWorkMode 1 .STUB) database,
        .request (.startServer 1 freePort) database, .accept 0 7,
        .request (.startServer 1 freePort) readOnly,
        .request (.changeWorkMode 1 .STUB) database] newServing :=
  (changesNothing_iff_harmless httpRegister (fun _ => ⟨rfl, rfl⟩) _).mpr
    ⟨trivial, fun _ _ hq => (by cases hq), fun _ hwrites => (by cases hwrites), trivial,
      fun _ _ hq => (by cases hq), fun _ _ _ => .inl ⟨rfl, ⟨_, rfl, rfl⟩, rfl⟩, trivial⟩

/-- The row is deleted before the switch. The call throws, the server is in the new mode and its
client is gone. -/
theorem not_changesNothing_deleted :
    ¬ Meets (step httpRegister) (ChangesNothing httpRegister)
      [.request (.addLink recordForm) database, .request (.startServer 1 freePort) database,
        .accept 0 7, .request (.deleteLink 1) database,
        .request (.changeWorkMode 1 .STUB) database] newServing := by
  rintro ⟨-, -, -, -, hchanges, -⟩
  have hsame := hchanges id
  have hmode : some WorkMode.STUB = some WorkMode.RECORD := hsame.workMode 1
  cases hmode

end Terminator.Manager.FailedCalls
