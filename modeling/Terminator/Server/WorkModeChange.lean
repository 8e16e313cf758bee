import Mathlib.Logic.Function.Basic
import Terminator.Manager.LinkTable
import Terminator.Run.Invariant

/-!
# Changing the work mode under connections

`ServerImpl.changeWorkMode` sets the mode of the link and then closes the channels that are
registered in the `ServerContext`. Meanwhile connections are accepted: `ServerPipelineFactory` and
`HttpServerPipelineFactory` read the mode once for each handler they may install, the channel is
open, and only then does the `channelOpen` of the handler register it. The steps of any number of
changes and of any number of connections interleave. The link speaks HTTP; of a pipeline the model
keeps the handlers named `"handler"`, which are the ones a work mode decides.

A connection that has read the old mode and registers after the close is missed, and so is one that
found no handler at all. `Settled` says that a change leaves none behind: each connection in set-up
would go on to the handler of the new mode, or be dropped.

**`effective_of_settled`**: in a run whose changes leave everything settled, the mode that was set
last is the mode of every open channel, whenever no change is running; and a run with a change that
does not can be continued, by steps of its connections alone, to a channel with other handlers.
-/

namespace Terminator.Server.WorkModeChange

open Terminator.Manager

/-! ## The two sides -/

/-- Where a connection is. `building tests handlers`: in `getPipeline`, with the modes still to be
tested for and the handlers installed so far; with no tests left `getPipeline` has returned. -/
inductive Connection where
  | absent
  | accepted
  | building (tests handlers : List WorkMode)
  | opened (handlers : List WorkMode) (registered : Bool)
  | closed
  deriving DecidableEq

/-- The link and its connections; the mode each call of `changeWorkMode` that has not returned was
called with, if it has set it; and the mode of the call that returned last. -/
structure Listener where
  workMode : WorkMode
  connections : Nat → Connection
  changes : Nat → Option WorkMode
  returned : Option WorkMode

/-- A step of a connection, or of a thread that changes the mode. -/
inductive Event where
  | accept (c : Nat)
  | getWorkMode (c : Nat)
  | channelOpen (c : Nat)
  | addChannel (c : Nat)
  | disconnect (c : Nat)
  | setWorkMode (t : Nat) (mode : WorkMode)
  | closeOtherChannels (t : Nat)

/-- A step of a connection. -/
def Event.OfConnection : Event → Prop
  | accept _ | getWorkMode _ | channelOpen _ | addChannel _ | disconnect _ => True
  | setWorkMode _ _ | closeOtherChannels _ => False

/-- The tests of `HttpServerPipelineFactory.getPipeline`, in their order. -/
def httpTests : List WorkMode := [.RECORD, .REPLAY, .STUB]

/-- `pipeline.addLast("handler", …)`: a second handler of the name is refused. -/
def addLast (handler : WorkMode) : List WorkMode → Option (List WorkMode)
  | [] => some [handler]
  | _ :: _ => none

/-- `if (test == link.getWorkMode()) pipeline.addLast("handler", …)`. -/
def install (mode test : WorkMode) (handlers : List WorkMode) : Option (List WorkMode) :=
  if test = mode then addLast test handlers else some handlers

/-- The test of `ServerPipelineFactory.getPipeline`. -/
def Connection.tunnelTest (mode : WorkMode) : Connection :=
  if .TUNNEL = mode then building [] [.TUNNEL] else building httpTests []

/-- A connection whose `getPipeline` throws is closed. -/
def Connection.test (mode test : WorkMode) (tests handlers : List WorkMode) : Connection :=
  match install mode test handlers with
  | some handlers => building tests handlers
  | none => closed

/-- The connection after one more `link.getWorkMode()`, which gives `mode`. -/
def Connection.read (mode : WorkMode) : Connection → Connection
  | accepted => tunnelTest mode
  | building (test :: tests) handlers => Connection.test mode test tests handlers
  | c => c

/-- A connection comes in. -/
def Connection.accept : Connection → Connection
  | absent => accepted
  | c => c

/-- The channel of a pipeline that was built. -/
def Connection.open : Connection → Connection
  | building [] handlers => opened handlers false
  | c => c

/-- `channelOpen` of the handler, if there is one: `context.addChannel(inboundChannel)`. -/
def Connection.register : Connection → Connection
  | opened (handler :: handlers) false => opened (handler :: handlers) true
  | c => c

/-- The connection ends. -/
def Connection.disconnect : Connection → Connection
  | absent => absent
  | _ => closed

/-- `otherChannels.close()`. -/
def Connection.closeRegistered : Connection → Connection
  | opened _ true => closed
  | c => c

/-- A step of one connection. -/
def Listener.onConnection (c : Nat) (f : Connection → Connection) (s : Listener) : Listener :=
  { s with connections := Function.update s.connections c (f (s.connections c)) }

/-- `link.setWorkMode(mode)`, in a thread that is not changing the mode already. -/
def Listener.setWorkMode (t : Nat) (mode : WorkMode) (s : Listener) : Listener :=
  match s.changes t with
  | none => { s with workMode := mode, changes := Function.update s.changes t (some mode) }
  | some _ => s

/-- `context.closeOtherChannels()`, and the return of `changeWorkMode`. -/
def Listener.closeOtherChannels (t : Nat) (s : Listener) : Listener :=
  match s.changes t with
  | none => s
  | some mode =>
    { s with
      connections := fun c => (s.connections c).closeRegistered
      changes := Function.update s.changes t none
      returned := some mode }

/-- One step. -/
def step : Event → Listener → Listener
  | .accept c, s => s.onConnection c Connection.accept
  | .getWorkMode c, s => s.onConnection c (Connection.read s.workMode)
  | .channelOpen c, s => s.onConnection c Connection.open
  | .addChannel c, s => s.onConnection c Connection.register
  | .disconnect c, s => s.onConnection c Connection.disconnect
  | .setWorkMode t mode, s => s.setWorkMode t mode
  | .closeOtherChannels t, s => s.closeOtherChannels t

/-- A server that was just started. -/
def listening (mode : WorkMode) : Listener := ⟨mode, fun _ => .absent, fun _ => none, none⟩

/-- No change is running. -/
def Listener.Quiet (s : Listener) : Prop := ∀ t, s.changes t = none

/-- **The mode of the change that returned last** is the mode of every open channel, unless another
change is running. -/
def Effective (s : Listener) : Prop :=
  ∀ mode, s.returned = some mode → s.Quiet →
    ∀ c handlers registered, s.connections c = .opened handlers registered → handlers = [mode]

/-! ## The condition -/

/-- What the rest of `getPipeline` gives while the mode does not change, `none` if it throws. -/
def rest (mode : WorkMode) : List WorkMode → List WorkMode → Option (List WorkMode)
  | [], handlers => some handlers
  | test :: tests, handlers => (install mode test handlers).bind (rest mode tests)

/-- The handlers the connection ends up with while the mode does not change, if its channel is or
will be open. -/
def Connection.outcome (mode : WorkMode) : Connection → Option (List WorkMode)
  | absent | accepted => if .TUNNEL = mode then some [.TUNNEL] else rest mode httpTests []
  | building tests handlers => rest mode tests handlers
  | opened handlers _ => some handlers
  | closed => none

/-- The connection goes on to the handler of the mode, or to no channel. -/
def Connection.Fine (mode : WorkMode) (conn : Connection) : Prop :=
  ∀ handlers, conn.outcome mode = some handlers → handlers = [mode]

/-- A change that is the last one running closes when the link has its mode, and every connection
that it does not close is fine. -/
def Settled (e : Event) (s : Listener) : Prop :=
  ∀ t mode, e = .closeOtherChannels t → s.changes t = some mode →
    (∀ t', t' ≠ t → s.changes t' = none) →
    s.workMode = mode ∧ ∀ c, (s.connections c).closeRegistered.Fine mode

/-! ## One connection -/

section Connections

variable {mode : WorkMode} {conn : Connection}

/-- A connection that reads one mode all the time gets its handler. -/
theorem outcome_accepted (mode : WorkMode) : Connection.accepted.outcome mode = some [mode] := by
  cases mode <;> rfl

theorem outcome_absent (mode : WorkMode) : Connection.absent.outcome mode = some [mode] :=
  outcome_accepted mode

theorem outcome_tunnelTest (mode : WorkMode) :
    (Connection.tunnelTest mode).outcome mode = some [mode] := by
  cases mode <;> rfl

theorem outcome_test (mode test : WorkMode) (tests handlers : List WorkMode) :
    (Connection.test mode test tests handlers).outcome mode =
      rest mode (test :: tests) handlers := by
  unfold Connection.test rest
  cases install mode test handlers <;> rfl

/-- Reading the mode that does not change is what `outcome` foresees. -/
theorem outcome_read (mode : WorkMode) (conn : Connection) :
    (conn.read mode).outcome mode = conn.outcome mode := by
  cases conn with
  | absent | opened | closed => rfl
  | accepted => exact (outcome_tunnelTest mode).trans (outcome_accepted mode).symm
  | building tests handlers =>
    cases tests with
    | nil => rfl
    | cons test tests => exact outcome_test mode test tests handlers

theorem outcome_accept (mode : WorkMode) (conn : Connection) :
    conn.accept.outcome mode = conn.outcome mode := by
  cases conn <;> rfl

theorem outcome_open (mode : WorkMode) (conn : Connection) :
    conn.open.outcome mode = conn.outcome mode := by
  rcases conn with _ | _ | ⟨_ | ⟨test, tests⟩, handlers⟩ | _ | _ <;> rfl

theorem outcome_register (mode : WorkMode) (conn : Connection) :
    conn.register.outcome mode = conn.outcome mode := by
  rcases conn with _ | _ | _ | ⟨_ | _, _ | _⟩ | _ <;> rfl

theorem fine_accepted (mode : WorkMode) : Connection.accepted.Fine mode := by
  intro handlers h
  rw [outcome_accepted] at h
  exact (Option.some.inj h).symm

theorem fine_absent (mode : WorkMode) : Connection.absent.Fine mode := fine_accepted mode

theorem fine_closed (mode : WorkMode) : Connection.closed.Fine mode := fun _ h => by cases h

theorem Connection.Fine.of_outcome {conn' : Connection} (h : conn.Fine mode)
    (heq : conn'.outcome mode = conn.outcome mode) : conn'.Fine mode := by
  unfold Connection.Fine
  rw [heq]
  exact h

theorem Connection.Fine.disconnect (h : conn.Fine mode) : conn.disconnect.Fine mode := by
  cases conn with
  | absent => exact h
  | accepted | building | opened | closed => exact fine_closed mode

end Connections

/-! ## Steps of connections -/

variable {s : Listener}

/-- **A step of a connection** changes that connection, and keeps it fine for the mode of the
link. -/
theorem step_ofConnection {e : Event} (he : e.OfConnection) (s : Listener) :
    ∃ c f, step e s = s.onConnection c f ∧
      ∀ conn : Connection, conn.Fine s.workMode → (f conn).Fine s.workMode := by
  cases e with
  | accept c => exact ⟨c, _, rfl, fun conn h => h.of_outcome (outcome_accept _ conn)⟩
  | getWorkMode c => exact ⟨c, _, rfl, fun conn h => h.of_outcome (outcome_read _ conn)⟩
  | channelOpen c => exact ⟨c, _, rfl, fun conn h => h.of_outcome (outcome_open _ conn)⟩
  | addChannel c => exact ⟨c, _, rfl, fun conn h => h.of_outcome (outcome_register _ conn)⟩
  | disconnect c => exact ⟨c, _, rfl, fun conn h => h.disconnect⟩
  | setWorkMode t mode => exact False.elim he
  | closeOtherChannels t => exact False.elim he

theorem onConnection_self (c : Nat) (f : Connection → Connection) (s : Listener) :
    (s.onConnection c f).connections c = f (s.connections c) := Function.update_self _ _ _

theorem onConnection_ne {c c' : Nat} (hne : c' ≠ c) (f : Connection → Connection) (s : Listener) :
    (s.onConnection c f).connections c' = s.connections c' := Function.update_of_ne hne _ _

/-! ## Steps of changes -/

theorem setWorkMode_of_none {t : Nat} (ht : s.changes t = none) (mode : WorkMode) :
    s.setWorkMode t mode =
      { s with workMode := mode, changes := Function.update s.changes t (some mode) } := by
  unfold Listener.setWorkMode
  rw [ht]

theorem setWorkMode_of_some {t : Nat} {mode' : WorkMode} (ht : s.changes t = some mode')
    {mode : WorkMode} : s.setWorkMode t mode = s := by
  unfold Listener.setWorkMode
  rw [ht]

theorem closeOtherChannels_of_none {t : Nat} (ht : s.changes t = none) :
    s.closeOtherChannels t = s := by
  unfold Listener.closeOtherChannels
  rw [ht]

theorem closeOtherChannels_of_some {t : Nat} {mode : WorkMode} (ht : s.changes t = some mode) :
    s.closeOtherChannels t =
      { s with
        connections := fun c => (s.connections c).closeRegistered
        changes := Function.update s.changes t none
        returned := some mode } := by
  unfold Listener.closeOtherChannels
  rw [ht]

/-! ## Runs that meet the condition -/

/-- Between the changes the link has the mode of the last one, and every connection is fine. -/
def Calm (s : Listener) : Prop :=
  s.Quiet → ∀ mode, s.returned = some mode → s.workMode = mode ∧ ∀ c, (s.connections c).Fine mode

theorem effective_of_calm (h : Calm s) : Effective s := by
  intro mode hreturned hquiet c handlers registered hopened
  have hfine := (h hquiet mode hreturned).2 c
  rw [hopened] at hfine
  exact hfine handlers rfl

theorem Calm.ofConnection (h : Calm s) {e : Event} (he : e.OfConnection) : Calm (step e s) := by
  obtain ⟨c, f, hstep, hf⟩ := step_ofConnection he s
  rw [hstep]
  intro hquiet mode hreturned
  obtain ⟨hmode, hfine⟩ := h hquiet mode hreturned
  refine ⟨hmode, fun c' => ?_⟩
  by_cases hc : c' = c
  · rw [hc, onConnection_self, ← hmode]
    exact hf _ (hmode ▸ hfine c)
  · rw [onConnection_ne hc]
    exact hfine c'

/-- A change that begins is running. -/
theorem Calm.setWorkMode (h : Calm s) (t : Nat) (mode : WorkMode) :
    Calm (s.setWorkMode t mode) := by
  cases ht : s.changes t with
  | some _ =>
    rw [setWorkMode_of_some ht]
    exact h
  | none =>
    rw [setWorkMode_of_none ht]
    intro hquiet
    have hnone : some mode = none := (Function.update_self t _ s.changes).symm.trans (hquiet t)
    cases hnone

theorem Calm.closeOtherChannels (h : Calm s) {t : Nat} (ht : Settled (.closeOtherChannels t) s) :
    Calm (s.closeOtherChannels t) := by
  cases hchange : s.changes t with
  | none =>
    rw [closeOtherChannels_of_none hchange]
    exact h
  | some mode =>
    rw [closeOtherChannels_of_some hchange]
    intro hquiet mode' hreturned
    obtain rfl := Option.some.inj hreturned
    refine ht t mode rfl hchange fun t' hne => ?_
    exact (Function.update_of_ne hne _ _).symm.trans (hquiet t')

/-- **A step that leaves everything settled** keeps the listener calm. -/
theorem Calm.step (h : Calm s) {e : Event} (he : Settled e s) : Calm (step e s) := by
  cases e with
  | accept | getWorkMode | channelOpen | addChannel | disconnect => exact h.ofConnection trivial
  | setWorkMode t mode => exact h.setWorkMode t mode
  | closeOtherChannels t => exact h.closeOtherChannels he

/-! ## Runs that do not -/

/-- By steps of its connections alone the listener gets to an open channel with the handlers. -/
def Leads (s : Listener) (c : Nat) (handlers : List WorkMode) : Prop :=
  ∃ es, (∀ e ∈ es, Event.OfConnection e) ∧ ∃ registered,
    (Run.run step es s).connections c = .opened handlers registered ∧
    (Run.run step es s).changes = s.changes ∧ (Run.run step es s).returned = s.returned

theorem Leads.of_step {c : Nat} {handlers : List WorkMode} {e : Event} (he : e.OfConnection)
    (h : Leads (step e s) c handlers) : Leads s c handlers := by
  obtain ⟨es, hes, registered, hopened, hchanges, hreturned⟩ := h
  obtain ⟨c', f, hstep, -⟩ := step_ofConnection he s
  refine ⟨e :: es, fun e' he' => ?_, registered, hopened, hchanges.trans ?_, hreturned.trans ?_⟩
  · rcases List.mem_cons.mp he' with rfl | he'
    · exact he
    · exact hes e' he'
  · rw [hstep]
    rfl
  · rw [hstep]
    rfl

/-- The rest of `getPipeline`, step by step. -/
theorem leads_of_building {c : Nat} {tests handlers handlers' : List WorkMode}
    (hconn : s.connections c = .building tests handlers)
    (hrest : rest s.workMode tests handlers = some handlers') : Leads s c handlers' := by
  induction tests generalizing s handlers with
  | nil =>
    obtain rfl := Option.some.inj hrest
    refine .of_step (e := .channelOpen c) trivial ⟨[], by simp, false, ?_, rfl, rfl⟩
    refine (onConnection_self _ _ _).trans ?_
    rw [hconn]
    rfl
  | cons test tests ih =>
    obtain ⟨handlers1, hinstall, hrest⟩ := Option.bind_eq_some_iff.mp hrest
    have hnext : (step (.getWorkMode c) s).connections c = .building tests handlers1 := by
      refine (onConnection_self _ _ _).trans ?_
      rw [hconn]
      change Connection.test s.workMode test tests handlers = _
      unfold Connection.test
      rw [hinstall]
    exact .of_step (e := .getWorkMode c) trivial (ih hnext hrest)

theorem leads_of_accepted {c : Nat} {handlers : List WorkMode}
    (hconn : s.connections c = .accepted)
    (houtcome : (Connection.tunnelTest s.workMode).outcome s.workMode = some handlers) :
    Leads s c handlers := by
  have hnext : (step (.getWorkMode c) s).connections c = Connection.tunnelTest s.workMode := by
    refine (onConnection_self _ _ _).trans ?_
    rw [hconn]
    rfl
  refine .of_step (e := .getWorkMode c) trivial ?_
  unfold Connection.tunnelTest at hnext houtcome
  by_cases htunnel : WorkMode.TUNNEL = s.workMode
  · rw [if_pos htunnel] at hnext houtcome
    exact leads_of_building hnext houtcome
  · rw [if_neg htunnel] at hnext houtcome
    exact leads_of_building hnext houtcome

/-- **What `outcome` foresees can happen.** -/
theorem leads_of_outcome {c : Nat} {handlers : List WorkMode}
    (h : (s.connections c).outcome s.workMode = some handlers) : Leads s c handlers := by
  cases hconn : s.connections c with
  | absent =>
    rw [hconn, outcome_absent, ← outcome_tunnelTest] at h
    refine .of_step (e := .accept c) trivial (leads_of_accepted ?_ h)
    refine (onConnection_self _ _ _).trans ?_
    rw [hconn]
    rfl
  | accepted =>
    rw [hconn, outcome_accepted, ← outcome_tunnelTest] at h
    exact leads_of_accepted hconn h
  | building tests handlers =>
    rw [hconn] at h
    exact leads_of_building hconn h
  | opened handlers registered =>
    rw [hconn] at h
    obtain rfl := Option.some.inj h
    exact ⟨[], by simp, registered, hconn, rfl, rfl⟩
  | closed =>
    rw [hconn] at h
    cases h

/-- Some connections have not come in. -/
def HasAbsent (s : Listener) : Prop := ∃ n, ∀ c, n ≤ c → s.connections c = .absent

theorem HasAbsent.onConnection (h : HasAbsent s) (c : Nat) (f : Connection → Connection) :
    HasAbsent (s.onConnection c f) := by
  obtain ⟨n, hn⟩ := h
  refine ⟨max n (c + 1), fun c' hc => ?_⟩
  rw [onConnection_ne (by omega)]
  exact hn c' (by omega)

theorem HasAbsent.step (h : HasAbsent s) (e : Event) : HasAbsent (step e s) := by
  obtain ⟨n, hn⟩ := id h
  cases e with
  | accept c => exact h.onConnection c _
  | getWorkMode c => exact h.onConnection c _
  | channelOpen c => exact h.onConnection c _
  | addChannel c => exact h.onConnection c _
  | disconnect c => exact h.onConnection c _
  | setWorkMode t mode =>
    refine ⟨n, fun c hc => ?_⟩
    rw [← hn c hc]
    change (s.setWorkMode t mode).connections c = _
    unfold Listener.setWorkMode
    cases s.changes t <;> rfl
  | closeOtherChannels t =>
    refine ⟨n, fun c hc => ?_⟩
    change (s.closeOtherChannels t).connections c = _
    cases ht : s.changes t with
    | none =>
      rw [closeOtherChannels_of_none ht]
      exact hn c hc
    | some mode =>
      rw [closeOtherChannels_of_some ht]
      exact congrArg Connection.closeRegistered (hn c hc)

/-- **A change that leaves something unsettled** can be seen after steps of connections alone. -/
theorem leads_of_not_settled (h : HasAbsent s) {e : Event} (he : ¬ Settled e s) :
    ∃ es, (∀ e ∈ es, Event.OfConnection e) ∧ ¬ Effective (Run.run step es (step e s)) := by
  unfold Settled at he
  push Not at he
  obtain ⟨t, mode, rfl, ht, hothers, hbad⟩ := he
  have hclose : step (.closeOtherChannels t) s = _ := closeOtherChannels_of_some ht
  have hquiet : (step (.closeOtherChannels t) s).Quiet := by
    intro t'
    rw [hclose]
    by_cases hne : t' = t
    · rw [hne]
      exact Function.update_self _ _ _
    · exact (Function.update_of_ne hne _ _).trans (hothers t' hne)
  have hreturned : (step (.closeOtherChannels t) s).returned = some mode := by rw [hclose]
  suffices hleads : ∃ c handlers, Leads (step (.closeOtherChannels t) s) c handlers ∧
      handlers ≠ [mode] by
    obtain ⟨c, handlers, ⟨es, hes, registered, hopened, hchanges, hreturned'⟩, hne⟩ := hleads
    refine ⟨es, hes, fun heffective => hne ?_⟩
    refine heffective mode (hreturned'.trans hreturned) (fun t' => ?_) c handlers registered hopened
    rw [hchanges]
    exact hquiet t'
  by_cases hmode : s.workMode = mode
  · obtain ⟨c, hfine⟩ := hbad hmode
    obtain ⟨handlers, hfine⟩ := not_forall.mp hfine
    obtain ⟨houtcome, hne⟩ := Classical.not_imp.mp hfine
    refine ⟨c, handlers, leads_of_outcome ?_, hne⟩
    rw [hclose]
    exact hmode ▸ houtcome
  · -- The mode is another change's: the next connection to come in shows it.
    obtain ⟨n, hn⟩ := h
    refine ⟨n, [s.workMode], leads_of_outcome ?_, fun heq => hmode (List.singleton_inj.mp heq)⟩
    have habsent : (step (.closeOtherChannels t) s).connections n = .absent := by
      rw [hclose]
      exact congrArg Connection.closeRegistered (hn n (Nat.le_refl n))
    rw [habsent, hclose]
    exact outcome_absent s.workMode

theorem leads_of_not_meets {es : List Event} (h : HasAbsent s)
    (hes : ¬ Run.Meets step Settled es s) :
    ∃ es1 es2 es', es = es1 ++ es2 ∧ (∀ e ∈ es', Event.OfConnection e) ∧
      ¬ Effective (Run.run step (es1 ++ es') s) := by
  induction es generalizing s with
  | nil => exact absurd trivial hes
  | cons e es ih =>
    by_cases he : Settled e s
    · obtain ⟨es1, es2, es', rfl, hes', hbad⟩ := ih (h.step e) fun hmeets => hes ⟨he, hmeets⟩
      exact ⟨e :: es1, es2, es', rfl, hes', hbad⟩
    · obtain ⟨es', hes', hbad⟩ := leads_of_not_settled h he
      exact ⟨[e], es, es', rfl, hes', hbad⟩

/-- **When a change of the work mode takes effect for every connection**: in a run whose changes
leave everything settled, always; a run with one that does not goes wrong from one of its states, by
steps of connections alone. -/
theorem effective_of_settled (mode : WorkMode) (es : List Event) :
    (Run.Meets step Settled es (listening mode) → Run.Always step Effective es (listening mode)) ∧
    (¬ Run.Meets step Settled es (listening mode) →
      ∃ es1 es2 es', es = es1 ++ es2 ∧ (∀ e ∈ es', Event.OfConnection e) ∧
        ¬ Effective (Run.run step (es1 ++ es') (listening mode))) := by
  refine ⟨fun hes => ?_, leads_of_not_meets ⟨0, fun _ _ => rfl⟩⟩
  refine Run.always_of_invariant (I := Calm) (fun _ => effective_of_calm)
    (fun _ _ h he => h.step he) (fun _ mode' hreturned => ?_) hes
  cases hreturned

/-- A connection that is accepted before the change and reads the mode after it. -/
theorem effective_readAfter :
    Run.Always step Effective
      [.accept 0, .setWorkMode 0 .REPLAY, .closeOtherChannels 0, .getWorkMode 0, .getWorkMode 0,
        .getWorkMode 0, .getWorkMode 0, .channelOpen 0, .addChannel 0] (listening .RECORD) := by
  refine (effective_of_settled .RECORD _).1 ⟨?_, ?_, ?_, ?_, ?_, ?_, ?_, ?_, ?_, trivial⟩ <;>
    intro t mode heq hchange hothers <;> cases heq
  refine ⟨Option.some.inj hchange, fun c => ?_⟩
  by_cases hc : c = 0
  · rw [hc]
    exact fine_accepted mode
  · have habsent : (Run.run step [.accept 0, .setWorkMode 0 .REPLAY]
        (listening .RECORD)).connections c = .absent := Function.update_of_ne hc _ _
    have hclose := congrArg Connection.closeRegistered habsent
    exact (congrArg (Connection.Fine mode) hclose).mpr (fine_absent mode)

/-- A connection that reads the mode before the change and registers its channel after the close
keeps the handler of the old mode. -/
theorem not_effective_registersAfter :
    ¬ Run.Always step Effective
      [.accept 0, .getWorkMode 0, .getWorkMode 0, .getWorkMode 0, .getWorkMode 0,
        .setWorkMode 0 .REPLAY, .closeOtherChannels 0, .channelOpen 0, .addChannel 0]
      (listening .RECORD) := by
  intro h
  have hlast := Run.always_iff.mp h _ [] (List.append_nil _).symm
  have hquiet : (Run.run step [.accept 0, .getWorkMode 0, .getWorkMode 0, .getWorkMode 0,
      .getWorkMode 0, .setWorkMode 0 .REPLAY, .closeOtherChannels 0, .channelOpen 0,
      .addChannel 0] (listening .RECORD)).Quiet := by
    intro t
    by_cases ht : t = 0
    · rw [ht]
      rfl
    · exact (Function.update_of_ne ht _ _).trans (Function.update_of_ne ht _ _)
  exact absurd (hlast .REPLAY rfl hquiet 0 [.RECORD] true rfl) (by decide)

end Terminator.Server.WorkModeChange
