import Mathlib.Logic.Function.Basic
import Terminator.Run.Invariant

/-!
# Back-pressure between the two channels

`writeObject` and `channelInterestChanged` of `BaseServerHandler.java` and `BaseRelayHandler.java`,
once both channels are connected. Each handler is called by the I/O thread of its own channel, one
call at a time, so its `trafficLock` keeps nobody out; the handlers of the two channels interleave
between any two operations on a channel.

A write or a flush may change whether a channel is writable, and every change is a notice to the
handler of that channel. A handler that finds the other channel saturated stops reading its own, and
counts on the other handler to let it read again at the next notice. Between its look and its stop
that notice may come and go.

**`not_stranded`**: as long as no handler stops reading when the other channel is writable again and
its notice is used up, a channel that is not read belongs to one that is not writable, in every
state in which all is quiet.
-/

namespace Terminator.Server.BackPressure

open Terminator.Run

/-- The two channels of a connection, and their handlers. -/
inductive Side where
  /-- The client; `BaseServerHandler`. -/
  | inbound
  /-- The remote server; `BaseRelayHandler`. -/
  | outbound
  deriving DecidableEq, Repr

def Side.other : Side → Side
  | inbound => outbound
  | outbound => inbound

/-- `Channel`, as the two methods use it, and the notices its handler has not been given yet. -/
structure Channel where
  readable : Bool
  writable : Bool
  notices : Nat
  deriving DecidableEq

/-- Where the handler of a side is. -/
inductive Phase where
  | idle
  /-- In `writeObject`, before the write. -/
  | writing
  /-- In `writeObject`, before `isWritable`. -/
  | checking
  /-- In `writeObject`, before `setReadable(false)`. -/
  | pausing
  /-- In `channelInterestChanged`, before `isWritable`. -/
  | notified
  /-- In `channelInterestChanged`, before `setReadable(true)`. -/
  | resuming
  deriving DecidableEq, Repr

/-- A connection. -/
structure Relay where
  channel : Side → Channel
  phase : Side → Phase

/-- A change of `isWritable` is a notice. -/
def Channel.setWritable (isWritable : Bool) (c : Channel) : Channel :=
  if c.writable = isWritable then c
  else { c with writable := isWritable, notices := c.notices + 1 }

def Relay.setChannel (side : Side) (f : Channel → Channel) (s : Relay) : Relay :=
  { s with channel := Function.update s.channel side (f (s.channel side)) }

def Relay.setPhase (side : Side) (p : Phase) (s : Relay) : Relay :=
  { s with phase := Function.update s.phase side p }

/-! ## The handlers -/

/-- The next operation of `writeObject`; the write leaves the other channel writable or not. -/
def writeObject (side : Side) (isWritable : Bool) (s : Relay) : Relay :=
  match s.phase side with
  | .writing => (s.setChannel side.other (Channel.setWritable isWritable)).setPhase side .checking
  | .checking =>
    if !(s.channel side.other).writable then s.setPhase side .pausing else s.setPhase side .idle
  | .pausing => (s.setChannel side fun c => { c with readable := false }).setPhase side .idle
  | _ => s

/-- The next operation of `channelInterestChanged`. -/
def channelInterestChanged (side : Side) (s : Relay) : Relay :=
  match s.phase side with
  | .notified =>
    if (s.channel side).writable then s.setPhase side .resuming else s.setPhase side .idle
  | .resuming =>
    (s.setChannel side.other fun c => { c with readable := true }).setPhase side .idle
  | _ => s

/-- `BaseServerHandler.writeObject`. -/
def BaseServerHandler.writeObject : Bool → Relay → Relay := BackPressure.writeObject .inbound

/-- `BaseServerHandler.channelInterestChanged`. -/
def BaseServerHandler.channelInterestChanged : Relay → Relay :=
  BackPressure.channelInterestChanged .inbound

/-- `BaseRelayHandler.writeObject`, after `onRelayResponse`. -/
def BaseRelayHandler.writeObject : Bool → Relay → Relay := BackPressure.writeObject .outbound

/-- `BaseRelayHandler.channelInterestChanged`. -/
def BaseRelayHandler.channelInterestChanged : Relay → Relay :=
  BackPressure.channelInterestChanged .outbound

/-- The handler of a side performs its next operation. -/
def go (isWritable : Bool) (s : Relay) : Side → Relay
  | .inbound =>
    match s.phase .inbound with
    | .notified | .resuming => BaseServerHandler.channelInterestChanged s
    | _ => BaseServerHandler.writeObject isWritable s
  | .outbound =>
    match s.phase .outbound with
    | .notified | .resuming => BaseRelayHandler.channelInterestChanged s
    | _ => BaseRelayHandler.writeObject isWritable s

inductive Event where
  /-- A message arrives on a channel, and `writeObject` is called. -/
  | receive (side : Side)
  /-- A notice arrives, and `channelInterestChanged` is called. -/
  | notice (side : Side)
  /-- A handler performs its next operation. -/
  | go (side : Side) (isWritable : Bool)
  /-- A channel is flushed. -/
  | flush (side : Side) (isWritable : Bool)

/-- One event. -/
def step : Event → Relay → Relay
  | .receive side, s => if s.phase side = .idle then s.setPhase side .writing else s
  | .notice side, s =>
    if s.phase side = .idle ∧ 0 < (s.channel side).notices then
      (s.setChannel side fun c => { c with notices := c.notices - 1 }).setPhase side .notified
    else s
  | .go side isWritable, s => BackPressure.go isWritable s side
  | .flush side isWritable, s => s.setChannel side (Channel.setWritable isWritable)

/-! ## What should hold -/

/-- No handler call is in progress, and no notice is pending. -/
def Quiet (s : Relay) : Prop := ∀ side, s.phase side = .idle ∧ (s.channel side).notices = 0

/-- A channel that is not read belongs to one that is not writable. -/
def NotStranded (s : Relay) : Prop :=
  ∀ side, (s.channel side).readable = false → (s.channel side.other).writable = false

/-- The channel is not writable, or its handler has been notified and has not looked yet, or has and
is about to let the other channel read, or has a notice to come. -/
def Settled (c : Channel) (p : Phase) : Prop :=
  c.writable = false ∨ 0 < c.notices ∨ p = .notified ∨ p = .resuming

/-- A handler that is about to stop reading does so while the other channel is `Settled`. -/
def Timely : Event → Relay → Prop
  | .go side _, s => s.phase side = .pausing → Settled (s.channel side.other) (s.phase side.other)
  | _, _ => True

instance (c : Channel) (p : Phase) : Decidable (Settled c p) :=
  inferInstanceAs (Decidable (c.writable = false ∨ 0 < c.notices ∨ p = .notified ∨ p = .resuming))

instance : ∀ e s, Decidable (Timely e s)
  | .go side _, s => inferInstanceAs (Decidable (s.phase side = .pausing →
      Settled (s.channel side.other) (s.phase side.other)))
  | .receive _, _ | .notice _, _ | .flush _ _, _ => isTrue trivial

/-- A channel that is not read has another that is `Settled`. -/
def Inv (s : Relay) : Prop :=
  ∀ side, (s.channel side).readable = false → Settled (s.channel side.other) (s.phase side.other)

/-! ## Lemmas -/

section Lemmas

variable {s : Relay} {c : Channel} {p : Phase} {side : Side}

@[simp] theorem Side.other_other (side : Side) : side.other.other = side := by cases side <;> rfl

theorem Side.other_ne (side : Side) : side.other ≠ side := by cases side <;> decide

theorem Side.eq_or_eq_other (side x : Side) : x = side ∨ x = side.other := by
  cases side <;> cases x <;> decide

@[simp] theorem Relay.phase_setChannel (side : Side) (f : Channel → Channel) (s : Relay) :
    (s.setChannel side f).phase = s.phase := rfl

@[simp] theorem Relay.channel_setPhase (side : Side) (p : Phase) (s : Relay) :
    (s.setPhase side p).channel = s.channel := rfl

@[simp] theorem Relay.channel_setChannel_self (side : Side) (f : Channel → Channel) (s : Relay) :
    (s.setChannel side f).channel side = f (s.channel side) := Function.update_self _ _ _

@[simp] theorem Relay.channel_setChannel_other (side : Side) (f : Channel → Channel) (s : Relay) :
    (s.setChannel side f).channel side.other = s.channel side.other :=
  Function.update_of_ne side.other_ne _ _

@[simp] theorem Relay.channel_setChannel_of_other (side : Side) (f : Channel → Channel)
    (s : Relay) : (s.setChannel side.other f).channel side = s.channel side :=
  Function.update_of_ne side.other_ne.symm _ _

@[simp] theorem Relay.phase_setPhase_self (side : Side) (p : Phase) (s : Relay) :
    (s.setPhase side p).phase side = p := Function.update_self _ _ _

@[simp] theorem Relay.phase_setPhase_other (side : Side) (p : Phase) (s : Relay) :
    (s.setPhase side p).phase side.other = s.phase side.other :=
  Function.update_of_ne side.other_ne _ _

@[simp] theorem Channel.readable_setWritable (isWritable : Bool) (c : Channel) :
    (c.setWritable isWritable).readable = c.readable := by
  unfold Channel.setWritable
  split <;> rfl

/-- The two halves of the invariant, seen from one side. -/
theorem inv_iff (side : Side) : Inv s ↔
    ((s.channel side).readable = false → Settled (s.channel side.other) (s.phase side.other)) ∧
      ((s.channel side.other).readable = false → Settled (s.channel side) (s.phase side)) := by
  constructor
  · intro h
    have hother := h side.other
    rw [Side.other_other] at hother
    exact ⟨h side, hother⟩
  · rintro ⟨hself, hother⟩ x
    rcases side.eq_or_eq_other x with rfl | rfl
    · exact hself
    · rw [Side.other_other]
      exact hother

/-- A change of `isWritable` is a notice to come. -/
theorem Settled.setWritable (h : Settled c p) (isWritable : Bool) :
    Settled (c.setWritable isWritable) p := by
  unfold Channel.setWritable
  by_cases hsame : c.writable = isWritable
  · rw [if_pos hsame]
    exact h
  · rw [if_neg hsame]
    exact .inr (.inl (Nat.succ_pos _))

/-- Outside `channelInterestChanged` it does not matter where the handler is. -/
theorem Settled.of_phase (h : Settled c p) (hnotified : p ≠ .notified) (hresuming : p ≠ .resuming)
    (p' : Phase) : Settled c p' := by
  rcases h with h | h | h | h
  · exact .inl h
  · exact .inr (.inl h)
  · exact absurd h hnotified
  · exact absurd h hresuming

/-! ## The invariant -/

/-- A handler goes on in `writeObject`, or comes back from it. -/
theorem Inv.setPhase (h : Inv s) (hnotified : s.phase side ≠ .notified)
    (hresuming : s.phase side ≠ .resuming) (p : Phase) : Inv (s.setPhase side p) := by
  obtain ⟨hself, hother⟩ := (inv_iff side).mp h
  refine (inv_iff side).mpr ⟨?_, ?_⟩
  · simpa using hself
  · intro hread
    rw [Relay.channel_setPhase] at hread ⊢
    exact (hother hread).of_phase hnotified hresuming _

theorem Inv.setWritable (h : Inv s) (side : Side) (isWritable : Bool) :
    Inv (s.setChannel side (Channel.setWritable isWritable)) := by
  obtain ⟨hself, hother⟩ := (inv_iff side).mp h
  refine (inv_iff side).mpr ⟨?_, ?_⟩
  · simpa using hself
  · intro hread
    rw [Relay.channel_setChannel_other] at hread
    rw [Relay.channel_setChannel_self, Relay.phase_setChannel]
    exact (hother hread).setWritable isWritable

theorem inv_writeObject (h : Inv s) (isWritable : Bool)
    (hpause : s.phase side = .pausing → Settled (s.channel side.other) (s.phase side.other)) :
    Inv (writeObject side isWritable s) := by
  unfold writeObject
  cases hp : s.phase side with
  | idle | notified | resuming => exact h
  | writing =>
    have hwritten := h.setWritable side.other isWritable
    exact hwritten.setPhase (by simp [hp]) (by simp [hp]) _
  | checking =>
    have hphase (p : Phase) : Inv (s.setPhase side p) := h.setPhase (by simp [hp]) (by simp [hp]) p
    dsimp only
    split
    · exact hphase _
    · exact hphase _
  | pausing =>
    obtain ⟨-, hother⟩ := (inv_iff side).mp h
    refine (inv_iff side).mpr ⟨fun _ => ?_, fun hread => ?_⟩
    · simpa using hpause hp
    · simp only [Relay.channel_setPhase, Relay.channel_setChannel_other] at hread
      have hsettled := (hother hread).of_phase (by simp [hp]) (by simp [hp]) .idle
      simpa [Settled] using hsettled

theorem inv_channelInterestChanged (h : Inv s) : Inv (channelInterestChanged side s) := by
  obtain ⟨hself, hother⟩ := (inv_iff side).mp h
  unfold channelInterestChanged
  cases hp : s.phase side with
  | idle | writing | checking | pausing => exact h
  | notified =>
    dsimp only
    by_cases hwritable : (s.channel side).writable = true
    · rw [if_pos hwritable]
      refine (inv_iff side).mpr ⟨by simpa using hself, fun _ => ?_⟩
      exact .inr (.inr (.inr (Relay.phase_setPhase_self _ _ _)))
    · rw [if_neg hwritable]
      refine (inv_iff side).mpr ⟨by simpa using hself, fun _ => .inl ?_⟩
      simpa using hwritable
  | resuming =>
    -- the other channel is read again, so nothing is asked of this one any more
    refine (inv_iff side).mpr ⟨fun hread => ?_, fun hread => ?_⟩
    · simp only [Relay.channel_setPhase, Relay.channel_setChannel_of_other] at hread
      simpa [Settled] using hself hread
    · simp at hread

theorem inv_go (h : Inv s) (isWritable : Bool)
    (hpause : s.phase side = .pausing → Settled (s.channel side.other) (s.phase side.other)) :
    Inv (go isWritable s side) := by
  cases side with
  | inbound =>
    unfold go
    cases s.phase .inbound <;>
      first
      | exact inv_channelInterestChanged h
      | exact inv_writeObject h isWritable hpause
  | outbound =>
    unfold go
    cases s.phase .outbound <;>
      first
      | exact inv_channelInterestChanged h
      | exact inv_writeObject h isWritable hpause

theorem inv_step (e : Event) (s : Relay) (h : Inv s) (he : Timely e s) : Inv (step e s) := by
  cases e with
  | receive side =>
    unfold step
    dsimp only
    by_cases hidle : s.phase side = .idle
    · rw [if_pos hidle]
      exact h.setPhase (by simp [hidle]) (by simp [hidle]) _
    · rw [if_neg hidle]
      exact h
  | notice side =>
    unfold step
    dsimp only
    split
    · obtain ⟨hself, -⟩ := (inv_iff side).mp h
      refine (inv_iff side).mpr ⟨by simpa using hself, fun _ => ?_⟩
      exact .inr (.inr (.inl (Relay.phase_setPhase_self _ _ _)))
    · exact h
  | go side isWritable => exact inv_go h isWritable he
  | flush side isWritable => exact h.setWritable side isWritable

end Lemmas

/-- In a quiet state there is nothing to come. -/
theorem Inv.notStranded {s : Relay} (h : Inv s) (hquiet : Quiet s) : NotStranded s := by
  intro side hread
  obtain ⟨hidle, hnone⟩ := hquiet side.other
  rcases h side hread with hwritable | hsome | hnotified | hresuming
  · exact hwritable
  · rw [hnone] at hsome
    exact absurd hsome (Nat.lt_irrefl 0)
  · rw [hidle] at hnotified
    cases hnotified
  · rw [hidle] at hresuming
    cases hresuming

/-- **No connection is stranded** in a run in which every stop is timely. -/
theorem not_stranded {s : Relay} (hopen : ∀ side, (s.channel side).readable = true)
    {es : List Event} (hes : Meets step Timely es s) :
    Always step (fun s => Quiet s → NotStranded s) es s := by
  refine always_of_invariant (I := Inv) (fun s h => h.notStranded) inv_step ?_ hes
  intro side hread
  rw [hopen side] at hread
  cases hread

/-- A connection whose channels were just connected. -/
def opened : Relay := ⟨fun _ => ⟨true, true, 0⟩, fun _ => .idle⟩

/-- A request saturates the outbound channel, and the client is not read until it is flushed. -/
def pauseThenFlush : List Event :=
  [.receive .inbound, .go .inbound false, .go .inbound false, .go .inbound false,
    .notice .outbound, .go .outbound false, .flush .outbound true, .notice .outbound,
    .go .outbound true, .go .outbound true]

theorem not_stranded_pauseThenFlush :
    Always step (fun s => Quiet s → NotStranded s) pauseThenFlush opened :=
  not_stranded (fun _ => rfl) ⟨trivial, by decide, by decide, by decide, trivial, by decide,
    trivial, trivial, by decide, by decide, trivial⟩

/-- The outbound channel is flushed, and its notices are used up, before the client is not read. -/
def flushInPause : List Event :=
  [.receive .inbound, .go .inbound false, .go .inbound false, .flush .outbound true,
    .notice .outbound, .go .outbound true, .go .outbound true, .notice .outbound,
    .go .outbound true, .go .outbound true, .go .inbound true]

theorem stranded_flushInPause :
    ¬ Always step (fun s => Quiet s → NotStranded s) flushInPause opened := by
  intro h
  have hquiet : Quiet (run step flushInPause opened) := by
    rintro (_ | _)
    · exact ⟨rfl, rfl⟩
    · exact ⟨rfl, rfl⟩
  have hwritable := always_iff.mp h flushInPause [] (List.append_nil _).symm hquiet .inbound rfl
  exact absurd hwritable (by decide)

end Terminator.Server.BackPressure
