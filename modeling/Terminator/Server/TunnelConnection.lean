import Mathlib.Logic.Function.Basic
import Terminator.Java.Text
import Terminator.Run.Invariant
import Terminator.Server.BackPressure

/-!
# The life of a tunnelled connection

`BaseRecordServerHandler.channelOpen`, `RelayImpl.start` and its listener, the handlers of
`BaseServerHandler` and `BaseRelayHandler`, `ChannelUtil.closeOnFlush` and
`ServerContext.closeOtherChannels`, as `TunnelServerHandler` puts them together: what the client
sends goes to the remote server byte for byte, and back.

A channel is what netty makes of a socket. Its peer sends into `incoming`, from where the channel
reads while it is `readable`; a write goes to the end of `outgoing`, from where the channel delivers
to its peer. `closeOnFlush` queues an empty write whose completion closes the channel. A close drops
what is queued and is a notice (`channelClosed`) to the handler. netty calls a handler's methods one
at a time; everything else happens in any order, and any run of `Event`s is one of a connection.

**`always_safe`**: in every run, nothing of the client is read before the connection to the remote
server stands, and what either peer has received is the beginning of what the other has sent.
-/

namespace Terminator.Server.TunnelConnection

open Terminator.Java Terminator.Run
open Terminator.Server.BackPressure (Side)

inductive Status where
  | connecting
  | connected
  | closed
  deriving DecidableEq

/-- Why a channel was closed. -/
inductive Cause where
  /-- Its peer ended the stream. -/
  | ended
  /-- The flush of `closeOnFlush`. -/
  | flushed
  /-- Anything else: a failed connect, an I/O error, the stop of the link. -/
  | broken
  deriving DecidableEq

/-- A queued write: of data, or the empty one of `closeOnFlush`. -/
inductive Write where
  | data (bytes : List Byte)
  | close
  deriving DecidableEq

/-- A channel. What its peer has sent and why it was closed is for the record only. -/
structure Channel where
  status : Status
  readable : Bool
  incoming : List Byte
  /-- Its peer sends no more. -/
  ended : Bool
  outgoing : List Write
  delivered : List Byte
  /-- `channelClosed` is still to be called. -/
  notice : Bool
  sent : List Byte
  cause : Option Cause

namespace Channel

/-- `close()`. -/
def close (why : Cause) (c : Channel) : Channel :=
  if c.status = .closed then c
  else { c with status := .closed, outgoing := [], notice := true, cause := some why }

/-- `write(bytes)`; on a channel that is not connected it fails. -/
def write (bytes : List Byte) (c : Channel) : Channel :=
  if c.status = .connected then { c with outgoing := c.outgoing ++ [.data bytes] } else c

/-- `ChannelUtil.closeOnFlush(ch)`. -/
def closeOnFlush (c : Channel) : Channel :=
  if c.status = .connected then { c with outgoing := c.outgoing ++ [.close] } else c

/-- `setReadable(readable)`. -/
def setReadable (readable : Bool) (c : Channel) : Channel := { c with readable := readable }

/-- The channel delivers up to `n` bytes of its first write, or completes an empty one. -/
def flush (n : Nat) (c : Channel) : Channel :=
  if c.status = .connected then
    match c.outgoing with
    | [] => c
    | .data bytes :: ws =>
      { c with
        delivered := c.delivered ++ bytes.take n
        outgoing := if bytes.length ≤ n then ws else .data (bytes.drop n) :: ws }
    | .close :: _ => c.close .flushed
  else c

end Channel

/-- A connection of a client, and `relayChannelFuture` with its listener. -/
structure Connection where
  channel : Side → Channel
  /-- `isSuccess()`, once the future is done. -/
  future : Option Bool
  /-- `operationComplete` is still to be called. -/
  listening : Bool

/-- An operation on a channel of the connection. -/
def Connection.setChannel (side : Side) (f : Channel → Channel) (s : Connection) : Connection :=
  { s with channel := Function.update s.channel side (f (s.channel side)) }

/-- The connection after `channelOpen`: the client's channel is not read, the remote one is being
connected. -/
def channelOpen : Connection where
  channel
    | .inbound => ⟨.connected, false, [], false, [], [], false, [], none⟩
    | .outbound => ⟨.connecting, true, [], false, [], [], false, [], none⟩
  future := none
  listening := true

/-! ## The handlers -/

/-- `messageReceived` with `writeObject`; the write leaves the other channel writable or not. -/
def messageReceived (side : Side) (bytes : List Byte) (isWritable : Bool) (s : Connection) :
    Connection :=
  let s := s.setChannel side.other (Channel.write bytes)
  if !isWritable then s.setChannel side (Channel.setReadable false) else s

/-- `channelInterestChanged`. -/
def channelInterestChanged (side : Side) (isWritable : Bool) (s : Connection) : Connection :=
  if isWritable then s.setChannel side.other (Channel.setReadable true) else s

/-- `channelClosed`. -/
def channelClosed (side : Side) (s : Connection) : Connection :=
  s.setChannel side.other Channel.closeOnFlush

/-- `exceptionCaught`. -/
def exceptionCaught (side : Side) (s : Connection) : Connection :=
  s.setChannel side Channel.closeOnFlush

/-- `operationComplete(future)`. -/
def operationComplete (isSuccess : Bool) (s : Connection) : Connection :=
  if isSuccess then s.setChannel .inbound (Channel.setReadable true)
  else s.setChannel .inbound (Channel.close .broken)

/-- `ServerContext.closeOtherChannels()`, as far as it is about this connection. -/
def closeOtherChannels (s : Connection) : Connection :=
  let s : Connection := { s with
    future := if (s.channel .outbound).status = .connecting then some false else s.future }
  (s.setChannel .inbound (Channel.close .broken)).setChannel .outbound (Channel.close .broken)

/-! ## Runs -/

inductive Event where
  /-- The connect to the remote server succeeds or fails. -/
  | connect (isSuccess : Bool)
  /-- The listener of the connect is called. -/
  | operationComplete
  /-- A peer sends. -/
  | send (side : Side) (bytes : List Byte)
  /-- A peer ends its stream. -/
  | finish (side : Side)
  /-- A channel reads up to `n` bytes. -/
  | read (side : Side) (n : Nat) (isWritable : Bool)
  /-- A channel reads the end of the stream. -/
  | readEnd (side : Side)
  /-- A channel flushes. -/
  | flush (side : Side) (n : Nat)
  /-- A channel breaks. -/
  | reset (side : Side)
  | channelClosed (side : Side)
  | exceptionCaught (side : Side)
  | channelInterestChanged (side : Side) (isWritable : Bool)
  /-- The link is stopped, or its work mode is changed. -/
  | closeOtherChannels
  deriving DecidableEq

/-- One event; what cannot happen in a state leaves it as it is. -/
def step : Event → Connection → Connection
  | .connect isSuccess, s =>
    if (s.channel .outbound).status = .connecting then
      let s := { s with future := some isSuccess }
      if isSuccess then s.setChannel .outbound fun c => { c with status := .connected }
      else s.setChannel .outbound (Channel.close .broken)
    else s
  | .operationComplete, s =>
    match s.future with
    | some isSuccess =>
      if s.listening then operationComplete isSuccess { s with listening := false } else s
    | none => s
  | .send side bytes, s =>
    if (s.channel side).status ≠ .connecting ∧ (s.channel side).ended = false then
      s.setChannel side fun c =>
        { c with incoming := c.incoming ++ bytes, sent := c.sent ++ bytes }
    else s
  | .finish side, s =>
    if (s.channel side).status ≠ .connecting then
      s.setChannel side fun c => { c with ended := true }
    else s
  | .read side n isWritable, s =>
    if (s.channel side).status = .connected ∧ (s.channel side).readable ∧
        (s.channel side).incoming.take n ≠ [] then
      messageReceived side ((s.channel side).incoming.take n) isWritable
        (s.setChannel side fun c => { c with incoming := c.incoming.drop n })
    else s
  | .readEnd side, s =>
    if (s.channel side).status = .connected ∧ (s.channel side).readable ∧
        (s.channel side).incoming = [] ∧ (s.channel side).ended then
      s.setChannel side (Channel.close .ended)
    else s
  | .flush side n, s => s.setChannel side (Channel.flush n)
  | .reset side, s =>
    if (s.channel side).status ≠ .connecting then s.setChannel side (Channel.close .broken) else s
  | .channelClosed side, s =>
    if (s.channel side).notice then
      channelClosed side (s.setChannel side fun c => { c with notice := false })
    else s
  | .exceptionCaught side, s => exceptionCaught side s
  | .channelInterestChanged side isWritable, s =>
    if (s.channel side).status = .connected then channelInterestChanged side isWritable s else s
  | .closeOtherChannels, s => closeOtherChannels s

/-! ## What should hold -/

/-- The data of queued writes. -/
def queued (ws : List Write) : List Byte :=
  ws.flatMap fun
    | .data bytes => bytes
    | .close => []

/-- Nothing of the client is read before the connect has succeeded, and each peer has received the
beginning of what the other has sent. -/
def Safe (s : Connection) : Prop :=
  ((s.channel .outbound).status = .connecting →
    (s.channel .inbound).incoming = (s.channel .inbound).sent ∧
      (s.channel .outbound).outgoing = []) ∧
  ∀ side : Side, (s.channel side.other).delivered <+: (s.channel side).sent

/-! ## Lemmas -/

section Lemmas

variable {s : Connection} {c : Channel} {side x : Side} {f : Channel → Channel} {why : Cause}

theorem Connection.channel_setChannel :
    (s.setChannel x f).channel side = if side = x then f (s.channel x) else s.channel side := by
  simp [setChannel, Function.update_apply]

@[simp] theorem Connection.channel_setChannel_self :
    (s.setChannel side f).channel side = f (s.channel side) := Function.update_self ..

@[simp] theorem Connection.channel_setChannel_other :
    (s.setChannel side f).channel side.other = s.channel side.other :=
  Function.update_of_ne (Side.other_ne side) ..

@[simp] theorem Connection.channel_setChannel_of_other :
    (s.setChannel side.other f).channel side = s.channel side :=
  Function.update_of_ne (Side.other_ne side).symm ..

@[simp] theorem Connection.future_setChannel : (s.setChannel x f).future = s.future := rfl

/-- A write changes the queue only. -/
theorem Channel.write_eq (bytes : List Byte) (c : Channel) :
    c.write bytes = { c with outgoing := (c.write bytes).outgoing } := by
  unfold Channel.write
  split <;> rfl

@[simp] theorem queued_nil : queued [] = [] := rfl

@[simp] theorem queued_append (ws ws' : List Write) :
    queued (ws ++ ws') = queued ws ++ queued ws' := List.flatMap_append

@[simp] theorem queued_data (bytes : List Byte) (ws : List Write) :
    queued (.data bytes :: ws) = bytes ++ queued ws := rfl

@[simp] theorem queued_close (ws : List Write) : queued (.close :: ws) = queued ws := rfl

end Lemmas

/-! ## The invariant -/

/-- The invariant of every run. -/
structure Inv (s : Connection) : Prop where
  inbound : (s.channel .inbound).status ≠ .connecting
  /-- Before the connect is done the client's channel is not read. -/
  early : (s.channel .outbound).status = .connecting →
    (s.channel .inbound).readable = false ∧ s.future = none ∧
      (s.channel .inbound).incoming = (s.channel .inbound).sent ∧
      (s.channel .outbound).outgoing = [] ∧ (s.channel .outbound).delivered = []
  /-- What one peer has sent is delivered to the other, queued for it, or not read yet. -/
  stream : ∀ side : Side, (s.channel side.other).status ≠ .closed →
    (s.channel side).sent =
      (s.channel side.other).delivered ++ queued (s.channel side.other).outgoing ++
        (s.channel side).incoming
  delivered : ∀ side : Side, (s.channel side.other).delivered <+: (s.channel side).sent

theorem Inv.safe {s : Connection} (h : Inv s) : Safe s :=
  ⟨fun hc => ⟨(h.early hc).2.2.1, (h.early hc).2.2.2.1⟩, h.delivered⟩

theorem inv_channelOpen : Inv channelOpen := by
  refine ⟨by decide, by decide, fun side _ => ?_, fun side => ?_⟩
  · cases side <;> rfl
  · cases side <;> exact List.nil_prefix

/-- What a channel `c` may become on its own: it stays what it is or is closed, its peer may send
more, and it delivers from what is queued. -/
structure Evolves (c c' : Channel) : Prop where
  status : c'.status = c.status ∨ c'.status = .closed
  sent : ∃ bytes, c'.incoming = c.incoming ++ bytes ∧ c'.sent = c.sent ++ bytes
  stream : c'.status ≠ .closed →
    c'.delivered ++ queued c'.outgoing = c.delivered ++ queued c.outgoing
  delivered : c'.delivered = c.delivered ∨
    c.status ≠ .closed ∧ c'.delivered <+: c.delivered ++ queued c.outgoing
  connecting : c'.status = .connecting → c'.outgoing = c.outgoing ∧ c'.delivered = c.delivered

section Steps

variable {s : Connection} {c : Channel} {side x : Side} {f : Channel → Channel} {why : Cause}

theorem evolves_self (c : Channel) : Evolves c c :=
  ⟨.inl rfl, ⟨[], by simp, by simp⟩, fun _ => rfl, .inl rfl, fun _ => ⟨rfl, rfl⟩⟩

theorem evolves_close (why : Cause) (c : Channel) : Evolves c (c.close why) := by
  unfold Channel.close
  split
  · exact evolves_self c
  · exact ⟨.inr rfl, ⟨[], by simp, by simp⟩, fun h => absurd rfl h, .inl rfl, by simp⟩

theorem evolves_closeOnFlush (c : Channel) : Evolves c c.closeOnFlush := by
  unfold Channel.closeOnFlush
  split
  · next h => exact ⟨.inl rfl, ⟨[], by simp, by simp⟩, by simp, .inl rfl, by simp [h]⟩
  · exact evolves_self c

theorem evolves_setReadable (b : Bool) (c : Channel) : Evolves c (c.setReadable b) :=
  ⟨.inl rfl, ⟨[], by simp [Channel.setReadable], by simp [Channel.setReadable]⟩, fun _ => rfl,
    .inl rfl, fun _ => ⟨rfl, rfl⟩⟩

theorem evolves_flush (n : Nat) (c : Channel) : Evolves c (c.flush n) := by
  unfold Channel.flush
  by_cases h : c.status = .connected
  · rw [if_pos h]
    cases hout : c.outgoing with
    | nil => exact evolves_self c
    | cons w ws =>
      cases w with
      | close => exact evolves_close .flushed c
      | data bytes =>
        refine ⟨.inl rfl, ⟨[], by simp, by simp⟩, fun _ => ?_, .inr ⟨by simp [h], ?_⟩, ?_⟩
        · dsimp only
          split
          · next hle => simp [hout, List.take_of_length_le hle]
          · simp only [hout, queued_data, List.append_assoc]
            rw [← List.append_assoc (bytes.take n), List.take_append_drop]
        · rw [hout]
          simp only [queued_data, ← List.append_assoc]
          exact ((List.prefix_append_right_inj _).mpr (List.take_prefix n bytes)).trans
            (List.prefix_append ..)
        · simp [h]
  · rw [if_neg h]
    exact evolves_self c

/-- **One channel on its own** keeps the invariant, as long as the client's is not read early. -/
theorem Inv.setChannel (h : Inv s) (hf : Evolves (s.channel x) (f (s.channel x)))
    (hread : x = .inbound → (s.channel .outbound).status = .connecting →
      (f (s.channel x)).readable = false) : Inv (s.setChannel x f) := by
  obtain ⟨bytes, hin, hsent⟩ := hf.sent
  have hstream : ∀ side : Side, (s.channel side.other).status ≠ .closed →
      (s.channel side).sent = (s.channel side.other).delivered ++
        queued (s.channel side.other).outgoing ++ (s.channel side).incoming := h.stream
  refine ⟨?_, fun hc => ?_, fun side hside => ?_, fun side => ?_⟩
  · rw [Connection.channel_setChannel]
    split
    · next hx =>
      subst hx
      rcases hf.status with he | he
      · rw [he]; exact h.inbound
      · rw [he]; decide
    · exact h.inbound
  · cases x with
    | inbound =>
      have hout : (s.channel .outbound).status = .connecting := by
        simpa [Connection.channel_setChannel] using hc
      obtain ⟨-, hfut, heq, hrest⟩ := h.early hout
      simp only [Connection.channel_setChannel, if_true, reduceCtorEq, if_false]
      exact ⟨hread rfl hout, hfut, by rw [hin, hsent, heq], hrest⟩
    | outbound =>
      rw [Connection.channel_setChannel_self] at hc
      have hout : (s.channel .outbound).status = .connecting := by
        rcases hf.status with he | he
        · rw [← he]; exact hc
        · rw [he] at hc; exact absurd hc (by decide)
      obtain ⟨hr, hfut, heq, ho, hd⟩ := h.early hout
      obtain ⟨ho', hd'⟩ := hf.connecting hc
      simp only [Connection.channel_setChannel, if_true, reduceCtorEq, if_false]
      exact ⟨hr, hfut, heq, ho'.trans ho, hd'.trans hd⟩
  · rcases side.eq_or_eq_other x with rfl | rfl
    · rw [Connection.channel_setChannel_other] at hside ⊢
      rw [Connection.channel_setChannel_self, hin, hsent, h.stream x hside, List.append_assoc]
    · rw [Connection.channel_setChannel_self] at hside ⊢
      rw [Connection.channel_setChannel_of_other, hf.stream hside]
      refine h.stream side fun hc => hside ?_
      rcases hf.status with he | he
      · rw [he]; exact hc
      · exact he
  · rcases side.eq_or_eq_other x with rfl | rfl
    · rw [Connection.channel_setChannel_other, Connection.channel_setChannel_self, hsent]
      exact (h.delivered x).trans (List.prefix_append ..)
    · rw [Connection.channel_setChannel_self, Connection.channel_setChannel_of_other]
      rcases hf.delivered with he | ⟨hopen, hle⟩
      · rw [he]; exact h.delivered side
      · refine hle.trans ?_
        rw [h.stream side hopen]
        exact List.prefix_append ..

/-- The data a channel read, on its way to the other one. -/
theorem inv_read (h : Inv s) (hopen : (s.channel side).status = .connected)
    (hread : (s.channel side).readable = true) (n : Nat) :
    Inv ((s.setChannel side fun c => { c with incoming := c.incoming.drop n }).setChannel side.other
      (Channel.write ((s.channel side).incoming.take n))) := by
  have hconn : (s.channel .outbound).status ≠ .connecting := by
    intro hc
    cases side with
    | inbound => exact Bool.noConfusion ((h.early hc).1.symm.trans hread)
    | outbound => exact absurd (hopen.symm.trans hc) (by decide)
  have hstatus : (s.channel side.other).status ≠ .connecting := by
    cases side with
    | inbound => exact hconn
    | outbound => exact h.inbound
  generalize hs' : (s.setChannel side fun c => { c with incoming := c.incoming.drop n }).setChannel
    side.other (Channel.write ((s.channel side).incoming.take n)) = s'
  have hself : s'.channel side =
      { s.channel side with incoming := (s.channel side).incoming.drop n } := by
    rw [← hs', Connection.channel_setChannel_of_other, Connection.channel_setChannel_self]
  have hother : s'.channel side.other =
      (s.channel side.other).write ((s.channel side).incoming.take n) := by
    rw [← hs', Connection.channel_setChannel_self, Connection.channel_setChannel_other]
  have hkeep : ∀ x, (s'.channel x).status = (s.channel x).status ∧
      (s'.channel x).delivered = (s.channel x).delivered ∧
      (s'.channel x).sent = (s.channel x).sent := by
    intro x
    rcases side.eq_or_eq_other x with rfl | rfl
    · rw [hself]
      exact ⟨rfl, rfl, rfl⟩
    · rw [hother, Channel.write_eq]
      exact ⟨rfl, rfl, rfl⟩
  refine ⟨?_, fun hc => ?_, fun x hx => ?_, fun x => ?_⟩
  · rw [(hkeep .inbound).1]
    exact h.inbound
  · rw [(hkeep .outbound).1] at hc
    exact absurd hc hconn
  · rw [(hkeep x.other).1] at hx
    rw [(hkeep x).2.2, (hkeep x.other).2.1, h.stream x hx]
    rcases side.eq_or_eq_other x with rfl | rfl
    · have hcon : (s.channel x.other).status = .connected := by
        revert hstatus hx
        cases (s.channel x.other).status <;> simp
      rw [hother, hself, Channel.write, if_pos hcon]
      simp
    · rw [Side.other_other, hother, hself, Channel.write_eq]
  · rw [(hkeep x).2.2, (hkeep x.other).2.1]
    exact h.delivered x

theorem inv_future (h : Inv s) (hconn : (s.channel .outbound).status ≠ .connecting)
    (future : Option Bool) : Inv { s with future := future } :=
  ⟨h.inbound, fun hc => absurd hc hconn, h.stream, h.delivered⟩

theorem inv_listening (h : Inv s) (b : Bool) : Inv { s with listening := b } :=
  ⟨h.inbound, h.early, h.stream, h.delivered⟩

/-- The connect succeeds. -/
theorem inv_connect (h : Inv s) (hc : (s.channel .outbound).status = .connecting) :
    Inv ({ s with future := some true }.setChannel .outbound
      fun c => { c with status := .connected }) := by
  refine ⟨h.inbound, fun hc' => ?_, fun side hside => ?_, fun side => ?_⟩
  · rw [Connection.channel_setChannel_self] at hc'
    exact Status.noConfusion hc'
  · cases side with
    | inbound =>
      have := h.stream .inbound (by rw [Side.other, hc]; decide)
      simpa [Connection.channel_setChannel, Side.other] using this
    | outbound =>
      have := h.stream .outbound hside
      simpa [Connection.channel_setChannel, Side.other] using this
  · have := h.delivered side
    cases side <;> simpa [Connection.channel_setChannel, Side.other] using this

theorem status_close (why : Cause) (c : Channel) : (c.close why).status ≠ .connecting := by
  unfold Channel.close
  split
  · next h => rw [h]; decide
  · exact Status.noConfusion

/-- A close never makes the client's channel readable. -/
theorem readable_close (why : Cause) (c : Channel) : (c.close why).readable = c.readable := by
  unfold Channel.close
  split <;> rfl

theorem readable_closeOnFlush (c : Channel) : c.closeOnFlush.readable = c.readable := by
  unfold Channel.closeOnFlush
  split <;> rfl

theorem readable_flush (n : Nat) (c : Channel) : (c.flush n).readable = c.readable := by
  unfold Channel.flush
  split
  · cases c.outgoing with
    | nil => rfl
    | cons w ws =>
      cases w with
      | data bytes => rfl
      | close => exact readable_close _ c
  · rfl

theorem Inv.close (h : Inv s) (x : Side) (why : Cause) : Inv (s.setChannel x (Channel.close why)) :=
  h.setChannel (evolves_close why _) fun hx hc => by
    subst hx
    rw [readable_close]
    exact (h.early hc).1

theorem Inv.closeOnFlush (h : Inv s) (x : Side) : Inv (s.setChannel x Channel.closeOnFlush) :=
  h.setChannel (evolves_closeOnFlush _) fun hx hc => by
    subst hx
    rw [readable_closeOnFlush]
    exact (h.early hc).1

/-- **One event** keeps the invariant. -/
theorem inv_step (e : Event) (s : Connection) (h : Inv s) : Inv (step e s) := by
  cases e with
  | connect isSuccess =>
    rw [step]
    split
    · next hc =>
      cases isSuccess with
      | true => exact inv_connect h hc
      | false =>
        have hclosed := h.close .outbound .broken
        refine inv_future hclosed ?_ (some false)
        rw [Connection.channel_setChannel_self]
        exact status_close _ _
    · exact h
  | operationComplete =>
    rw [step]
    split
    · next isSuccess hfut =>
      have hconn : (s.channel .outbound).status ≠ .connecting := fun hc =>
        Option.some_ne_none _ (hfut.symm.trans (h.early hc).2.1)
      split
      · cases isSuccess with
        | true =>
          exact (inv_listening h false).setChannel (evolves_setReadable true _)
            fun _ hc => absurd hc hconn
        | false => exact (inv_listening h false).close .inbound .broken
      · exact h
    · exact h
  | send side bytes =>
    rw [step]
    split
    · refine h.setChannel ⟨.inl rfl, ⟨bytes, rfl, rfl⟩, fun _ => rfl, .inl rfl,
        fun _ => ⟨rfl, rfl⟩⟩ fun hx hc => ?_
      subst hx
      exact (h.early hc).1
    · exact h
  | finish side =>
    rw [step]
    split
    · refine h.setChannel ⟨.inl rfl, ⟨[], by simp, by simp⟩, fun _ => rfl, .inl rfl,
        fun _ => ⟨rfl, rfl⟩⟩ fun hx hc => ?_
      subst hx
      exact (h.early hc).1
    · exact h
  | read side n isWritable =>
    rw [step]
    split
    · next hcond =>
      have hread := inv_read h hcond.1 hcond.2.1 n
      rw [messageReceived]
      split
      · refine hread.setChannel (evolves_setReadable false _) fun _ _ => rfl
      · exact hread
    · exact h
  | readEnd side =>
    rw [step]
    split
    · exact h.close side .ended
    · exact h
  | flush side n =>
    refine h.setChannel (evolves_flush n _) fun hx hc => ?_
    subst hx
    rw [readable_flush]
    exact (h.early hc).1
  | reset side =>
    rw [step]
    split
    · exact h.close side .broken
    · exact h
  | channelClosed side =>
    rw [step]
    split
    · have htold : Inv (s.setChannel side fun c => { c with notice := false }) := by
        refine h.setChannel ⟨.inl rfl, ⟨[], by simp, by simp⟩, fun _ => rfl, .inl rfl,
          fun _ => ⟨rfl, rfl⟩⟩ fun hx hc => ?_
        subst hx
        exact (h.early hc).1
      exact htold.closeOnFlush side.other
    · exact h
  | exceptionCaught side => exact h.closeOnFlush side
  | channelInterestChanged side isWritable =>
    rw [step]
    split
    · next hconn =>
      rw [channelInterestChanged]
      split
      · refine h.setChannel (evolves_setReadable true _) fun hx hc => ?_
        -- the notice is of the remote channel, which is connected then
        cases side with
        | inbound => exact Side.noConfusion hx
        | outbound => exact Status.noConfusion (hconn.symm.trans hc)
      · exact h
    · exact h
  | closeOtherChannels =>
    have hclosed := (h.close .inbound .broken).close .outbound .broken
    refine inv_future hclosed ?_ _
    rw [Connection.channel_setChannel_self]
    exact status_close _ _

end Steps

/-- **Safety**: nothing is read early, and both streams arrive as they were sent. -/
theorem always_safe (es : List Event) : Always step Safe es channelOpen :=
  always_of_invariant (fun _ h => Inv.safe h) (fun e s h _ => inv_step e s h) inv_channelOpen
    (meets_of_forall fun _ _ _ => trivial : Meets step (fun _ _ => True) es channelOpen)

end Terminator.Server.TunnelConnection
