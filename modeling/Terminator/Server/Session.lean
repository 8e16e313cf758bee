import Terminator.Storage.Storage

/-!
# Connections and their handlers

What `BaseServerHandler.java`, `BaseRelayHandler.java` and `HttpRelayHandler.java` do, in any work
mode. A connection has an inbound channel (the client) and an outbound one (the remote server);
`HttpServerHandler` is the part a work mode adds, and a `Session` is one connection together with
the world it shares with the others.

The environment decides which message arrives when, and what `isWritable()` answers after a write
(`Event`). A message arrives as a new object (`HttpObject.deliver`) and the handler of its channel
runs to its end: handlers of one channel are called one at a time, and `trafficLock` covers the
writes. An exception goes to `exceptionCaught`, which asks for the channel to be closed; what
arrived before the close is still delivered, so a run goes on.

A write is modelled at the moment of the call: `written` lists what the encoder is given, in
order. Backpressure (`setReadable`) decides which messages arrive, so it is not read here.
-/

namespace Terminator.Server

open Terminator.Java Terminator.Netty Terminator.Storage

/-- `Channel`, as far as the handlers use it. -/
structure Channel where
  written : List (HttpObject (List Byte))
  readable : Bool
  closeOnFlush : Bool
  deriving DecidableEq

/-- A connection: the fields of `BaseServerHandler`, `HttpRecordServerHandler` and
`HttpRelayHandler`, and the two channels. -/
structure Connection where
  request : Option (HttpObject Ref)
  readingChunks : Bool
  relayReadingChunks : Bool
  inboundChannel : Channel
  outboundChannel : Channel

/-- A channel nothing was written to. -/
def Channel.opened : Channel := ⟨[], true, false⟩

/-- A connection whose two channels have been opened. -/
def Connection.opened : Connection := ⟨none, false, false, .opened, .opened⟩

/-- A connection and the world it works in. -/
structure Session (σ : Type) where
  world : World σ
  conn : Connection

variable {σ : Type}

namespace Session

/-- What the encoder sends of a message, as it is now. -/
def wire (s : Session σ) (m : HttpObject Ref) : HttpObject (List Byte) :=
  (m.deref s.world.heap).wire

/-- The session once the codec has delivered a message. -/
def arrived (m : HttpObject ChannelBuffer) (s : Session σ) : Session σ :=
  { s with world := { s.world with heap := (m.deliver s.world.heap).2 } }

theorem wire_arrived (m : HttpObject ChannelBuffer) (s : Session σ) :
    (s.arrived m).wire (m.deliver s.world.heap).1 = m.wire :=
  congrArg HttpObject.wire (HttpObject.deref_deliver m s.world.heap)

/-! The assignments of the handlers. They are records, so their fields reduce by `simp`. -/

@[simp] def setRequest (m : HttpObject Ref) (s : Session σ) : Session σ :=
  { s with conn := { s.conn with request := some m } }

@[simp] def setReadingChunks (b : Bool) (s : Session σ) : Session σ :=
  { s with conn := { s.conn with readingChunks := b } }

@[simp] def setRelayReadingChunks (b : Bool) (s : Session σ) : Session σ :=
  { s with conn := { s.conn with relayReadingChunks := b } }

/-- `inboundChannel.write(m)`. -/
@[simp] def writeInbound (m : HttpObject (List Byte)) (s : Session σ) : Session σ :=
  { s with conn := { s.conn with inboundChannel := { s.conn.inboundChannel with
      written := s.conn.inboundChannel.written ++ [m] } } }

/-- `outboundChannel.write(m)`. -/
@[simp] def writeOutbound (m : HttpObject (List Byte)) (s : Session σ) : Session σ :=
  { s with conn := { s.conn with outboundChannel := { s.conn.outboundChannel with
      written := s.conn.outboundChannel.written ++ [m] } } }

/-- `if (!isWritable) inboundChannel.setReadable(false)`. -/
@[simp] def throttleInbound (isWritable : Bool) (s : Session σ) : Session σ :=
  { s with conn := { s.conn with inboundChannel := { s.conn.inboundChannel with
      readable := s.conn.inboundChannel.readable && isWritable } } }

/-- `if (!isWritable) outboundChannel.setReadable(false)`. -/
@[simp] def throttleOutbound (isWritable : Bool) (s : Session σ) : Session σ :=
  { s with conn := { s.conn with outboundChannel := { s.conn.outboundChannel with
      readable := s.conn.outboundChannel.readable && isWritable } } }

/-- `ChannelUtil.closeOnFlush(inboundChannel)`. -/
@[simp] def closeInbound (s : Session σ) : Session σ :=
  { s with conn := { s.conn with inboundChannel := { s.conn.inboundChannel with
      closeOnFlush := true } } }

/-- `ChannelUtil.closeOnFlush(outboundChannel)`. -/
@[simp] def closeOutbound (s : Session σ) : Session σ :=
  { s with conn := { s.conn with outboundChannel := { s.conn.outboundChannel with
      closeOnFlush := true } } }

/-- What was written to the client so far. -/
abbrev toClient (s : Session σ) : List (HttpObject (List Byte)) := s.conn.inboundChannel.written

/-- What was written to the remote server so far. -/
abbrev toRemote (s : Session σ) : List (HttpObject (List Byte)) := s.conn.outboundChannel.written

end Session

/-- A method of the storage or of a plugin. -/
def inWorld {α : Type} (x : Method (World σ) α) : Method (Session σ) α :=
  zoom Session.world (fun w s => { s with world := w }) x

/-! ## `BaseServerHandler`, `BaseRelayHandler`, `HttpRelayHandler` -/

/-- `BaseServerHandler.writeObject`. -/
def BaseServerHandler.writeObject (isWritable : Bool) (data : HttpObject Ref) :
    Method (Session σ) Unit := do
  modify fun s => s.writeOutbound (s.wire data)
  modify (Session.throttleInbound isWritable)

/-- `BaseRelayHandler.writeObject`. -/
def BaseRelayHandler.writeObject (onRelayResponse : HttpObject Ref → Method (Session σ) Unit)
    (isWritable : Bool) (response : HttpObject Ref) : Method (Session σ) Unit := do
  onRelayResponse response
  modify fun s => s.writeInbound (s.wire response)
  modify (Session.throttleOutbound isWritable)

/-- `HttpRelayHandler.messageReceived`. -/
def HttpRelayHandler.messageReceived (onRelayResponse : HttpObject Ref → Method (Session σ) Unit)
    (isWritable : Bool) (message : HttpObject Ref) : Method (Session σ) Unit := do
  if !(← get).conn.relayReadingChunks then
    let response ← fromExcept message.asResponse
    if response.chunked then modify (Session.setRelayReadingChunks true)
    else BaseRelayHandler.writeObject onRelayResponse isWritable message
  else
    let chunk ← fromExcept message.asChunk
    if chunk.last then
      modify (Session.setRelayReadingChunks false)
      BaseRelayHandler.writeObject onRelayResponse isWritable message
    else pure ()

/-! ## Events -/

/-- A message arrives on a channel; `isWritable` is the answer of the other channel after the
message has been passed on. -/
inductive Event where
  | client (m : HttpObject ChannelBuffer) (isWritable : Bool)
  | remote (m : HttpObject ChannelBuffer) (isWritable : Bool)

/-- What the aggregator of the relay pipeline lets through: whole responses. -/
def Event.FromAggregator : Event → Prop
  | .client _ _ => True
  | .remote (.response r) _ => r.chunked = false
  | .remote _ _ => False

instance : DecidablePred Event.FromAggregator
  | .client _ _ => isTrue trivial
  | .remote (.response r) _ => inferInstanceAs (Decidable (r.chunked = false))
  | .remote (.request _) _ => isFalse id
  | .remote (.chunk _) _ => isFalse id

/-- The messages a client sends in a sequence of events. -/
def clientMessages : List Event → List (HttpObject ChannelBuffer)
  | [] => []
  | .client m _ :: es => m :: clientMessages es
  | .remote _ _ :: es => clientMessages es

/-- The messages of a client, without anything in between. -/
def fromClient (ms : List (HttpObject ChannelBuffer)) : List Event :=
  ms.map fun m => .client m true

/-- The handler of a work mode. -/
structure HttpServerHandler (σ : Type) where
  messageReceived : Bool → HttpObject Ref → Method (Session σ) Unit
  onRelayResponse : HttpObject Ref → Method (Session σ) Unit

namespace HttpServerHandler

/-- A message arrives and its handler runs. -/
def receive (handler : HttpObject Ref → Method (Session σ) Unit) (m : HttpObject ChannelBuffer)
    (s : Session σ) : EStateM.Result Throwable (Session σ) Unit :=
  (handler (m.deliver s.world.heap).1).run (s.arrived m)

/-- `exceptionCaught`: what is left when a handler threw. -/
def exceptionCaught (close : Session σ → Session σ) :
    EStateM.Result Throwable (Session σ) Unit → Session σ
  | .ok _ s => s
  | .error _ s => close s

variable (handler : HttpServerHandler σ)

/-- What the handlers of a connection do at an event. -/
def outcome : Event → Session σ → EStateM.Result Throwable (Session σ) Unit
  | .client m isWritable, s => receive (handler.messageReceived isWritable) m s
  | .remote m isWritable, s =>
    receive (HttpRelayHandler.messageReceived handler.onRelayResponse isWritable) m s

/-- The session after an event. -/
def step (e : Event) (s : Session σ) : Session σ :=
  match e with
  | .client _ _ => exceptionCaught Session.closeInbound (handler.outcome e s)
  | .remote _ _ => exceptionCaught Session.closeOutbound (handler.outcome e s)

/-- The session after a sequence of events. -/
def run : List Event → Session σ → Session σ
  | [], s => s
  | e :: es, s => run es (handler.step e s)

end HttpServerHandler

/-! ## Specifications -/

section Specs

variable {s : Session σ} {m : HttpObject Ref} {isWritable : Bool}

theorem run_inWorld_of_ok {α : Type} {x : Method (World σ) α} {a : α} {w : World σ}
    (h : x.run s.world = .ok a w) : (inWorld x).run s = .ok a { s with world := w } :=
  run_zoom_of_ok h

/-- A method of the world leaves the connection alone. -/
theorem keeps_inWorld {α : Type} (x : Method (World σ) α) : Keeps Session.conn (inWorld x) :=
  keeps_zoom x fun _ _ => rfl

variable {onRelayResponse : HttpObject Ref → Method (Session σ) Unit}

/-- A response whose recording returned is written, as it is then. -/
theorem relayWriteObject_run_of_ok {s' : Session σ} (h : (onRelayResponse m).run s = .ok () s') :
    (BaseRelayHandler.writeObject onRelayResponse isWritable m).run s
      = .ok () ((s'.writeInbound (s'.wire m)).throttleOutbound isWritable) := by
  rw [BaseRelayHandler.writeObject, run_bind_of_ok h]
  rfl

/-- A response whose recording threw is not written. -/
theorem relayWriteObject_run_of_error {s' : Session σ} {e : Throwable}
    (h : (onRelayResponse m).run s = .error e s') :
    (BaseRelayHandler.writeObject onRelayResponse isWritable m).run s = .error e s' := by
  rw [BaseRelayHandler.writeObject, run_bind_of_error h]

/-- An unchunked response goes straight to `writeObject`. -/
theorem relayMessageReceived_run (onRelayResponse : HttpObject Ref → Method (Session σ) Unit)
    (isWritable : Bool) {r : HttpResponse Ref} (hs : s.conn.relayReadingChunks = false)
    (hr : r.chunked = false) :
    (HttpRelayHandler.messageReceived onRelayResponse isWritable (.response r)).run s
      = (BaseRelayHandler.writeObject onRelayResponse isWritable (.response r)).run s := by
  rw [HttpRelayHandler.messageReceived, run_bind_of_ok (EStateM.run_get s), hs]
  simp only [Bool.not_false, if_true, HttpObject.asResponse]
  rw [run_bind_of_ok (run_fromExcept_ok r s), hr]
  simp only [Bool.false_eq_true, if_false]

/-- The relay handler changes nothing that neither its own assignments nor `onRelayResponse`
change. -/
theorem keeps_relayMessageReceived {τ : Type} {p : Session σ → τ}
    (hset : ∀ b s, p (Session.setRelayReadingChunks b s) = p s)
    (hwrite : ∀ m s, p (Session.writeInbound m s) = p s)
    (hthrottle : ∀ b s, p (Session.throttleOutbound b s) = p s)
    (hon : ∀ m, Keeps p (onRelayResponse m)) (isWritable : Bool) (m : HttpObject Ref) :
    Keeps p (HttpRelayHandler.messageReceived onRelayResponse isWritable m) := by
  have hwriteObject : Keeps p (BaseRelayHandler.writeObject onRelayResponse isWritable m) :=
    keeps_bind (hon m) fun _ =>
      keeps_bind (keeps_modify fun s => hwrite _ s) fun _ => keeps_modify (hthrottle isWritable)
  refine keeps_bind (keeps_get p) fun s => keeps_ite ?_ ?_
  · refine keeps_bind (keeps_fromExcept p _) fun response => keeps_ite ?_ hwriteObject
    exact keeps_modify (hset true)
  · refine keeps_bind (keeps_fromExcept p _) fun chunk => keeps_ite ?_ (keeps_pure p _)
    exact keeps_bind (keeps_modify (hset false)) fun _ => hwriteObject

/-- `exceptionCaught` changes nothing `close` does not change. -/
theorem exceptionCaught_keeps {τ : Type} {p : Session σ → τ} (close : Session σ → Session σ)
    (hclose : ∀ s, p (close s) = p s) (r : EStateM.Result Throwable (Session σ) Unit) :
    p (HttpServerHandler.exceptionCaught close r) = p (after r) := by
  cases r with
  | ok a s => rfl
  | error e s => exact hclose s

/-- A message from the remote server does not change what was sent there, nor the state the
handler of the client's messages keeps. -/
theorem HttpServerHandler.step_remote_keeps (handler : HttpServerHandler σ)
    (hon : ∀ m, Keeps Session.conn (handler.onRelayResponse m)) (m : HttpObject ChannelBuffer)
    (isWritable : Bool) (s : Session σ) :
    (handler.step (.remote m isWritable) s).toRemote = s.toRemote ∧
      (handler.step (.remote m isWritable) s).conn.readingChunks = s.conn.readingChunks ∧
      (handler.step (.remote m isWritable) s).conn.request = s.conn.request := by
  let p : Session σ → List (HttpObject (List Byte)) × Bool × Option (HttpObject Ref) :=
    fun s => (s.toRemote, s.conn.readingChunks, s.conn.request)
  have hon' : ∀ m, Keeps p (handler.onRelayResponse m) := by
    intro m s
    simp only [p, Session.toRemote, hon m s]
  have hkeep := keeps_relayMessageReceived (fun _ _ => rfl) (fun _ _ => rfl) (fun _ _ => rfl) hon'
    isWritable (m.deliver s.world.heap).1 (s.arrived m)
  have hstep : p (handler.step (.remote m isWritable) s) = p s :=
    (exceptionCaught_keeps Session.closeOutbound (fun _ => rfl) _).trans hkeep
  obtain ⟨h1, h2⟩ := Prod.mk.inj hstep
  obtain ⟨h2, h3⟩ := Prod.mk.inj h2
  exact ⟨h1, h2, h3⟩

end Specs

end Terminator.Server
