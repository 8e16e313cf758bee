import Terminator.Plugin.Signer
import Terminator.Server.Session

/-!
# REPLAY mode

`BaseReplayServerHandler.java` and `HttpReplayServerHandler.java`: a request is answered with the
response stored under its signature, or with a default one. There is no outbound channel. The
handler is generic in the type of its requests, so nothing casts a message before the signer does.
-/

namespace Terminator.Server

open Terminator.Java Terminator.Netty Terminator.Storage Terminator.Plugin

variable {σ : Type}

/-- The response of `bundle`, or the default one. -/
def BaseReplayServerHandler.respond (responseWhenNotHit : HttpObject (List Byte))
    (bundle : RequestResponseBundle Ref) : Method (World σ) (HttpObject (List Byte)) := do
  let h := (← get).heap
  pure (match bundle.response with
    | none => responseWhenNotHit
    | some response => (response.deref h).wire)

/-- `BaseReplayServerHandler.messageReceived` up to the write: what it writes. -/
def BaseReplayServerHandler.replay (signer : Signer σ) (storage : RecordStorage σ)
    (responseWhenNotHit : HttpObject (List Byte)) (request : HttpObject Ref) :
    Method (World σ) (HttpObject (List Byte)) := do
  let key ← signer.sign (some request)
  let bundle ← storage.getRecordData key
  signer.logResponse bundle
  BaseReplayServerHandler.respond responseWhenNotHit bundle

/-- `BaseReplayServerHandler.messageReceived`. -/
def BaseReplayServerHandler.messageReceived (signer : Signer σ) (storage : RecordStorage σ)
    (responseWhenNotHit : HttpObject (List Byte)) (message : HttpObject Ref) :
    Method (Session σ) Unit := do
  modify (Session.setRequest message)
  let response ← inWorld
    (BaseReplayServerHandler.replay signer storage responseWhenNotHit message)
  modify (Session.writeInbound response)

namespace HttpReplayServerHandler

def DEFAULT_HTTP_BODY : JString :=
  lit "You see this message because the response to this request is not recorded!"

/-- `responseWhenNotHit()`. -/
def responseWhenNotHit : HttpObject (List Byte) :=
  .response ⟨.HTTP_1_1, NOT_IMPLEMENTED,
    [(lit "Content-Type", lit "text/html; charset=utf-8"), (lit "Content-Length", decimal 74)],
    false, utf8.encode DEFAULT_HTTP_BODY⟩

end HttpReplayServerHandler

/-- The handler of REPLAY mode. It has no relay pipeline, so nothing calls `onRelayResponse`. -/
def HttpReplayServerHandler (signer : Signer σ) (storage : RecordStorage σ) :
    HttpServerHandler σ where
  messageReceived _ := BaseReplayServerHandler.messageReceived signer storage
    HttpReplayServerHandler.responseWhenNotHit
  onRelayResponse _ := pure ()

namespace HttpReplayServerHandler

variable (signer : Signer σ) (storage : RecordStorage σ)

/-- What a message does to the world, and the response it is answered with. -/
def replaying (m : HttpObject ChannelBuffer) (s : Session σ) :
    EStateM.Result Throwable (World σ) (HttpObject (List Byte)) :=
  (BaseReplayServerHandler.replay signer storage responseWhenNotHit
    (m.deliver s.world.heap).1).run (s.arrived m).world

/-- **A message arrives**: it is answered with one response, or the handler throws and nothing is
written. -/
theorem step_client (m : HttpObject ChannelBuffer) (isWritable : Bool) (s : Session σ) :
    ∃ s', (HttpReplayServerHandler signer storage).step (.client m isWritable) s = s' ∧
      s'.world = after (replaying signer storage m s) ∧
      s'.toRemote = s.toRemote ∧
      ((∃ response w, replaying signer storage m s = .ok response w ∧
          Returned ((HttpReplayServerHandler signer storage).outcome (.client m isWritable) s) ∧
          s'.toClient = s.toClient ++ [response]) ∨
        ((∃ e w, replaying signer storage m s = .error e w) ∧
          ¬ Returned ((HttpReplayServerHandler signer storage).outcome (.client m isWritable) s) ∧
          s'.toClient = s.toClient)) := by
  let s0 := (s.arrived m).setRequest (m.deliver s.world.heap).1
  have hset : (HttpReplayServerHandler signer storage).outcome (.client m isWritable) s
      = (inWorld (BaseReplayServerHandler.replay signer storage responseWhenNotHit
          (m.deliver s.world.heap).1) >>= fun response =>
            modify (Session.writeInbound response)).run s0 := rfl
  cases hrep : replaying signer storage m s with
  | ok response w =>
    have hin : (inWorld (BaseReplayServerHandler.replay signer storage responseWhenNotHit
        (m.deliver s.world.heap).1)).run s0 = .ok response { s0 with world := w } :=
      run_inWorld_of_ok hrep
    have hrun : (HttpReplayServerHandler signer storage).outcome (.client m isWritable) s
        = .ok () (({ s0 with world := w } : Session σ).writeInbound response) :=
      hset.trans (run_bind_of_ok hin)
    refine ⟨_, congrArg (HttpServerHandler.exceptionCaught Session.closeInbound) hrun, rfl, rfl,
      .inl ⟨response, w, rfl, ?_, rfl⟩⟩
    rw [hrun]
    exact returned_ok _ _
  | error e w =>
    have hin : (inWorld (BaseReplayServerHandler.replay signer storage responseWhenNotHit
        (m.deliver s.world.heap).1)).run s0 = .error e { s0 with world := w } :=
      run_zoom_of_error hrep
    have hrun : (HttpReplayServerHandler signer storage).outcome (.client m isWritable) s
        = .error e ({ s0 with world := w } : Session σ) :=
      hset.trans (run_bind_of_error hin)
    refine ⟨_, congrArg (HttpServerHandler.exceptionCaught Session.closeInbound) hrun, rfl, rfl,
      .inr ⟨⟨e, w, rfl⟩, ?_, rfl⟩⟩
    rw [hrun]
    exact not_returned_error _ _

/-- The world once the request that arrived has been signed. -/
def signed (q : HttpRequest ChannelBuffer) (s : Session σ) : World σ :=
  ⟨ChannelBuffer.drain (s.arrived (.request q)).world.heap s.world.heap.size, s.world.hidden⟩

/-- **A request arrives**: it is drained, and the storage is asked for its signature. -/
theorem replaying_request_eq (cs : Charset) (q : HttpRequest ChannelBuffer) (s : Session σ) :
    replaying (DefaultHttpSigner cs) storage (.request q) s
      = (storage.getRecordData (DefaultHttpSigner.keyOf cs q) >>= fun bundle =>
          (DefaultHttpSigner cs).logResponse bundle >>= fun _ =>
            BaseReplayServerHandler.respond responseWhenNotHit bundle).run (signed q s) := by
  let r : HttpRequest Ref := q.map fun _ => s.world.heap.size
  obtain ⟨key, hkey, hsign⟩ := DefaultHttpSigner.sign_run cs r (s.arrived (.request q)).world.heap
  have hq : r.map (s.arrived (.request q)).world.heap.get = q :=
    HttpObject.request.inj (HttpObject.deref_deliver (.request q) s.world.heap)
  rw [hq, (DefaultHttpSigner.signature_eq cs q).1, Except.ok.injEq] at hkey
  have hrun : ((DefaultHttpSigner cs).sign (some (.request r))).run (s.arrived (.request q)).world
      = .ok (DefaultHttpSigner.keyOf cs q) (signed q s) := by
    rw [hkey]
    exact World.run_onHeap_of_ok hsign
  exact run_bind_of_ok hrun

end HttpReplayServerHandler

end Terminator.Server
