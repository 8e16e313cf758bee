import Terminator.Java.LeadingRuns
import Terminator.Plugin.Extractor
import Terminator.Server.Session
import Terminator.Storage.CacheStorage

/-!
# STUB mode

`BaseStubServerHandler.java`, `HttpStubServerHandler.java` and `StubMatcherComparator.java`: the
stubs of the link are sorted, and the first one that accepts the elements of a request answers it;
a request no stub accepts goes to the remote server. As in REPLAY mode nothing casts a message
before the extractor does.
-/

namespace Terminator.Server

open Terminator.Java Terminator.Netty Terminator.Storage Terminator.Plugin

variable {σ : Type}

/-- `StubMatcherComparator.compare`. Its last test is for OR, the only operator left there. -/
def StubMatcherComparator.compare (stubData1 stubData2 : StubData) : Except Throwable Int := do
  let operator1 ← nonNull stubData1.operator
  match operator1 with
  | .not => pure (-1)
  | .and =>
    let operator2 ← nonNull stubData2.operator
    if operator2 = .not then pure 1 else pure 0
  | .or => pure 1

namespace BaseStubServerHandler

/-- `farward`. -/
def farward : Bool := true

/-- What the handler of a link works with. -/
structure Context (σ : Type) where
  extractor : Extractor σ
  storage : StubStorage σ

/-- The matcher of a stub's operator, run on the stub. -/
def matching (elements : List RequestElement) (data : StubData) : Except Throwable Bool := do
  let operator ← nonNull data.operator
  isMatch operator data elements

/-- The loop over the sorted stubs: the response of the first one that accepts. -/
def matchLoop (responseWhenHit : Option JString → Except Throwable (HttpObject (List Byte)))
    (elements : List RequestElement) :
    List StubData → Except Throwable (Option (HttpObject (List Byte)))
  | [] => .ok none
  | data :: stubData => do
    let isMatch ← matching elements data
    if isMatch then
      let response ← responseWhenHit data.response
      pure (some response)
    else matchLoop responseWhenHit elements stubData

/-- `messageReceived` up to the writes: the response of the stub that was hit, if any. -/
def consult (context : Context σ)
    (responseWhenHit : Option JString → Except Throwable (HttpObject (List Byte)))
    (request : HttpObject Ref) : Method (World σ) (Option (HttpObject (List Byte))) := do
  let elements ← context.extractor.extract (some request)
  let stubData ← context.storage.getStubData
  let stubData ← fromExcept (TimSort.sort StubMatcherComparator.compare stubData)
  modify fun w => { w with hidden := context.storage.sorted stubData w.hidden }
  fromExcept (matchLoop responseWhenHit elements stubData)

/-- `messageReceived`. -/
def messageReceived (context : Context σ)
    (responseWhenHit : Option JString → Except Throwable (HttpObject (List Byte)))
    (responseWhenNotHit : HttpObject (List Byte)) (isWritable : Bool) (message : HttpObject Ref) :
    Method (Session σ) Unit := do
  modify (Session.setRequest message)
  let response ← inWorld (consult context responseWhenHit message)
  match response with
  | none =>
    if farward then BaseServerHandler.writeObject isWritable message
    else modify (Session.writeInbound responseWhenNotHit)
  | some response => modify (Session.writeInbound response)

end BaseStubServerHandler

namespace HttpStubServerHandler

def DEFAULT_HTTP_BODY : JString :=
  lit "You see this message because the response to this request is not set!"

/-- The response with a body in UTF-8. -/
def htmlResponse (status : Nat × JString) (contentLength : Nat) (body : JString) :
    HttpObject (List Byte) :=
  .response ⟨.HTTP_1_1, status,
    [(lit "Content-Type", lit "text/html; charset=utf-8"),
      (lit "Content-Length", decimal contentLength)],
    false, utf8.encode body⟩

/-- `responseWhenHit(content)`. -/
def responseWhenHit (content : Option JString) : Except Throwable (HttpObject (List Byte)) := do
  let content ← nonNull content
  pure (htmlResponse OK (utf8.encode content).length content)

/-- `responseWhenNotHit()`. -/
def responseWhenNotHit : HttpObject (List Byte) :=
  htmlResponse NOT_IMPLEMENTED 69 DEFAULT_HTTP_BODY

end HttpStubServerHandler

open BaseStubServerHandler in
/-- The handler of STUB mode. -/
def HttpStubServerHandler (context : Context σ) : HttpServerHandler σ where
  messageReceived := BaseStubServerHandler.messageReceived context
    HttpStubServerHandler.responseWhenHit HttpStubServerHandler.responseWhenNotHit
  onRelayResponse _ := pure ()

namespace HttpStubServerHandler

open BaseStubServerHandler

variable (context : Context σ)

/-- **`consult`** returns when everything it calls does, with what the loop has answered. -/
theorem consult_eq_ok_iff {request : HttpObject Ref} {w w' : World σ}
    {answer : Option (HttpObject (List Byte))} :
    (consult context responseWhenHit request).run w = .ok answer w' ↔
      ∃ elements w1, (context.extractor.extract (some request)).run w = .ok elements w1 ∧
        ∃ stubData w2, context.storage.getStubData.run w1 = .ok stubData w2 ∧
          ∃ order, TimSort.sort StubMatcherComparator.compare stubData = .ok order ∧
            matchLoop responseWhenHit elements order = .ok answer ∧
            w' = { w2 with hidden := context.storage.sorted order w2.hidden } := by
  have hset : ∀ (f : World σ → World σ) w u w', (modify f : Method (World σ) Unit).run w
      = .ok u w' ↔ f w = w' := by
    intro f w u w'
    exact ⟨fun h => (EStateM.Result.ok.inj h).2, fun h => h ▸ rfl⟩
  simp only [consult, run_bind_eq_ok_iff, run_fromExcept_eq_ok_iff, hset]
  constructor
  · rintro ⟨elements, w1, hextract, stubData, w2, hstub, order, w3, ⟨hsort, hw3⟩, u, w4, hw4,
      hloop, hw'⟩
    subst hw3 hw4 hw'
    exact ⟨elements, w1, hextract, stubData, _, hstub, order, hsort, hloop, rfl⟩
  · rintro ⟨elements, w1, hextract, stubData, w2, hstub, order, hsort, hloop, rfl⟩
    exact ⟨elements, w1, hextract, stubData, w2, hstub, order, w2, ⟨hsort, rfl⟩, (), _, rfl, hloop,
      rfl⟩

/-- What a message does to the world, and the response of the stub it hits. -/
def consulting (m : HttpObject ChannelBuffer) (s : Session σ) :
    EStateM.Result Throwable (World σ) (Option (HttpObject (List Byte))) :=
  (consult context responseWhenHit (m.deliver s.world.heap).1).run (s.arrived m).world

/-- **A message arrives**: it hits a stub and is answered at once, or it misses them all and goes
to the remote server as it is by then, or the handler throws and nothing is written. -/
theorem step_client (m : HttpObject ChannelBuffer) (isWritable : Bool) (s : Session σ) :
    ∃ s', (HttpStubServerHandler context).step (.client m isWritable) s = s' ∧
      s'.world = after (consulting context m s) ∧
      s'.conn.relayReadingChunks = s.conn.relayReadingChunks ∧
      ((∃ response w, consulting context m s = .ok (some response) w ∧
          Returned ((HttpStubServerHandler context).outcome (.client m isWritable) s) ∧
          s'.toClient = s.toClient ++ [response] ∧ s'.toRemote = s.toRemote) ∨
        (∃ w, consulting context m s = .ok none w ∧
          Returned ((HttpStubServerHandler context).outcome (.client m isWritable) s) ∧
          s'.toClient = s.toClient ∧
          s'.toRemote = s.toRemote ++ [s'.wire (m.deliver s.world.heap).1]) ∨
        (∃ e w, consulting context m s = .error e w ∧
          ¬ Returned ((HttpStubServerHandler context).outcome (.client m isWritable) s) ∧
          s'.toClient = s.toClient ∧ s'.toRemote = s.toRemote)) := by
  let message := (m.deliver s.world.heap).1
  let s0 := (s.arrived m).setRequest message
  let rest : Option (HttpObject (List Byte)) → Method (Session σ) Unit := fun response =>
    match response with
    | none =>
      if farward then BaseServerHandler.writeObject isWritable message
      else modify (Session.writeInbound responseWhenNotHit)
    | some response => modify (Session.writeInbound response)
  have hset : (HttpStubServerHandler context).outcome (.client m isWritable) s
      = (inWorld (consult context responseWhenHit message) >>= rest).run s0 := rfl
  cases hcons : consulting context m s with
  | ok answer w =>
    have hin : (inWorld (consult context responseWhenHit message)).run s0
        = .ok answer { s0 with world := w } := run_inWorld_of_ok hcons
    cases answer with
    | some response =>
      have hrun : (HttpStubServerHandler context).outcome (.client m isWritable) s
          = .ok () (({ s0 with world := w } : Session σ).writeInbound response) :=
        hset.trans (run_bind_of_ok hin)
      refine ⟨_, congrArg (HttpServerHandler.exceptionCaught Session.closeInbound) hrun, rfl, rfl,
        .inl ⟨response, w, rfl, ?_, rfl, rfl⟩⟩
      rw [hrun]
      exact returned_ok _ _
    | none =>
      have hrun : (HttpStubServerHandler context).outcome (.client m isWritable) s
          = .ok () (({ s0 with world := w } : Session σ).writeOutbound
              (({ s0 with world := w } : Session σ).wire message) |>.throttleInbound isWritable) :=
        hset.trans (run_bind_of_ok hin)
      refine ⟨_, congrArg (HttpServerHandler.exceptionCaught Session.closeInbound) hrun, rfl, rfl,
        .inr (.inl ⟨w, rfl, ?_, rfl, rfl⟩)⟩
      rw [hrun]
      exact returned_ok _ _
  | error e w =>
    have hin : (inWorld (consult context responseWhenHit message)).run s0
        = .error e { s0 with world := w } := run_zoom_of_error hcons
    have hrun : (HttpStubServerHandler context).outcome (.client m isWritable) s
        = .error e ({ s0 with world := w } : Session σ) := hset.trans (run_bind_of_error hin)
    refine ⟨_, congrArg (HttpServerHandler.exceptionCaught Session.closeInbound) hrun, rfl, rfl,
      .inr (.inr ⟨e, w, rfl, ?_, rfl, rfl⟩)⟩
    rw [hrun]
    exact not_returned_error _ _

/-- **A response arrives** and is written to the client. -/
theorem step_response {s : Session σ} (hs : s.conn.relayReadingChunks = false)
    {r : HttpResponse ChannelBuffer} (hr : r.chunked = false) (isWritable : Bool) :
    ∃ s', (HttpStubServerHandler context).step (.remote (.response r) isWritable) s = s' ∧
      s'.world = (s.arrived (.response r)).world ∧
      s'.conn.relayReadingChunks = false ∧ s'.toRemote = s.toRemote ∧
      s'.toClient = s.toClient ++ [(HttpObject.response r).wire] := by
  have hrelay := relayMessageReceived_run (s := s.arrived (.response r))
    (r := r.map fun _ => s.world.heap.size) (HttpStubServerHandler context).onRelayResponse
    isWritable hs hr
  refine ⟨_, congrArg (HttpServerHandler.exceptionCaught Session.closeOutbound)
    (hrelay.trans (relayWriteObject_run_of_ok rfl)), rfl, hs, rfl, ?_⟩
  rw [← Session.wire_arrived (.response r) s]
  rfl

/-! ## A miss -/

/-- Consulting the stubs with a shipped extractor drains the request. -/
theorem consult_drains {cs : Charset} {x : ShippedExtractor σ} {storage : StubStorage σ}
    {q : HttpRequest Ref} {w w' : World σ} {answer : Option (HttpObject (List Byte))}
    (h : (consult ⟨x.extractor cs, storage⟩ responseWhenHit (.request q)).run w
      = .ok answer w') (hq : q.content < w.heap.size) :
    w'.heap.get q.content = (w.heap.get q.content).drained := by
  obtain ⟨elements, w1, hextract, stubData, w2, hstub, -, -, -, rfl⟩ :=
    (consult_eq_ok_iff _).mp h
  obtain ⟨r, hr, hdrain⟩ := ShippedExtractor.extract_drains hextract
  obtain rfl : q = r := HttpObject.request.inj (Option.some.inj hr)
  have hpres := (storage.getStubData_preserves w1).2 q.content
    (by rw [hdrain, ChannelBuffer.size_drain]; exact hq) trivial
  rw [hstub, after_ok] at hpres
  exact hpres.trans (by rw [hdrain, ChannelBuffer.get_drain_self hq])

/-- **A stub miss** passes the request on as it was exactly when its body is empty: the extractor
has read the body, and the encoder sends what is left to read. -/
theorem miss_transparent_iff (cs : Charset) (x : ShippedExtractor σ) (storage : StubStorage σ)
    {q : HttpRequest ChannelBuffer} {isWritable : Bool} {s : Session σ} {w : World σ}
    (hmiss : consulting ⟨x.extractor cs, storage⟩ (.request q) s = .ok none w) :
    ((HttpStubServerHandler ⟨x.extractor cs, storage⟩).step
        (.client (.request q) isWritable) s).toRemote
      = s.toRemote ++ [(HttpObject.request q).wire] ↔ q.content.content = [] := by
  obtain ⟨s', hstep, hworld, -, hcase⟩ :=
    step_client ⟨x.extractor cs, storage⟩ (.request q) isWritable s
  have hremote : s'.toRemote
      = s.toRemote ++ [s'.wire (HttpObject.deliver (.request q) s.world.heap).1] := by
    rw [hmiss] at hcase
    rcases hcase with ⟨_, _, h, -⟩ | ⟨_, -, -, -, h⟩ | ⟨_, _, h, -⟩
    · cases h
    · exact h
    · cases h
  rw [hmiss, after_ok] at hworld
  have harrived := HttpObject.deref_deliver (.request q) s.world.heap
  have hlt : s.world.heap.size < (s.arrived (.request q)).world.heap.size :=
    Nat.lt_of_lt_of_eq (Nat.lt_succ_self _) (HttpObject.size_deliver (.request q) _).symm
  have hdrained := consult_drains hmiss hlt
  -- The fields of the request are those that arrived, its content is drained.
  have hself : (s.arrived (.request q)).world.heap.get s.world.heap.size = q.content :=
    congrArg HttpRequest.content (HttpObject.request.inj harrived)
  have hwire : s'.wire (HttpObject.deliver (.request q) s.world.heap).1
      = .request (q.map fun _ => []) := by
    have hcontent : w.heap.get s.world.heap.size = q.content.drained := by
      rw [← hself]
      exact hdrained
    simp only [Session.wire, hworld, HttpObject.deliver, HttpObject.deref, HttpObject.wire,
      HttpObject.map, HttpRequest.map, hcontent, ChannelBuffer.content_drained]
  rw [hstep, hremote, hwire, List.append_cancel_left_eq, List.cons.injEq]
  simp only [HttpObject.wire, HttpObject.map, HttpRequest.map, HttpObject.request.injEq,
    HttpRequest.mk.injEq, and_true, true_and]
  exact eq_comm

/-- `DefaultHttpExtractor` over a `CacheStorage`. -/
def plainContext : Context CacheStorage :=
  ⟨ShippedExtractor.default.extractor utf8, CacheStorage.stubStorage⟩

theorem get_passes_through :
    ((HttpStubServerHandler plainContext).step (.client (.request (.get "/a")) true)
        ⟨CacheStorage.emptyWorld, .opened⟩).toRemote
      = [(HttpObject.request (.get "/a")).wire] :=
  (miss_transparent_iff utf8 .default CacheStorage.stubStorage
    (show consulting plainContext (.request (.get "/a")) ⟨CacheStorage.emptyWorld, .opened⟩
      = .ok none _ from rfl)).mpr rfl

/-- A `POST` that no stub matches reaches the remote server without its body. -/
theorem post_loses_body :
    (∃ w, consulting plainContext (.request (.post "/a" [0x61]))
      ⟨CacheStorage.emptyWorld, .opened⟩ = .ok none w) ∧
    ((HttpStubServerHandler plainContext).step (.client (.request (.post "/a" [0x61])) true)
        ⟨CacheStorage.emptyWorld, .opened⟩).toRemote
      ≠ [(HttpObject.request (.post "/a" [0x61])).wire] :=
  ⟨⟨_, rfl⟩, by decide⟩

end HttpStubServerHandler

end Terminator.Server
