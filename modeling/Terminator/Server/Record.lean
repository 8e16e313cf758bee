import Terminator.Plugin.Signer
import Terminator.Server.Session
import Terminator.Storage.CacheStorage

/-!
# RECORD mode

`BaseRecordServerHandler.java` and `HttpRecordServerHandler.java`: requests are passed on, and
every response is stored with the request the handler received last.
-/

namespace Terminator.Server

open Terminator.Java Terminator.Netty Terminator.Storage Terminator.Plugin

variable {σ : Type}

/-- The statements of `BaseRecordServerHandler.onRelayResponse`. -/
def BaseRecordServerHandler.record (signer : Signer σ) (storage : RecordStorage σ)
    (request : Option (HttpObject Ref)) (response : HttpObject Ref) : Method (World σ) Unit := do
  let bundle : RequestResponseBundle Ref := ⟨request, some response⟩
  let key ← signer.sign request
  storage.putRecordData key bundle
  signer.logResponse bundle

/-- `BaseRecordServerHandler.onRelayResponse`. -/
def BaseRecordServerHandler.onRelayResponse (signer : Signer σ) (storage : RecordStorage σ)
    (response : HttpObject Ref) : Method (Session σ) Unit := do
  let request := (← get).conn.request
  inWorld (BaseRecordServerHandler.record signer storage request response)

namespace HttpRecordServerHandler

/-- The response `send100Continue` writes. -/
def continueResponse : HttpObject (List Byte) := .response ⟨.HTTP_1_1, CONTINUE, [], false, []⟩

/-- `messageReceived`. -/
def messageReceived (isWritable : Bool) (message : HttpObject Ref) : Method (Session σ) Unit := do
  if !(← get).conn.readingChunks then
    let request ← fromExcept message.asRequest
    modify (Session.setRequest message)
    if request.is100ContinueExpected then modify (Session.writeInbound continueResponse)
    if request.chunked then modify (Session.setReadingChunks true)
    else BaseServerHandler.writeObject isWritable message
  else
    let chunk ← fromExcept message.asChunk
    if chunk.last then
      modify (Session.setReadingChunks false)
      BaseServerHandler.writeObject isWritable message
    else pure ()

end HttpRecordServerHandler

/-- The handler of RECORD mode. -/
def HttpRecordServerHandler (signer : Signer σ) (storage : RecordStorage σ) :
    HttpServerHandler σ where
  messageReceived := HttpRecordServerHandler.messageReceived
  onRelayResponse := BaseRecordServerHandler.onRelayResponse signer storage

namespace HttpRecordServerHandler

variable (signer : Signer σ) (storage : RecordStorage σ) {s : Session σ}

/-! ## Steps -/

/-- What a request makes the handler write to the client at once. -/
def continueOf (q : HttpRequest ChannelBuffer) : List (HttpObject (List Byte)) :=
  if q.is100ContinueExpected then [continueResponse] else []

/-- What `messageReceived` leaves of a request. -/
theorem messageReceived_request (hs : s.conn.readingChunks = false) (isWritable : Bool)
    (r : HttpRequest Ref) :
    ∃ s', (messageReceived isWritable (.request r)).run s = .ok () s' ∧
      s'.world = s.world ∧ s'.conn.request = some (.request r) ∧
      s'.conn.readingChunks = r.chunked ∧
      s'.conn.relayReadingChunks = s.conn.relayReadingChunks ∧
      s'.toClient
        = s.toClient ++ (if r.is100ContinueExpected then [continueResponse] else []) ∧
      s'.toRemote = s.toRemote ++ (if r.chunked then [] else [s.wire (.request r)]) := by
  rw [messageReceived, run_bind_of_ok (EStateM.run_get s), hs]
  simp only [Bool.not_false, if_true, HttpObject.asRequest]
  rw [run_bind_of_ok (run_fromExcept_ok r s)]
  cases r.is100ContinueExpected <;> cases r.chunked <;>
    exact ⟨_, rfl, by simp [Session.wire, hs]⟩

/-- What `messageReceived` leaves of a chunk: only the last one of a request is passed on. -/
theorem messageReceived_chunk (hs : s.conn.readingChunks = true) (isWritable : Bool)
    (c : HttpChunk Ref) :
    ∃ s', (messageReceived isWritable (.chunk c)).run s = .ok () s' ∧
      s'.world = s.world ∧ s'.conn.request = s.conn.request ∧
      s'.conn.readingChunks = (!c.last) ∧
      s'.conn.relayReadingChunks = s.conn.relayReadingChunks ∧
      s'.toClient = s.toClient ∧
      s'.toRemote = s.toRemote ++ (if c.last then [s.wire (.chunk c)] else []) := by
  rw [messageReceived, run_bind_of_ok (EStateM.run_get s), hs]
  simp only [Bool.not_true, Bool.false_eq_true, if_false, HttpObject.asChunk]
  rw [run_bind_of_ok (run_fromExcept_ok c s)]
  cases c.last <;> exact ⟨_, rfl, by simp [Session.wire, hs]⟩

/-- **A request arrives**: it becomes the handler's request, and goes to the remote server unless
it is chunked. -/
theorem step_request (hs : s.conn.readingChunks = false) (q : HttpRequest ChannelBuffer)
    (isWritable : Bool) :
    ∃ s', (HttpRecordServerHandler signer storage).step (.client (.request q) isWritable) s = s' ∧
      s'.world = (s.arrived (.request q)).world ∧
      s'.conn.request = some (HttpObject.deliver (.request q) s.world.heap).1 ∧
      s'.conn.readingChunks = q.chunked ∧
      s'.conn.relayReadingChunks = s.conn.relayReadingChunks ∧
      s'.toClient = s.toClient ++ continueOf q ∧
      s'.toRemote = s.toRemote ++ (if q.chunked then [] else [(HttpObject.request q).wire]) := by
  obtain ⟨s', hrun, hworld, hreq, hread, hrelay, hclient, hremote⟩ :=
    messageReceived_request (s := s.arrived (.request q)) hs isWritable
      (q.map fun _ => s.world.heap.size)
  refine ⟨s', ?_, hworld, hreq, hread, hrelay, hclient, hremote.trans ?_⟩
  · exact congrArg (HttpServerHandler.exceptionCaught Session.closeInbound) hrun
  · rw [← Session.wire_arrived _ s]
    rfl

/-- **A chunk arrives**: it goes to the remote server if it is the last one. -/
theorem step_chunk (hs : s.conn.readingChunks = true) (c : HttpChunk ChannelBuffer)
    (isWritable : Bool) :
    ∃ s', (HttpRecordServerHandler signer storage).step (.client (.chunk c) isWritable) s = s' ∧
      s'.world = (s.arrived (.chunk c)).world ∧
      s'.conn.request = s.conn.request ∧
      s'.conn.readingChunks = (!c.last) ∧
      s'.conn.relayReadingChunks = s.conn.relayReadingChunks ∧
      s'.toClient = s.toClient ∧
      s'.toRemote = s.toRemote ++ (if c.last then [(HttpObject.chunk c).wire] else []) := by
  obtain ⟨s', hrun, hworld, hreq, hread, hrelay, hclient, hremote⟩ :=
    messageReceived_chunk (s := s.arrived (.chunk c)) hs isWritable
      (c.map fun _ => s.world.heap.size)
  refine ⟨s', ?_, hworld, hreq, hread, hrelay, hclient, hremote.trans ?_⟩
  · exact congrArg (HttpServerHandler.exceptionCaught Session.closeInbound) hrun
  · rw [← Session.wire_arrived _ s]
    rfl

/-- What recording a response does to the world. -/
def recording (signer : Signer σ) (storage : RecordStorage σ) (m : HttpObject ChannelBuffer)
    (s : Session σ) : EStateM.Result Throwable (World σ) Unit :=
  (BaseRecordServerHandler.record signer storage s.conn.request
    (m.deliver s.world.heap).1).run (s.arrived m).world

/-- **A response arrives**: it is recorded with the handler's request, and then, if recording it
returned, written to the client as it is. -/
theorem step_response (hs : s.conn.relayReadingChunks = false) {r : HttpResponse ChannelBuffer}
    (hr : r.chunked = false) (isWritable : Bool) :
    ∃ s', (HttpRecordServerHandler signer storage).step (.remote (.response r) isWritable) s = s' ∧
      s'.world = after (recording signer storage (.response r) s) ∧
      s'.conn.request = s.conn.request ∧
      s'.conn.readingChunks = s.conn.readingChunks ∧
      s'.conn.relayReadingChunks = false ∧
      s'.toRemote = s.toRemote ∧
      s'.toClient = s.toClient ++
        (if Returned (recording signer storage (.response r) s) then
          [s'.wire (HttpObject.deliver (.response r) s.world.heap).1] else []) := by
  let s0 := s.arrived (.response r)
  let m : HttpObject Ref := (HttpObject.deliver (.response r) s.world.heap).1
  have hrelay := relayMessageReceived_run (s := s0) (r := r.map fun _ => s.world.heap.size)
    (BaseRecordServerHandler.onRelayResponse signer storage) isWritable hs hr
  cases hrec : recording signer storage (.response r) s with
  | ok a w =>
    have hon : (BaseRecordServerHandler.onRelayResponse signer storage m).run s0
        = .ok () { s0 with world := w } := by
      rw [BaseRecordServerHandler.onRelayResponse, run_bind_of_ok (EStateM.run_get s0)]
      exact run_inWorld_of_ok hrec
    refine ⟨_, congrArg (HttpServerHandler.exceptionCaught Session.closeOutbound)
      (hrelay.trans (relayWriteObject_run_of_ok hon)), rfl, rfl, rfl, hs, rfl, ?_⟩
    rw [if_pos (returned_ok a w)]
    rfl
  | error e w =>
    have hon : (BaseRecordServerHandler.onRelayResponse signer storage m).run s0
        = .error e { s0 with world := w } := by
      rw [BaseRecordServerHandler.onRelayResponse, run_bind_of_ok (EStateM.run_get s0)]
      exact run_zoom_of_error hrec
    refine ⟨_, congrArg (HttpServerHandler.exceptionCaught Session.closeOutbound)
      (hrelay.trans (relayWriteObject_run_of_error hon)), rfl, rfl, rfl, hs, rfl, ?_⟩
    rw [if_neg (not_returned_error e w), List.append_nil]
    rfl

theorem keeps_onRelayResponse (m : HttpObject Ref) :
    Keeps Session.conn (BaseRecordServerHandler.onRelayResponse signer storage m) :=
  keeps_bind (keeps_get _) fun _ => keeps_inWorld _

/-! ## What reaches the remote server -/

theorem step_remote_keeps (m : HttpObject ChannelBuffer) (isWritable : Bool) (s : Session σ) :
    ((HttpRecordServerHandler signer storage).step (.remote m isWritable) s).toRemote = s.toRemote ∧
      ((HttpRecordServerHandler signer storage).step (.remote m isWritable) s).conn.readingChunks
        = s.conn.readingChunks := by
  have h := (HttpRecordServerHandler signer storage).step_remote_keeps
    (keeps_onRelayResponse signer storage) m isWritable s
  exact ⟨h.1, h.2.1⟩

/-- Without chunked requests everything is passed on. -/
theorem run_toRemote_of_unchunked (es : List Event) : ∀ {s : Session σ},
    s.conn.readingChunks = false → DecoderEmits false (clientMessages es) →
    (∀ q, .request q ∈ clientMessages es → q.chunked = false) →
    ((HttpRecordServerHandler signer storage).run es s).toRemote
      = s.toRemote ++ (clientMessages es).map HttpObject.wire := by
  induction es with
  | nil =>
    intro s _ _ _
    exact (List.append_nil _).symm
  | cons e es ih =>
    intro s hs hes hall
    cases e with
    | remote m w =>
      obtain ⟨hremote, hread⟩ :=
        step_remote_keeps signer storage m w s
      rw [HttpServerHandler.run, ih (hread.trans hs) hes hall, hremote]
      rfl
    | client m w =>
      cases m with
      | response r => exact hes.elim
      | chunk c => exact hes.elim
      | request q =>
        have hq : q.chunked = false := hall q List.mem_cons_self
        obtain ⟨s', hstep, -, -, hread, -, -, hremote⟩ :=
          step_request signer storage hs q w
        have hes' : DecoderEmits q.chunked (clientMessages es) := hes
        rw [hq] at hes' hread hremote
        rw [HttpServerHandler.run, hstep,
          ih hread hes' fun q hq => hall q (List.mem_cons_of_mem _ hq), hremote]
        simp [clientMessages]

/-- A message is passed on at most once, and the header of a chunked request not at all. -/
theorem run_toRemote_length (es : List Event) : ∀ {b : Bool} {s : Session σ},
    s.conn.readingChunks = b → DecoderEmits b (clientMessages es) →
    ((HttpRecordServerHandler signer storage).run es s).toRemote.length
        + (clientMessages es).countP isChunkedRequest
      ≤ s.toRemote.length + (clientMessages es).length := by
  induction es with
  | nil =>
    intro b s _ _
    exact Nat.le_refl _
  | cons e es ih =>
    intro b s hs hes
    cases e with
    | remote m w =>
      obtain ⟨hremote, hread⟩ :=
        step_remote_keeps signer storage m w s
      have := ih (hread.trans hs) hes
      rw [hremote] at this
      exact this
    | client m w =>
      cases b with
      | false =>
        cases m with
        | response r => exact hes.elim
        | chunk c => exact hes.elim
        | request q =>
          obtain ⟨s', hstep, -, -, hread, -, -, hremote⟩ :=
            step_request signer storage hs q w
          have hrun := ih hread hes
          rw [hremote, List.length_append] at hrun
          rw [HttpServerHandler.run, hstep, clientMessages, List.countP_cons, isChunkedRequest,
            List.length_cons]
          cases hq : q.chunked <;> simp only [hq, Bool.false_eq_true, if_true, if_false,
            List.length_nil, List.length_singleton] at hrun ⊢ <;> omega
      | true =>
        cases m with
        | response r => exact hes.elim
        | request q => exact hes.elim
        | chunk c =>
          obtain ⟨s', hstep, -, -, hread, -, -, hremote⟩ :=
            step_chunk signer storage hs c w
          have hrun := ih hread hes
          rw [hremote, List.length_append] at hrun
          rw [HttpServerHandler.run, hstep, clientMessages, List.countP_cons, List.length_cons]
          have hnot : isChunkedRequest (.chunk c) = false := rfl
          rw [hnot]
          cases hc : c.last <;> simp only [hc, Bool.false_eq_true, if_true, if_false,
            List.length_nil, List.length_singleton] at hrun ⊢ <;> omega

/-- **Request bodies in RECORD mode**: the messages of a connection reach the remote server as
they came, all of them and in order, exactly when no request is chunked. The header of a chunked
request is never written (`messageReceived` only notes that chunks follow). -/
theorem toRemote_eq_received_iff (w : World σ) {es : List Event}
    (hes : DecoderEmits false (clientMessages es)) :
    ((HttpRecordServerHandler signer storage).run es ⟨w, .opened⟩).toRemote
        = (clientMessages es).map HttpObject.wire ↔
      ∀ q, .request q ∈ clientMessages es → q.chunked = false := by
  constructor
  · intro heq q hq
    have hlen := run_toRemote_length signer storage es (s := ⟨w, .opened⟩)
      rfl hes
    rw [heq, List.length_map] at hlen
    have hnone : (clientMessages es).countP isChunkedRequest = 0 := by
      have : (⟨w, .opened⟩ : Session σ).toRemote.length = 0 := rfl
      omega
    have := List.countP_eq_zero.mp hnone _ hq
    exact Bool.eq_false_iff.mpr this
  · intro hall
    exact run_toRemote_of_unchunked signer storage es rfl hes hall

theorem get_reaches_remote :
    ((HttpRecordServerHandler (DefaultHttpSigner utf8) (CacheStorage.recordStorage .newest)).run
        (fromClient [.request (.get "/a")]) ⟨CacheStorage.emptyWorld, .opened⟩).toRemote
      = [(HttpObject.request (.get "/a")).wire] :=
  (toRemote_eq_received_iff (DefaultHttpSigner utf8) (CacheStorage.recordStorage .newest)
      CacheStorage.emptyWorld
      (show DecoderEmits false (clientMessages (fromClient [.request (.get "/a")])) from
        trivial)).mpr
    fun q hq => by
      rw [HttpObject.request.inj (List.mem_singleton.mp hq)]
      rfl

/-- Of a chunked request only the last chunk is passed on. -/
theorem chunkedPost_loses_body :
    DecoderEmits false (clientMessages (fromClient (chunkedPost "/a"))) ∧
    ((HttpRecordServerHandler (DefaultHttpSigner utf8) (CacheStorage.recordStorage .newest)).run
        (fromClient (chunkedPost "/a")) ⟨CacheStorage.emptyWorld, .opened⟩).toRemote
      ≠ (clientMessages (fromClient (chunkedPost "/a"))).map HttpObject.wire :=
  ⟨trivial, by decide⟩

/-! ## What reaches the client -/

theorem preserves_record (request : Option (HttpObject Ref)) (response : HttpObject Ref) :
    World.Preserves (NotContentOf request)
      (BaseRecordServerHandler.record signer storage request response) :=
  World.preserves_bind (signer.sign_preserves request) fun key =>
    World.preserves_bind ((storage.put_preserves key _).mono fun _ _ => trivial) fun _ =>
      (signer.logResponse_preserves _).mono fun _ _ => trivial

/-- The relay handler is between two responses, and the handler's request is allocated. -/
structure Ready (s : Session σ) : Prop where
  relay : s.conn.relayReadingChunks = false
  request : ∀ m, s.conn.request = some m → m.content < s.world.heap.size

theorem ready_opened (w : World σ) : Ready ⟨w, .opened⟩ := ⟨rfl, fun _ h => by cases h⟩

variable {storage signer}

/-- Recording leaves the response as it arrived. -/
theorem wire_after_recording {s s' : Session σ} {m : HttpObject ChannelBuffer} (hs : Ready s)
    (hs' : s'.world = after (recording signer storage m s)) :
    s'.wire (m.deliver s.world.heap).1 = m.wire ∧ s.world.heap.size < s'.world.heap.size := by
  obtain ⟨hsize, hget⟩ := preserves_record signer storage s.conn.request
    (m.deliver s.world.heap).1 (s.arrived m).world
  have harr : (s.arrived m).world.heap.size = s.world.heap.size + 1 :=
    HttpObject.size_deliver m s.world.heap
  rw [← Session.wire_arrived m s, Session.wire, Session.wire, hs']
  refine ⟨congrArg HttpObject.wire (HttpObject.deref_congr ?_), ?_⟩
  · rw [HttpObject.content_deliver]
    exact hget _ (by omega) fun q hq => Nat.ne_of_lt (hs.request q hq)
  · unfold recording
    omega

/-- What the client gets for a sequence of events if no recording throws: the interim responses
of the handler, and the responses of the remote server as they are. -/
def clientView : Bool → List Event → List (HttpObject (List Byte))
  | _, [] => []
  | b, .remote m _ :: es => m.wire :: clientView b es
  | false, .client (.request q) _ :: es => continueOf q ++ clientView q.chunked es
  | true, .client (.chunk c) _ :: es => clientView (!c.last) es
  | b, .client _ _ :: es => clientView b es

/-- In the run of the events, recording each response returns. -/
def AllRecorded (signer : Signer σ) (storage : RecordStorage σ) : List Event → Session σ → Prop
  | [], _ => True
  | e :: es, s =>
    (match e with
      | .client _ _ => True
      | .remote m _ => Returned (recording signer storage m s)) ∧
    AllRecorded signer storage es ((HttpRecordServerHandler signer storage).step e s)

variable (signer storage) in
/-- **A step** keeps the session ready and gives the client what `clientView` says, except that a
response whose recording throws is left out. -/
theorem step_toClient {e : Event} {es : List Event} {b : Bool} {s : Session σ} (hs : Ready s)
    (hb : s.conn.readingChunks = b) (hes : DecoderEmits b (clientMessages (e :: es)))
    (he : e.FromAggregator) :
    ∃ b' view, Ready ((HttpRecordServerHandler signer storage).step e s) ∧
      ((HttpRecordServerHandler signer storage).step e s).conn.readingChunks = b' ∧
      DecoderEmits b' (clientMessages es) ∧
      clientView b (e :: es) = view ++ clientView b' es ∧
      ((AllRecorded signer storage [e] s ∧
          ((HttpRecordServerHandler signer storage).step e s).toClient = s.toClient ++ view) ∨
        (¬ AllRecorded signer storage [e] s ∧ view.length = 1 ∧
          ((HttpRecordServerHandler signer storage).step e s).toClient = s.toClient)) := by
  cases e with
  | remote m w =>
    cases m with
    | request q => exact he.elim
    | chunk c => exact he.elim
    | response r =>
      obtain ⟨s', hstep, hworld, hreq, hread, hrelay, -, hclient⟩ :=
        step_response signer storage hs.relay he w
      obtain ⟨hwire, hsize⟩ := wire_after_recording hs hworld
      rw [hstep]
      refine ⟨b, [(HttpObject.response r).wire], ⟨hrelay, fun q hq => ?_⟩, hread.trans hb, hes, ?_,
        ?_⟩
      · rw [hreq] at hq
        exact Nat.lt_trans (hs.request q hq) hsize
      · cases b <;> rfl
      · rw [hwire] at hclient
        by_cases hret : Returned (recording signer storage (.response r) s)
        · rw [if_pos hret] at hclient
          exact .inl ⟨⟨hret, trivial⟩, hclient⟩
        · rw [if_neg hret, List.append_nil] at hclient
          exact .inr ⟨fun h => hret h.1, rfl, hclient⟩
  | client m w =>
    cases b with
    | false =>
      cases m with
      | response r => exact hes.elim
      | chunk c => exact hes.elim
      | request q =>
        obtain ⟨s', hstep, hworld, hreq, hread, hrelay, hclient, -⟩ :=
          step_request signer storage hb q w
        rw [hstep]
        refine ⟨q.chunked, continueOf q, ⟨hrelay.trans hs.relay, fun m hm => ?_⟩, hread, hes, rfl,
          .inl ⟨⟨trivial, trivial⟩, hclient⟩⟩
        rw [hreq, Option.some.injEq] at hm
        rw [← hm, HttpObject.content_deliver, hworld]
        exact HttpObject.size_lt_size_deliver _ _
    | true =>
      cases m with
      | response r => exact hes.elim
      | request q => exact hes.elim
      | chunk c =>
        obtain ⟨s', hstep, hworld, hreq, hread, hrelay, hclient, -⟩ :=
          step_chunk signer storage hb c w
        rw [hstep]
        refine ⟨!c.last, [], ⟨hrelay.trans hs.relay, fun m hm => ?_⟩, hread, hes, rfl,
          .inl ⟨⟨trivial, trivial⟩, by rw [hclient, List.append_nil]⟩⟩
        rw [hreq] at hm
        rw [hworld]
        exact Nat.lt_trans (hs.request m hm) (HttpObject.size_lt_size_deliver _ _)

variable (signer storage)

theorem allRecorded_cons (e : Event) (es : List Event) (s : Session σ) :
    AllRecorded signer storage (e :: es) s ↔ AllRecorded signer storage [e] s ∧
      AllRecorded signer storage es ((HttpRecordServerHandler signer storage).step e s) := by
  simp [AllRecorded]

/-- The client never gets more than `clientView` says. -/
theorem run_toClient_length (es : List Event) : ∀ {b : Bool} {s : Session σ}, Ready s →
    s.conn.readingChunks = b → DecoderEmits b (clientMessages es) →
    (∀ e ∈ es, e.FromAggregator) →
    ((HttpRecordServerHandler signer storage).run es s).toClient.length
      ≤ s.toClient.length + (clientView b es).length := by
  induction es with
  | nil =>
    intro b s _ _ _ _
    exact Nat.le_add_right _ _
  | cons e es ih =>
    intro b s hs hb hes hagg
    obtain ⟨b', view, hs', hb', hes', hview, hclient⟩ :=
      step_toClient signer storage hs hb hes
        (hagg e List.mem_cons_self)
    have hrun := ih hs' hb' hes' fun e he => hagg e (List.mem_cons_of_mem _ he)
    rw [HttpServerHandler.run, hview, List.length_append]
    rcases hclient with ⟨-, hclient⟩ | ⟨-, -, hclient⟩ <;>
      simp only [hclient, List.length_append] at hrun <;> omega

/-- The run form of `step_toClient`. -/
theorem run_toClient_iff (es : List Event) : ∀ {b : Bool} {s : Session σ}, Ready s →
    s.conn.readingChunks = b → DecoderEmits b (clientMessages es) →
    (∀ e ∈ es, e.FromAggregator) →
    (((HttpRecordServerHandler signer storage).run es s).toClient
        = s.toClient ++ clientView b es ↔ AllRecorded signer storage es s) := by
  induction es with
  | nil =>
    intro b s _ _ _ _
    exact ⟨fun _ => trivial, fun _ => (List.append_nil _).symm⟩
  | cons e es ih =>
    intro b s hs hb hes hagg
    obtain ⟨b', view, hs', hb', hes', hview, hclient⟩ :=
      step_toClient signer storage hs hb hes
        (hagg e List.mem_cons_self)
    have hagg' := fun e he => hagg e (List.mem_cons_of_mem _ he)
    rw [HttpServerHandler.run, hview, allRecorded_cons]
    rcases hclient with ⟨hrec, hclient⟩ | ⟨hrec, hlen, hclient⟩
    · rw [← List.append_assoc, ← hclient, ih hs' hb' hes' hagg']
      exact (and_iff_right hrec).symm
    · -- The response that was left out is missing to the end.
      refine ⟨fun heq => ?_, fun h => absurd h.1 hrec⟩
      have hle := run_toClient_length signer storage es hs' hb' hes' hagg'
      rw [heq, hclient, List.length_append, List.length_append, hlen] at hle
      omega

/-- **Recording and the traffic**: the client gets every response of the remote server, unmodified
and once, exactly when signing, storing and logging return for each of them. The three run before
the write (`BaseRelayHandler.writeObject`), so what any of them throws costs the client the
response. -/
theorem toClient_eq_clientView_iff (w : World σ) {es : List Event}
    (hes : DecoderEmits false (clientMessages es)) (hagg : ∀ e ∈ es, e.FromAggregator) :
    ((HttpRecordServerHandler signer storage).run es ⟨w, .opened⟩).toClient = clientView false es ↔
      AllRecorded signer storage es ⟨w, .opened⟩ :=
  run_toClient_iff signer storage es (ready_opened w) rfl hes hagg

/-- `GET /a`, answered by one response. -/
def answered (content : ChannelBuffer) : List Event :=
  [.client (.request (.get "/a")) true, .remote (.response (.ok content)) true]

theorem plain_response_reaches_client :
    ((HttpRecordServerHandler (DefaultHttpSigner utf8) (CacheStorage.recordStorage .newest)).run
        (answered (.wrapped [0x61] true)) ⟨CacheStorage.emptyWorld, .opened⟩).toClient
      = clientView false (answered (.wrapped [0x61] true)) :=
  (toClient_eq_clientView_iff (DefaultHttpSigner utf8) (CacheStorage.recordStorage .newest)
      CacheStorage.emptyWorld
      (show DecoderEmits false (clientMessages (answered (.wrapped [0x61] true))) from trivial)
      (by decide)).mpr
    ⟨trivial, by decide +kernel, trivial⟩

set_option maxRecDepth 100000 in
/-- A response aggregated from several chunks has no backing array: `logResponse` throws, and the
client never sees the response. -/
theorem composite_response_lost :
    DecoderEmits false (clientMessages (answered (.wrapped [0x61] false))) ∧
    (∀ e ∈ answered (.wrapped [0x61] false), e.FromAggregator) ∧
    ((HttpRecordServerHandler (DefaultHttpSigner utf8) (CacheStorage.recordStorage .newest)).run
        (answered (.wrapped [0x61] false)) ⟨CacheStorage.emptyWorld, .opened⟩).toClient
      ≠ clientView false (answered (.wrapped [0x61] false)) :=
  ⟨trivial, by decide, by decide +kernel⟩

end HttpRecordServerHandler

end Terminator.Server
