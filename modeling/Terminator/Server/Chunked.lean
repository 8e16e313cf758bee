import Terminator.Server.Replay
import Terminator.Server.Stub
import Terminator.Storage.CacheStorage

/-!
# Chunked requests in REPLAY and STUB mode

Neither handler has a chunk state: each message of the client is taken for a request of its own. So
the header of a chunked request is looked up, or consulted the stubs for, without its body, and
its chunks after it. **`handled_whole_iff`**: each request is handled once and as a whole, and
nothing is thrown, exactly when no request is chunked and the components return.
-/

namespace Terminator.Server.Chunked

open Terminator.Java Terminator.Netty Terminator.Storage Terminator.Plugin
open BaseStubServerHandler HttpStubServerHandler

variable {σ : Type}

/-! ## Observers -/

/-- A storage together with a list of the keys it is asked for. -/
def asked (storage : RecordStorage σ) : RecordStorage (σ × List JString) where
  putRecordData key bundle :=
    World.component Prod.fst (fun t h => (t, h.2)) (storage.putRecordData key bundle)
  getRecordData key := do
    modify fun w => { w with hidden := (w.hidden.1, w.hidden.2 ++ [key]) }
    World.component Prod.fst (fun t h => (t, h.2)) (storage.getRecordData key)
  put_preserves key bundle := World.preserves_component (storage.put_preserves key bundle)
  get_preserves key :=
    World.preserves_bind (fun _ => ⟨Nat.le_refl _, fun _ _ _ => rfl⟩) fun _ =>
      World.preserves_component (storage.get_preserves key)

/-- An extractor together with a list of the messages it is given, as they were then. -/
def given (extractor : Extractor σ) : Extractor (σ × List (HttpObject ChannelBuffer)) where
  extract request := do
    modify fun w => { w with
      hidden := (w.hidden.1, w.hidden.2 ++ (request.map (HttpObject.deref w.heap)).toList) }
    World.component Prod.fst (fun t h => (t, h.2)) (extractor.extract request)
  extract_preserves request :=
    World.preserves_bind (fun _ => ⟨Nat.le_refl _, fun _ _ _ => rfl⟩) fun _ =>
      World.preserves_component (extractor.extract_preserves request)

/-- What the stub handler of a link works with, under observation. -/
def givenContext (context : Context σ) : Context (σ × List (HttpObject ChannelBuffer)) where
  extractor := given context.extractor
  storage :=
    { getStubData := World.component Prod.fst (fun t h => (t, h.2)) context.storage.getStubData
      sorted := fun stubData h => (context.storage.sorted stubData h.1, h.2)
      getStubData_preserves := World.preserves_component context.storage.getStubData_preserves }

/-- No handler throws on a message of the client. -/
def NeverThrows (handler : HttpServerHandler σ) : List Event → Session σ → Prop
  | [], _ => True
  | e :: es, s =>
    (match e with
      | .client _ _ => Returned (handler.outcome e s)
      | .remote _ _ => True) ∧
    NeverThrows handler es (handler.step e s)

/-! ## REPLAY mode -/

section Replay

variable (cs : Charset) (storage : RecordStorage σ)

/-- The handler of REPLAY mode with `DefaultHttpSigner`, over an observed storage. -/
def replayHandler : HttpServerHandler (σ × List JString) :=
  HttpReplayServerHandler (DefaultHttpSigner cs) (asked storage)

/-- Looking up the signature of the request, and logging what is found, returns. -/
def Retrieves (q : HttpRequest ChannelBuffer) (s : Session (σ × List JString)) : Prop :=
  ∃ key, DefaultHttpSigner.signature cs q = .ok key ∧
    Returned (((asked storage).getRecordData key >>= (DefaultHttpSigner cs).logResponse).run
      (HttpReplayServerHandler.signed q s))

/-- In the run of the messages, it does for each request. -/
def AllRetrieved : List (HttpObject ChannelBuffer) → Session (σ × List JString) → Prop
  | [], _ => True
  | m :: ms, s =>
    (match m with
      | .request q => Retrieves cs storage q s
      | _ => True) ∧
    AllRetrieved ms ((replayHandler cs storage).step (.client m true) s)

/-- Each request is answered once, under the signature of the whole of it, and nothing is thrown. -/
def ReplaysWhole (ms : List (HttpObject ChannelBuffer)) (w : World σ) : Prop :=
  let s : Session (σ × List JString) := ⟨⟨w.heap, (w.hidden, [])⟩, .opened⟩
  let s' := (replayHandler cs storage).run (fromClient ms) s
  NeverThrows (replayHandler cs storage) (fromClient ms) s ∧
    s'.toClient.length = (wholeRequests none ms).length ∧
    s'.world.hidden.2.map .ok
      = (wholeRequests none ms).map (DefaultHttpSigner.signature cs)

/-- **A request**: its signature is looked up, and the handler returns iff that does. -/
theorem replaying_request (q : HttpRequest ChannelBuffer) (s : Session (σ × List JString)) :
    ∃ key, DefaultHttpSigner.signature cs q = .ok key ∧
      (after (HttpReplayServerHandler.replaying (DefaultHttpSigner cs) (asked storage)
        (.request q) s)).hidden.2 = s.world.hidden.2 ++ [key] ∧
      (Returned (HttpReplayServerHandler.replaying (DefaultHttpSigner cs) (asked storage)
        (.request q) s) ↔ Retrieves cs storage q s) := by
  have hkey := (DefaultHttpSigner.signature_eq cs q).1
  let rest : RequestResponseBundle Ref →
      Method (World (σ × List JString)) (HttpObject (List Byte)) := fun bundle =>
    (DefaultHttpSigner cs).logResponse bundle >>= fun _ =>
      BaseReplayServerHandler.respond HttpReplayServerHandler.responseWhenNotHit bundle
  refine ⟨DefaultHttpSigner.keyOf cs q, hkey, ?_, ?_⟩
  · -- Once the key is noted, neither the storage nor the signer changes the notes.
    have hkeep : Keeps (fun w => w.hidden.2) (World.component Prod.fst (fun t h => (t, h.2))
        (storage.getRecordData (DefaultHttpSigner.keyOf cs q)) >>= rest) :=
      keeps_bind (World.keeps_component_fst _) fun bundle =>
        keeps_bind (keeps_zoom _ fun _ _ => rfl) fun _ =>
          keeps_bind (keeps_get _) fun _ => keeps_pure _ _
    let w := HttpReplayServerHandler.signed q s
    rw [HttpReplayServerHandler.replaying_request_eq]
    exact hkeep ⟨w.heap, (w.hidden.1, w.hidden.2 ++ [DefaultHttpSigner.keyOf cs q])⟩
  · have hrest : ∀ bundle w, Returned ((rest bundle).run w) ↔
        Returned (((DefaultHttpSigner cs).logResponse bundle).run w) := fun bundle w =>
      returned_bind_iff_of_total fun _ _ => trivial
    have hiff : Returned (HttpReplayServerHandler.replaying (DefaultHttpSigner cs) (asked storage)
          (.request q) s) ↔
        Returned (((asked storage).getRecordData (DefaultHttpSigner.keyOf cs q) >>=
          (DefaultHttpSigner cs).logResponse).run (HttpReplayServerHandler.signed q s)) := by
      rw [HttpReplayServerHandler.replaying_request_eq, returned_bind_iff, returned_bind_iff]
      simp only [← hrest]
      rfl
    rw [hiff]
    constructor
    · exact fun h => ⟨_, hkey, h⟩
    · rintro ⟨key, hkey', h⟩
      obtain rfl : DefaultHttpSigner.keyOf cs q = key := Except.ok.inj (hkey.symm.trans hkey')
      exact h

/-- **A message** that does not make the handler throw is answered once. -/
theorem replay_step (m : HttpObject ChannelBuffer) (s : Session (σ × List JString)) :
    (Returned ((replayHandler cs storage).outcome (.client m true) s) ↔
      Returned (HttpReplayServerHandler.replaying (DefaultHttpSigner cs) (asked storage) m s)) ∧
    (Returned ((replayHandler cs storage).outcome (.client m true) s) →
      ((replayHandler cs storage).step (.client m true) s).toClient.length
        = s.toClient.length + 1) := by
  obtain ⟨s', hstep, -, -, hcase⟩ :=
    HttpReplayServerHandler.step_client (DefaultHttpSigner cs) (asked storage) m true s
  have hstep' : (replayHandler cs storage).step (.client m true) s = s' := hstep
  rw [hstep']
  rcases hcase with ⟨response, w, hrep, hret, hclient⟩ | ⟨⟨e, w, hrep⟩, hret, hclient⟩
  · rw [hrep]
    refine ⟨iff_of_true hret (returned_ok _ _), fun _ => ?_⟩
    rw [hclient, List.length_append, List.length_singleton]
  · rw [hrep]
    exact ⟨iff_of_false hret (not_returned_error _ _), fun h => absurd h hret⟩

/-- A run without exceptions answers every message. -/
theorem replay_length (ms : List (HttpObject ChannelBuffer)) :
    ∀ {s : Session (σ × List JString)}, NeverThrows (replayHandler cs storage) (fromClient ms) s →
    ((replayHandler cs storage).run (fromClient ms) s).toClient.length
      = s.toClient.length + ms.length := by
  induction ms with
  | nil =>
    intro s _
    rfl
  | cons m ms ih =>
    intro s h
    have hrun := ih h.2
    rw [(replay_step cs storage m s).2 h.1] at hrun
    exact hrun.trans (by rw [List.length_cons]; omega)

/-- Without chunked requests, nothing is thrown iff every signature is retrieved, and the keys
asked for are the signatures. -/
theorem replay_of_unchunked (ms : List (HttpObject ChannelBuffer)) :
    ∀ {s : Session (σ × List JString)}, DecoderEmits false ms →
    (∀ q, .request q ∈ ms → q.chunked = false) →
    (NeverThrows (replayHandler cs storage) (fromClient ms) s ↔ AllRetrieved cs storage ms s) ∧
      ((replayHandler cs storage).run (fromClient ms) s).world.hidden.2.map .ok
        = s.world.hidden.2.map .ok
          ++ (wholeRequests none ms).map (DefaultHttpSigner.signature cs) := by
  induction ms with
  | nil =>
    intro s _ _
    exact ⟨Iff.rfl, (List.append_nil _).symm⟩
  | cons m ms ih =>
    intro s h hall
    cases m with
    | response r => exact h.elim
    | chunk c => exact h.elim
    | request q =>
      have hq : q.chunked = false := hall q List.mem_cons_self
      have h' : DecoderEmits q.chunked ms := h
      obtain ⟨hthrow, hkeys⟩ := ih
        (s := (replayHandler cs storage).step (.client (.request q) true) s) (hq ▸ h')
        fun q hq => hall q (List.mem_cons_of_mem _ hq)
      obtain ⟨key, hkey, hnote, hret⟩ := replaying_request cs storage q s
      have hworld : ((replayHandler cs storage).step (.client (.request q) true) s).world.hidden.2
          = s.world.hidden.2 ++ [key] := by
        obtain ⟨s', hstep, hworld, -⟩ := HttpReplayServerHandler.step_client
          (DefaultHttpSigner cs) (asked storage) (.request q) true s
        rw [← hnote, ← hworld, ← hstep]
        rfl
      refine ⟨and_congr ((replay_step cs storage _ s).1.trans hret) hthrow, ?_⟩
      rw [wholeRequests, hq, if_neg Bool.false_ne_true, List.map_cons, hkey]
      refine hkeys.trans ?_
      rw [hworld]
      simp

/-- **REPLAY mode**: each request is replayed as a whole exactly when none is chunked and every
signature is retrieved. -/
theorem replaysWhole_iff {ms : List (HttpObject ChannelBuffer)} (hms : DecoderEmits false ms)
    (w : World σ) : ReplaysWhole cs storage ms w ↔
      (∀ q, .request q ∈ ms → q.chunked = false) ∧
        AllRetrieved cs storage ms ⟨⟨w.heap, (w.hidden, [])⟩, .opened⟩ := by
  constructor
  · rintro ⟨hthrow, hlen, -⟩
    have hrun := replay_length cs storage ms hthrow
    rw [hlen] at hrun
    have hall := unchunked_of_length hms (hrun.trans (Nat.zero_add _))
    exact ⟨hall, (replay_of_unchunked cs storage ms hms hall).1.mp hthrow⟩
  · rintro ⟨hall, hret⟩
    obtain ⟨hthrow, hkeys⟩ := replay_of_unchunked cs storage ms
      (s := ⟨⟨w.heap, (w.hidden, [])⟩, .opened⟩) hms hall
    have hthrow' := hthrow.mpr hret
    refine ⟨hthrow', ?_, hkeys⟩
    have hrun := replay_length cs storage ms hthrow'
    have hwhole := congrArg List.length (wholeRequests_of_unchunked hms hall)
    rw [List.length_map] at hwhole
    rw [hwhole]
    exact hrun.trans (Nat.zero_add _)

end Replay

/-! ## STUB mode -/

section Stub

variable (context : Context σ)

/-- The handler of STUB mode, under observation. -/
def stubHandler : HttpServerHandler (σ × List (HttpObject ChannelBuffer)) :=
  HttpStubServerHandler (givenContext context)

/-- Extracting the elements of the request, reading the stubs, sorting them, and the loop over
them, which builds the response, return. -/
def Consults (m : HttpObject ChannelBuffer) (s : Session (σ × List (HttpObject ChannelBuffer))) :
    Prop :=
  ∃ elements w1, ((givenContext context).extractor.extract (some (m.deliver s.world.heap).1)).run
      (s.arrived m).world = .ok elements w1 ∧
    ∃ stubData w2, (givenContext context).storage.getStubData.run w1 = .ok stubData w2 ∧
      ∃ order, TimSort.sort StubMatcherComparator.compare stubData = .ok order ∧
        ∃ answer, matchLoop responseWhenHit elements order = .ok answer

theorem returned_consulting_iff (m : HttpObject ChannelBuffer)
    (s : Session (σ × List (HttpObject ChannelBuffer))) :
    Returned (consulting (givenContext context) m s) ↔ Consults context m s := by
  unfold consulting Consults
  simp only [returned_iff, consult_eq_ok_iff]
  constructor
  · rintro ⟨answer, w', elements, w1, hextract, stubData, w2, hstub, order, hsort, hloop, -⟩
    exact ⟨elements, w1, hextract, stubData, w2, hstub, order, hsort, answer, hloop⟩
  · rintro ⟨elements, w1, hextract, stubData, w2, hstub, order, hsort, answer, hloop⟩
    exact ⟨answer, _, elements, w1, hextract, stubData, w2, hstub, order, hsort, hloop, rfl⟩

/-- In the run of the events, they do for each request. -/
def AllConsulted : List Event → Session (σ × List (HttpObject ChannelBuffer)) → Prop
  | [], _ => True
  | e :: es, s =>
    (match e with
      | .client m _ => Consults context m s
      | .remote _ _ => True) ∧
    AllConsulted es ((stubHandler context).step e s)

/-- Each request is decided once, on elements extracted from the whole of it, nothing is thrown,
and what the client and the remote server get besides relayed responses is one message for each
request. -/
def ConsultsWhole (es : List Event) (w : World σ) : Prop :=
  let s : Session (σ × List (HttpObject ChannelBuffer)) := ⟨⟨w.heap, (w.hidden, [])⟩, .opened⟩
  let s' := (stubHandler context).run es s
  let requests := wholeRequests none (clientMessages es)
  NeverThrows (stubHandler context) es s ∧
    s'.world.hidden.2 = requests.map .request ∧
    s'.toClient.length + s'.toRemote.length
      = requests.length + (es.length - (clientMessages es).length)

/-- **A message** is given to the extractor as it arrived, whatever comes of it. -/
theorem given_after_consulting (m : HttpObject ChannelBuffer)
    (s : Session (σ × List (HttpObject ChannelBuffer))) :
    (after (consulting (givenContext context) m s)).hidden.2 = s.world.hidden.2 ++ [m] := by
  have hrest : Keeps (fun w => w.hidden.2)
      (World.component Prod.fst (fun t h => (t, h.2))
          (context.extractor.extract (some (m.deliver s.world.heap).1)) >>= fun elements =>
        (givenContext context).storage.getStubData >>= fun stubData =>
        fromExcept (TimSort.sort StubMatcherComparator.compare stubData) >>=
          fun stubData =>
        modify (fun w =>
          { w with hidden := (givenContext context).storage.sorted stubData w.hidden })
          >>= fun _ =>
        fromExcept (matchLoop responseWhenHit elements stubData)) :=
    keeps_bind (World.keeps_component_fst _) fun _ =>
      keeps_bind (World.keeps_component_fst _) fun _ =>
        keeps_bind (keeps_fromExcept _ _) fun _ =>
          keeps_bind (keeps_modify fun _ => rfl) fun _ => keeps_fromExcept _ _
  have hnote : m = (m.deliver s.world.heap).1.deref (m.deliver s.world.heap).2 :=
    (HttpObject.deref_deliver m s.world.heap).symm
  refine (hrest ⟨(s.arrived m).world.heap, (s.world.hidden.1, s.world.hidden.2 ++
    [(m.deliver s.world.heap).1.deref (m.deliver s.world.heap).2])⟩).trans ?_
  rw [← hnote]

/-- **A message of the client** is given to the extractor; unless the handler throws, it is
answered or passed on. -/
theorem stub_step_client (m : HttpObject ChannelBuffer) (isWritable : Bool)
    (s : Session (σ × List (HttpObject ChannelBuffer))) :
    ∃ s', (stubHandler context).step (.client m isWritable) s = s' ∧
      s'.world.hidden.2 = s.world.hidden.2 ++ [m] ∧
      s'.conn.relayReadingChunks = s.conn.relayReadingChunks ∧
      (Returned ((stubHandler context).outcome (.client m isWritable) s) ↔
        Returned (consulting (givenContext context) m s)) ∧
      (Returned ((stubHandler context).outcome (.client m isWritable) s) →
        s'.toClient.length + s'.toRemote.length
          = s.toClient.length + s.toRemote.length + 1) := by
  obtain ⟨s', hstep, hworld, hrelay, hcase⟩ :=
    HttpStubServerHandler.step_client (givenContext context) m isWritable s
  refine ⟨s', hstep, hworld ▸ given_after_consulting context m s, hrelay, ?_⟩
  rcases hcase with ⟨_, _, hcons, hret, hclient, hremote⟩ | ⟨_, hcons, hret, hclient, hremote⟩ |
    ⟨_, _, hcons, hret, -, -⟩
  · rw [hcons]
    refine ⟨iff_of_true hret (returned_ok _ _), fun _ => ?_⟩
    rw [hclient, hremote, List.length_append, List.length_singleton]
    omega
  · rw [hcons]
    refine ⟨iff_of_true hret (returned_ok _ _), fun _ => ?_⟩
    rw [hclient, hremote, List.length_append, List.length_singleton]
    omega
  · rw [hcons]
    exact ⟨iff_of_false hret (not_returned_error _ _), fun h => absurd h hret⟩

/-- What a run leaves: all messages were given to the extractor, and if nothing was thrown there is
one write for each event. -/
theorem stub_run (es : List Event) :
    ∀ {s : Session (σ × List (HttpObject ChannelBuffer))}, s.conn.relayReadingChunks = false →
    (∀ e ∈ es, e.FromAggregator) →
    ((stubHandler context).run es s).world.hidden.2 = s.world.hidden.2 ++ clientMessages es ∧
      (NeverThrows (stubHandler context) es s ↔ AllConsulted context es s) ∧
      (NeverThrows (stubHandler context) es s →
        ((stubHandler context).run es s).toClient.length
            + ((stubHandler context).run es s).toRemote.length
          = s.toClient.length + s.toRemote.length + es.length) := by
  induction es with
  | nil =>
    intro s _ _
    exact ⟨(List.append_nil _).symm, Iff.rfl, fun _ => rfl⟩
  | cons e es ih =>
    intro s hs hagg
    have hagg' := fun e he => hagg e (List.mem_cons_of_mem _ he)
    cases e with
    | client m w =>
      obtain ⟨s', hstep, hnote, hrelay, hret, hgrow⟩ := stub_step_client context m w s
      obtain ⟨hnotes, hthrow, hlen⟩ := ih (hrelay.trans hs) hagg'
      rw [HttpServerHandler.run, NeverThrows, AllConsulted, hstep]
      refine ⟨?_, and_congr (hret.trans (returned_consulting_iff context m s)) hthrow,
        fun h => ?_⟩
      · rw [hnotes, hnote, List.append_assoc]
        rfl
      · rw [hlen h.2, hgrow h.1, List.length_cons]
        omega
    | remote m w =>
      cases m with
      | request q => exact (hagg _ List.mem_cons_self).elim
      | chunk c => exact (hagg _ List.mem_cons_self).elim
      | response r =>
        obtain ⟨s', hstep, hworld, hrelay, hremote, hclient⟩ :=
          HttpStubServerHandler.step_response (givenContext context) hs
            (hagg _ List.mem_cons_self) w
        have hstep' : (stubHandler context).step (.remote (.response r) w) s = s' := hstep
        obtain ⟨hnotes, hthrow, hlen⟩ := ih hrelay hagg'
        rw [HttpServerHandler.run, NeverThrows, AllConsulted, hstep']
        refine ⟨?_, and_congr Iff.rfl hthrow, fun h => ?_⟩
        · rw [hnotes, hworld]
          rfl
        · rw [hlen h.2, hclient, hremote, List.length_append, List.length_singleton,
            List.length_cons]
          omega

theorem length_clientMessages (es : List Event) : (clientMessages es).length ≤ es.length := by
  induction es with
  | nil => exact Nat.le_refl _
  | cons e es ih =>
    cases e with
    | client m w => exact Nat.succ_le_succ ih
    | remote m w => exact Nat.le_succ_of_le ih

/-- **STUB mode**: each request is decided as a whole exactly when none is chunked and consulting
the stubs returns for each. -/
theorem consultsWhole_iff {es : List Event} (hes : DecoderEmits false (clientMessages es))
    (hagg : ∀ e ∈ es, e.FromAggregator) (w : World σ) : ConsultsWhole context es w ↔
      (∀ q, .request q ∈ clientMessages es → q.chunked = false) ∧
        AllConsulted context es ⟨⟨w.heap, (w.hidden, [])⟩, .opened⟩ := by
  obtain ⟨hnotes, hthrow, hlen⟩ := stub_run context es
    (s := ⟨⟨w.heap, (w.hidden, [])⟩, .opened⟩) rfl hagg
  rw [List.nil_append] at hnotes
  unfold ConsultsWhole
  simp only [hnotes, hthrow]
  constructor
  · rintro ⟨hret, hgiven, -⟩
    refine ⟨unchunked_of_length hes ?_, hret⟩
    have := congrArg List.length hgiven
    rw [List.length_map] at this
    exact this.symm
  · rintro ⟨hall, hret⟩
    have hwhole := wholeRequests_of_unchunked hes hall
    have hcount := congrArg List.length hwhole
    rw [List.length_map] at hcount
    refine ⟨hret, hwhole.symm, ?_⟩
    rw [hlen (hthrow.mpr hret), hcount]
    have := length_clientMessages es
    have hzero : (⟨⟨w.heap, (w.hidden, ([] : List (HttpObject ChannelBuffer)))⟩, .opened⟩ :
      Session (σ × List (HttpObject ChannelBuffer))).toClient.length = 0 := rfl
    have hzero' : (⟨⟨w.heap, (w.hidden, ([] : List (HttpObject ChannelBuffer)))⟩, .opened⟩ :
      Session (σ × List (HttpObject ChannelBuffer))).toRemote.length = 0 := rfl
    omega

end Stub

/-! ## Both modes -/

/-- **Chunked requests**: in REPLAY and in STUB mode each request is handled once and as a whole,
without an exception, exactly when no request is chunked and the components return. -/
theorem handled_whole_iff {τ : Type} (cs : Charset) (storage : RecordStorage σ)
    (context : Context τ) {ms : List (HttpObject ChannelBuffer)} (hms : DecoderEmits false ms)
    {es : List Event} (hes : DecoderEmits false (clientMessages es))
    (hagg : ∀ e ∈ es, e.FromAggregator) (w : World σ) (w' : World τ) :
    (ReplaysWhole cs storage ms w ↔
        (∀ q, .request q ∈ ms → q.chunked = false) ∧
          AllRetrieved cs storage ms ⟨⟨w.heap, (w.hidden, [])⟩, .opened⟩) ∧
      (ConsultsWhole context es w' ↔
        (∀ q, .request q ∈ clientMessages es → q.chunked = false) ∧
          AllConsulted context es ⟨⟨w'.heap, (w'.hidden, [])⟩, .opened⟩) :=
  ⟨replaysWhole_iff cs storage hms w, consultsWhole_iff context hes hagg w'⟩

theorem get_handled_whole :
    ReplaysWhole utf8 (CacheStorage.recordStorage .newest) [.request (.get "/a")]
        CacheStorage.emptyWorld ∧
      ConsultsWhole plainContext (fromClient [.request (.get "/a")]) CacheStorage.emptyWorld := by
  have hms : DecoderEmits false [.request (HttpRequest.get "/a")] := trivial
  have hunchunked : ∀ q, HttpObject.request q ∈ [.request (HttpRequest.get "/a")] →
      q.chunked = false := by
    intro q hq
    rw [HttpObject.request.inj (List.mem_singleton.mp hq)]
    rfl
  obtain ⟨hreplay, hstub⟩ :=
    handled_whole_iff utf8 (CacheStorage.recordStorage .newest) plainContext hms
    (show DecoderEmits false (clientMessages (fromClient [.request (.get "/a")])) from hms)
    (by decide) CacheStorage.emptyWorld CacheStorage.emptyWorld
  refine ⟨hreplay.mpr ⟨hunchunked, ?_, trivial⟩, hstub.mpr ⟨hunchunked, ?_, trivial⟩⟩
  · obtain ⟨key, hkey, -⟩ := DefaultHttpSigner.signature_ok utf8 (HttpRequest.get "/a")
    exact ⟨key, hkey, trivial⟩
  · exact ⟨_, _, rfl, _, _, rfl, _, rfl, _, rfl⟩

/-- The header of a chunked request is answered, or passed on, without the body, and then its
first chunk makes the handler throw. -/
theorem chunkedPost_not_whole :
    DecoderEmits false (chunkedPost "/a") ∧
    ¬ ReplaysWhole utf8 (CacheStorage.recordStorage .newest) (chunkedPost "/a")
        CacheStorage.emptyWorld ∧
      ¬ ConsultsWhole plainContext (fromClient (chunkedPost "/a")) CacheStorage.emptyWorld :=
  ⟨trivial, fun h => absurd h.1.2.1 (by decide +kernel),
    fun h => absurd h.1.2.1 (by decide +kernel)⟩

end Terminator.Server.Chunked
