import Terminator.Plugin.MD5OfString
import Terminator.Server.Link

/-!
# Record, then replay

What a link answers in REPLAY mode after it has recorded exchanges in RECORD mode. Both signatures
are of the request as it arrived: signing happens before anything else reads its body, and what
signing drains is the object of one message.

* **`replays_last_recorded`**: the response recorded last under the signature of the request, if the
  storage still has it, or the default one;
* **`hit_of_signature`**: nothing but a response that was recorded under that signature. The text
  that is hashed has no separators, so it determines the parts of a request only among requests
  whose parts have the same lengths (`DefaultHttpSigner.SameShape`).
-/

namespace Terminator.Server.Link

open Terminator.Java Terminator.Netty Terminator.Storage Terminator.Plugin Terminator.Digest
open DefaultHttpSigner StorageFactory HttpReplayServerHandler
open Terminator.Run (Meets)

variable {σ : Type} {cs : Charset} {S : RecordStorage σ} {hist : History}

/-! ## A request in REPLAY mode -/

/-- What is written for a bundle that was found. -/
def answerOf (b : RequestResponseBundle ChannelBuffer) : HttpObject (List Byte) :=
  match b.response with
  | none => responseWhenNotHit
  | some response => response.wire

/-- Signing a request drains a new object, and the storage has no reference to it. -/
theorem holds_signed (R : Refines S) {s : Session σ} (hw : R.Holds s.world hist)
    (q : HttpRequest ChannelBuffer) : R.Holds (signed q s) hist := by
  refine R.holds_of_heap hw ?_ fun x hx => ?_
  · rw [ChannelBuffer.size_drain]
    exact Nat.le_of_lt (Nat.lt_of_lt_of_eq (Nat.lt_succ_self _)
      (HttpObject.size_deliver (.request q) _).symm)
  · have hlt := R.keeps_lt hw hx
    rw [ChannelBuffer.get_drain_ne (Ne.symm (Nat.ne_of_lt hlt))]
    exact HttpObject.get_deliver_of_lt hlt (.request q)

/-- **Replaying a request** for which the storage finds `bundle`. -/
theorem replaying_of_get {q : HttpRequest ChannelBuffer} {s : Session σ}
    {bundle : RequestResponseBundle Ref} {h : Heap ChannelBuffer}
    (hget : (S.getRecordData (keyOf cs q)).run (signed q s) = .ok bundle ⟨h, s.world.hidden⟩) :
    after (replaying (DefaultHttpSigner cs) S (.request q) s) = ⟨h, s.world.hidden⟩ ∧
      (BaseSigner.Loggable (bundle.deref h).response →
        replaying (DefaultHttpSigner cs) S (.request q) s
          = .ok (answerOf (bundle.deref h)) ⟨h, s.world.hidden⟩) ∧
      ∀ response w, replaying (DefaultHttpSigner cs) S (.request q) s = .ok response w →
        response = answerOf (bundle.deref h) := by
  let respond : Method (World σ) (HttpObject (List Byte)) :=
    BaseReplayServerHandler.respond responseWhenNotHit bundle
  have hsplit : replaying (DefaultHttpSigner cs) S (.request q) s
      = ((DefaultHttpSigner cs).logResponse bundle >>= fun _ => respond).run
          ⟨h, s.world.hidden⟩ :=
    (replaying_request_eq S cs q s).trans (run_bind_of_ok hget)
  have hanswer : respond.run ⟨h, s.world.hidden⟩
      = .ok (answerOf (bundle.deref h)) ⟨h, s.world.hidden⟩ := by
    unfold answerOf
    obtain ⟨-, response⟩ := bundle
    cases response <;> rfl
  have hlogsize : after (((DefaultHttpSigner cs).logResponse bundle).run ⟨h, s.world.hidden⟩)
      = (⟨h, s.world.hidden⟩ : World σ) := by
    have hlog : after (((DefaultHttpSigner cs).logResponse bundle).run ⟨h, s.world.hidden⟩)
        = (⟨after ((BaseSigner.logResponse bundle).run h), s.world.hidden⟩ : World σ) := after_zoom
    rw [hlog, (BaseSigner.logResponse_run bundle h).1]
  rw [hsplit]
  cases hlog : ((DefaultHttpSigner cs).logResponse bundle).run
      (⟨h, s.world.hidden⟩ : World σ) with
  | ok a w =>
    rw [hlog, after_ok] at hlogsize
    rw [run_bind_of_ok hlog, hlogsize, hanswer]
    exact ⟨rfl, fun _ => rfl, fun response w hok => (EStateM.Result.ok.inj hok).1.symm⟩
  | error e w =>
    rw [hlog, after_error] at hlogsize
    rw [run_bind_of_error hlog]
    refine ⟨hlogsize, fun hl => ?_, fun response w hok => by cases hok⟩
    have hok : ((DefaultHttpSigner cs).logResponse bundle).run ⟨h, s.world.hidden⟩
        = .ok () (⟨h, s.world.hidden⟩ : World σ) :=
      World.run_onHeap_of_ok (BaseSigner.logResponse_run_of_loggable hl)
    rw [hlog] at hok
    cases hok

/-- **No message** in REPLAY mode changes the storage, or what it holds. -/
theorem holds_after_replaying (R : Refines S) {s : Session σ} (hw : R.Holds s.world hist)
    (m : HttpObject ChannelBuffer) :
    R.Holds (after (replaying (DefaultHttpSigner cs) S m s)) hist ∧
      (after (replaying (DefaultHttpSigner cs) S m s)).hidden = s.world.hidden := by
  have harrived : R.Holds (s.arrived m).world hist :=
    R.holds_of_heap hw (Nat.le_of_lt (Nat.lt_of_lt_of_eq (Nat.lt_succ_self _)
      (HttpObject.size_deliver m _).symm)) fun x hx =>
        HttpObject.get_deliver_of_lt (R.keeps_lt hw hx) m
  have hthrown : ∀ e, requestOf (some (m.deliver s.world.heap).1) = .error e →
      after (replaying (DefaultHttpSigner cs) S m s) = (s.arrived m).world := by
    intro e he
    have hsign : ((DefaultHttpSigner cs).sign (some (m.deliver s.world.heap).1)).run
        (s.arrived m).world = .error e (s.arrived m).world :=
      World.run_onHeap_of_error (sign_run_error cs he _)
    unfold replaying BaseReplayServerHandler.replay
    rw [run_bind_of_error hsign, after_error]
  cases m with
  | response r =>
    rw [hthrown .classCast rfl]
    exact ⟨harrived, rfl⟩
  | chunk c =>
    rw [hthrown .classCast rfl]
    exact ⟨harrived, rfl⟩
  | request q =>
    have hsigned := holds_signed R hw q
    obtain ⟨bundle, h, hget, -, -, hsize, hold⟩ := R.get hsigned (signature_eq cs q).2
    have hheld : R.Holds ⟨h, (signed q s).hidden⟩ hist :=
      R.holds_of_heap hsigned hsize fun x hx => hold x (R.keeps_lt hsigned hx)
    rw [(replaying_of_get hget).1]
    exact ⟨hheld, rfl⟩

/-- The events are messages of clients. -/
def FromClients (es : List (Nat × Event)) : Prop :=
  ∀ e ∈ es, ∃ m isWritable, e.2 = .client m isWritable

theorem run_replaying (R : Refines S) {es : List (Nat × Event)} (hes : FromClients es) :
    ∀ {l : Link σ}, R.Holds l.world hist →
    R.Holds (run (HttpReplayServerHandler (DefaultHttpSigner cs) S) es l).world hist ∧
      (run (HttpReplayServerHandler (DefaultHttpSigner cs) S) es l).world.hidden
        = l.world.hidden := by
  induction es with
  | nil => exact fun hl => ⟨hl, rfl⟩
  | cons e es ih =>
    intro l hl
    obtain ⟨k, e⟩ := e
    obtain ⟨m, isWritable, he⟩ := hes _ List.mem_cons_self
    obtain rfl : e = .client m isWritable := he
    obtain ⟨s', hstep, hworld, -⟩ :=
      HttpReplayServerHandler.step_client (DefaultHttpSigner cs) S m isWritable (l.session k)
    obtain ⟨hheld, hhidden⟩ := @holds_after_replaying σ cs S hist R (l.session k) hl m
    rw [← hworld] at hheld hhidden
    have hnext : (l.step (HttpReplayServerHandler (DefaultHttpSigner cs) S)
        (k, .client m isWritable)).world = s'.world := by rw [Link.step, hstep, world_set]
    obtain ⟨hrun, hsame⟩ := ih (fun e he => hes e (List.mem_cons_of_mem _ he)) (hnext ▸ hheld)
    exact ⟨hrun, hsame.trans (hnext ▸ hhidden)⟩

/-! ## What was recorded under a key -/

/-- Under a key something was put under, the last of it is found. -/
theorem lookup_puts (cs : Charset)
    (done : List (HttpRequest ChannelBuffer × HttpResponse ChannelBuffer)) (key : JString)
    (h : ∃ e ∈ done, keyOf cs e.1 = key) :
    ∃ earlier e later, done = earlier ++ e :: later ∧ keyOf cs e.1 = key ∧
      (∀ x ∈ later, keyOf cs x.1 ≠ key) ∧
      (lookup (puts cs done) key).response = some (.response e.2) := by
  induction done using List.reverseRecOn with
  | nil =>
    obtain ⟨e, he, -⟩ := h
    exact absurd he List.not_mem_nil
  | append_singleton done e ih =>
    have hputs : puts cs (done ++ [e]) = puts cs done ++ [(keyOf cs e.1,
        ⟨some (.request (e.1.map ChannelBuffer.drained)), some (.response e.2)⟩)] := by
      simp [puts]
    rw [hputs, lookup_concat]
    by_cases hkey : keyOf cs e.1 = key
    · refine ⟨done, e, [], rfl, hkey, fun x hx => absurd hx List.not_mem_nil, ?_⟩
      rw [if_pos hkey]
    · obtain ⟨e', he', hkey'⟩ := h
      rcases List.mem_append.mp he' with he' | he'
      · obtain ⟨earlier, last, later, hdone, hlast, hlater, hlook⟩ := ih ⟨e', he', hkey'⟩
        refine ⟨earlier, last, later ++ [e], by rw [hdone]; simp, hlast, fun x hx => ?_, ?_⟩
        · rcases List.mem_append.mp hx with hx | hx
          · exact hlater x hx
          · rw [List.mem_singleton.mp hx]
            exact hkey
        · rw [if_neg hkey]
          exact hlook
      · rw [List.mem_singleton.mp he'] at hkey'
        exact absurd hkey' hkey

/-- Under any other key nothing is found. -/
theorem lookup_puts_none (cs : Charset)
    {done : List (HttpRequest ChannelBuffer × HttpResponse ChannelBuffer)} {key : JString}
    (h : ∀ e ∈ done, keyOf cs e.1 ≠ key) : lookup (puts cs done) key = .empty := by
  refine lookup_of_forall_ne fun p hp => ?_
  obtain ⟨e, he, rfl⟩ := List.mem_map.mp hp
  exact h e he

/-! ## Both modes -/

section Modes

variable {type : StorageType} (env : type.Env)

/-- The link after it has recorded the events, and then been switched to REPLAY mode. -/
def recorded (cs : Charset) (es : List (Nat × Event)) (w : World type.State) :
    Link type.State :=
  opened (run (HttpRecordServerHandler (DefaultHttpSigner cs) (getStorage env)) es (opened w)).world

/-- The link in REPLAY mode after these events. -/
def replayed (cs : Charset) (es before : List (Nat × Event)) (w : World type.State) :
    Link type.State :=
  run (HttpReplayServerHandler (DefaultHttpSigner cs) (getStorage env)) before
    (recorded env cs es w)

/-- What a request then adds to what its connection was sent. -/
def Answers (cs : Charset) (es before : List (Nat × Event)) (w : World type.State) (k : Nat)
    (q : HttpRequest ChannelBuffer) (isWritable : Bool)
    (responses : List (HttpObject (List Byte))) : Prop :=
  (((replayed env cs es before w).step
      (HttpReplayServerHandler (DefaultHttpSigner cs) (getStorage env))
      (k, .client (.request q) isWritable)).conns k).inboundChannel.written
    = ((replayed env cs es before w).conns k).inboundChannel.written ++ responses

variable {env} {es before : List (Nat × Event)} {w : World type.State}

/-- The answer is what replaying the request gives, if it returns. -/
theorem answers_of_replaying (k : Nat) (q : HttpRequest ChannelBuffer) (isWritable : Bool) :
    (∀ response w', replaying (DefaultHttpSigner cs) (getStorage env) (.request q)
        ((replayed env cs es before w).session k) = .ok response w' →
      Answers env cs es before w k q isWritable [response]) ∧
    (¬ Returned (replaying (DefaultHttpSigner cs) (getStorage env) (.request q)
        ((replayed env cs es before w).session k)) →
      Answers env cs es before w k q isWritable []) := by
  obtain ⟨s', hstep, -, -, hcase⟩ := HttpReplayServerHandler.step_client (DefaultHttpSigner cs)
    (getStorage env) (.request q) isWritable ((replayed env cs es before w).session k)
  unfold Answers
  rw [Link.step, hstep, conns_set_self]
  rcases hcase with ⟨response, w', hrep, -, hclient⟩ | ⟨⟨e, w', hrep⟩, -, hclient⟩
  · rw [hrep]
    refine ⟨fun response' w'' hok => ?_, fun h => absurd (returned_ok _ _) h⟩
    rw [← (EStateM.Result.ok.inj hok).1]
    exact hclient
  · rw [hrep]
    refine ⟨fun response w'' hok => ?_, fun _ => hclient.trans (List.append_nil _).symm⟩
    cases hok

/-- A recorded response that is array-backed can be logged. -/
theorem loggable_lookup {done : List (HttpRequest ChannelBuffer × HttpResponse ChannelBuffer)}
    (harray : ∀ e ∈ done, e.2.content.hasArray = true) (key : JString) :
    BaseSigner.Loggable (lookup (puts cs done) key).response := by
  by_cases h : ∃ e ∈ done, keyOf cs e.1 = key
  · obtain ⟨earlier, e, later, hdone, -, -, hlook⟩ := lookup_puts cs done key h
    rw [hlook]
    exact fun _ => harray e (by rw [hdone]; simp)
  · rw [lookup_puts_none cs fun e he hkey => h ⟨e, he, hkey⟩]
    trivial

/-- No event of the recording takes away what the storage has under a key. -/
def NothingEvicted (env : type.Env) (cs : Charset) (es : List (Nat × Event))
    (w : World type.State) : Prop :=
  Meets (fun e l => l.step (HttpRecordServerHandler (DefaultHttpSigner cs) (getStorage env)) e)
    (fun e l => ∀ key, Has env l.world.hidden key → Has env (l.step
      (HttpRecordServerHandler (DefaultHttpSigner cs) (getStorage env)) e).world.hidden key)
    es (opened w)

/-- What the storage holds when the link is switched. -/
theorem holds_recorded (cs : Charset) (R : Refines (getStorage env)) (hw : R.Holds w [])
    (hes : Orderly idle es) :
    R.Holds (recorded env cs es w).world (puts cs (exchanges idle es)) := by
  have hrec : R.Holds _ ([] ++ puts cs (exchanges idle es)) :=
    run_recording es (recording_opened hw) hes
  exact hrec

/-- In REPLAY mode the storage is still what the recording has left. -/
theorem holds_replayed (cs : Charset) (R : Refines (getStorage env)) (hw : R.Holds w [])
    (hes : Orderly idle es) (hbefore : FromClients before) :
    R.Holds (replayed env cs es before w).world (puts cs (exchanges idle es)) ∧
      (replayed env cs es before w).world.hidden = (recorded env cs es w).world.hidden :=
  run_replaying R hbefore (holds_recorded cs R hw hes)

/-- If nothing was evicted, the storage has every signature that was recorded. -/
theorem has_recorded (cs : Charset) (hfresh : Fresh env w.hidden) (hes : Orderly idle es)
    (hkept : NothingEvicted env cs es w) :
    ∀ e ∈ exchanges idle es, Has env (recorded env cs es w).world.hidden (keyOf cs e.1) := by
  intro e he
  unfold NothingEvicted at hkept
  rw [← has_refines env] at hkept ⊢
  refine has_of_run_recording es (recording_opened (holds_of_fresh hfresh w.heap)) hes
    (fun p hp => absurd hp List.not_mem_nil) hkept
    (keyOf cs e.1, ⟨some (.request (e.1.map ChannelBuffer.drained)), some (.response e.2)⟩) ?_
  exact List.mem_append_right _ (List.mem_map.mpr ⟨e, he, rfl⟩)

theorem signature_eq_iff (cs : Charset) (r r' : HttpRequest ChannelBuffer) :
    signature cs r = signature cs r' ↔ keyOf cs r = keyOf cs r' := by
  rw [(signature_eq cs r).1, (signature_eq cs r').1, Except.ok.injEq]

/-- **What a request is answered with**: what was put last under its signature, if the storage still
has it, or else the default response. -/
theorem answers_recorded (cs : Charset) (hfresh : Fresh env w.hidden) (hes : Orderly idle es)
    (hbefore : FromClients before) (k : Nat) (q : HttpRequest ChannelBuffer) (isWritable : Bool) :
    let b := lookup (puts cs (exchanges idle es)) (keyOf cs q)
    (Has env (recorded env cs es w).world.hidden (keyOf cs q) →
      (BaseSigner.Loggable b.response → Answers env cs es before w k q isWritable [answerOf b]) ∧
      (Answers env cs es before w k q isWritable [] ∨
        Answers env cs es before w k q isWritable [answerOf b])) ∧
    (¬ Has env (recorded env cs es w).world.hidden (keyOf cs q) →
      Answers env cs es before w k q isWritable [responseWhenNotHit]) := by
  obtain ⟨hheld, hhidden⟩ :=
    holds_replayed cs (refines env) (holds_of_fresh hfresh w.heap) hes hbefore
  let s := (replayed env cs es before w).session k
  have hsigned : (refines env).Holds (signed q s) (puts cs (exchanges idle es)) :=
    holds_signed (s := s) (refines env) hheld q
  obtain ⟨bundle, h, hget, hhas, hno, -⟩ := (refines env).get hsigned (signature_eq cs q).2
  have hsame : (signed q s).hidden = (recorded env cs es w).world.hidden := hhidden
  rw [hsame, has_refines] at hhas hno
  obtain ⟨-, hlog, hok⟩ := replaying_of_get (q := q) (s := s) hget
  obtain ⟨hreturns, hthrows⟩ :=
    @answers_of_replaying cs type env es before w k q isWritable
  dsimp only
  refine ⟨fun hkept => ?_, fun hlost => ?_⟩
  · rw [hhas hkept] at hlog hok
    refine ⟨fun hl => hreturns _ _ (hlog hl), ?_⟩
    by_cases hret : Returned (replaying (DefaultHttpSigner cs) (getStorage env) (.request q) s)
    · obtain ⟨response, w', hrep⟩ := returned_iff.mp hret
      have hanswer := hreturns _ _ hrep
      rw [hok _ _ hrep] at hanswer
      exact .inr hanswer
    · exact .inl (hthrows hret)
  · rw [hno hlost, RequestResponseBundle.deref_empty] at hlog
    exact hreturns _ _ (hlog trivial)

/-- **Record, then replay**: a request with the parts of a recorded one is answered with the
response recorded last under its signature, if the storage still has it. If it has not, or the
signature was not recorded, the answer is the default response. A storage that evicts nothing has
every signature that was recorded. -/
theorem replays_last_recorded (cs : Charset) (hfresh : Fresh env w.hidden)
    (hes : Orderly idle es) (harray : ∀ e ∈ exchanges idle es, e.2.content.hasArray = true)
    (hbefore : FromClients before) (k : Nat) (q : HttpRequest ChannelBuffer) (isWritable : Bool) :
    ((∃ e ∈ exchanges idle es, SameParts e.1 q) →
      Has env (recorded env cs es w).world.hidden (keyOf cs q) →
      ∃ earlier e later, exchanges idle es = earlier ++ e :: later ∧
        signature cs e.1 = signature cs q ∧
        (∀ x ∈ later, signature cs x.1 ≠ signature cs q) ∧
        Answers env cs es before w k q isWritable [(HttpObject.response e.2).wire]) ∧
      (¬ Has env (recorded env cs es w).world.hidden (keyOf cs q) →
        Answers env cs es before w k q isWritable [responseWhenNotHit]) ∧
      ((∀ e ∈ exchanges idle es, signature cs e.1 ≠ signature cs q) →
        Answers env cs es before w k q isWritable [responseWhenNotHit]) ∧
      (NothingEvicted env cs es w → ∀ e ∈ exchanges idle es,
        Has env (recorded env cs es w).world.hidden (keyOf cs e.1)) := by
  obtain ⟨hkept, hlost⟩ := answers_recorded cs hfresh hes hbefore k q isWritable
  refine ⟨?_, hlost, fun hnone => ?_, has_recorded cs hfresh hes⟩
  · rintro ⟨e, he, hparts⟩ hhas
    have hanswer := (hkept hhas).1 (loggable_lookup harray _)
    have hkey : keyOf cs e.1 = keyOf cs q := by
      rw [← signature_eq_iff, signature, signature, signText_congr cs hparts]
    obtain ⟨earlier, last, later, hdone, hlast, hlater, hresp⟩ :=
      lookup_puts cs (exchanges idle es) (keyOf cs q) ⟨e, he, hkey⟩
    refine ⟨earlier, last, later, hdone, (signature_eq_iff cs _ _).mpr hlast,
      fun x hx hsig => hlater x hx ((signature_eq_iff cs _ _).mp hsig), ?_⟩
    have hwire : answerOf (lookup (puts cs (exchanges idle es)) (keyOf cs q))
        = (HttpObject.response last.2).wire := by
      unfold answerOf
      rw [hresp]
    rw [hwire] at hanswer
    exact hanswer
  · by_cases hhas : Has env (recorded env cs es w).world.hidden (keyOf cs q)
    · have hanswer := (hkept hhas).1 (loggable_lookup harray _)
      have hempty : lookup (puts cs (exchanges idle es)) (keyOf cs q) = .empty :=
        lookup_puts_none cs fun e he hkey => hnone e he ((signature_eq_iff cs _ _).mpr hkey)
      rw [hempty] at hanswer
      exact hanswer
    · exact hlost hhas

/-- `GET /a` on a connection, answered by the byte `a`. -/
def getExchange : List (Nat × Event) :=
  [(0, .client (.request (.get "/a")) true),
    (0, .remote (.response (.ok (.wrapped [0x61] true))) true)]

theorem orderly_getExchange : Orderly idle getExchange := ⟨rfl, rfl, by decide, rfl, rfl, trivial⟩

theorem has_getExchange :
    Has cacheEnv (recorded cacheEnv utf8 getExchange CacheStorage.emptyWorld).world.hidden
      (keyOf utf8 (.get "/a")) := by
  have hheld : CacheStorage.Sound _ _ := holds_recorded utf8 (refines cacheEnv)
    (CacheStorage.sound_nil ⟨[]⟩ []) orderly_getExchange
  have hlast : (puts utf8 (exchanges idle getExchange)).getLast? = some (keyOf utf8 (.get "/a"),
      ⟨some (.request ((HttpRequest.get "/a").map ChannelBuffer.drained)),
        some (.response (.ok (.wrapped [0x61] true)))⟩) := rfl
  exact hheld.newest_mem _ hlast

theorem get_replayed :
    Answers cacheEnv utf8 getExchange [] CacheStorage.emptyWorld 1
      (.get "/a") true [(HttpObject.response (.ok (.wrapped [0x61] true))).wire] := by
  obtain ⟨earlier, e, later, hdone, -, -, h⟩ :=
    (@replays_last_recorded .CACHE cacheEnv getExchange [] CacheStorage.emptyWorld utf8 rfl
      orderly_getExchange (by decide) (fun e he => absurd he List.not_mem_nil) 1 (.get "/a") true).1
      ⟨_, List.mem_cons_self, rfl, rfl, rfl, rfl⟩ has_getExchange
  have hsingle : [(HttpRequest.get "/a", HttpResponse.ok (.wrapped [0x61] true))]
      = earlier ++ e :: later := hdone
  cases earlier with
  | nil =>
    rw [← (List.cons.inj hsingle).1] at h
    exact h
  | cons x earlier => simp at hsingle

/-- **A hit** in REPLAY mode is a response that was recorded under the signature of the request,
whatever a cache has evicted. -/
theorem hit_of_signature (cs : Charset) (hfresh : Fresh env w.hidden) (hes : Orderly idle es)
    (hbefore : FromClients before) (k : Nat) (q : HttpRequest ChannelBuffer) (isWritable : Bool) :
    Answers env cs es before w k q isWritable [] ∨
      Answers env cs es before w k q isWritable [responseWhenNotHit] ∨
      ∃ e ∈ exchanges idle es, signature cs e.1 = signature cs q ∧
        Answers env cs es before w k q isWritable [(HttpObject.response e.2).wire] := by
  obtain ⟨hkept, hlost⟩ := answers_recorded cs hfresh hes hbefore k q isWritable
  by_cases hhas : Has env (recorded env cs es w).world.hidden (keyOf cs q)
  · refine (hkept hhas).2.imp_right fun hanswer => ?_
    by_cases hkey : ∃ e ∈ exchanges idle es, keyOf cs e.1 = keyOf cs q
    · obtain ⟨earlier, e, later, hdone, hkey, -, hresp⟩ :=
        lookup_puts cs (exchanges idle es) (keyOf cs q) hkey
      refine .inr ⟨e, by rw [hdone]; simp, (signature_eq_iff cs _ _).mpr hkey, ?_⟩
      unfold answerOf at hanswer
      rw [hresp] at hanswer
      exact hanswer
    · rw [lookup_puts_none cs fun e he hk => hkey ⟨e, he, hk⟩] at hanswer
      exact .inl hanswer
  · exact .inr (.inl (hlost hhas))

end Modes

end Terminator.Server.Link
