import Terminator.Server.StubForms

/-!
# Requests one after the other in STUB mode

`messageReceived` sorts the list `getStubData` returns, and that is the list of the storage itself:
a request leaves its stubs as the sort left them, for the next one. The sort reverses the NOT stubs
(`TimSort.leadFirst`), so the second request finds them the other way round.

**`independent_iff`**: over any messages, the stubs stay in their order, and equal elements are
treated equally, iff no request gets as far as a sort that reorders the list: a sort that does not
throw reorders it iff a NOT stub stands behind its first stub.
-/

namespace Terminator.Server.StubTraffic

open Terminator.Java Terminator.Netty Terminator.Storage Terminator.Plugin Terminator.Run
open BaseStubServerHandler HttpStubServerHandler StubPriority StubForms

section Traffic

variable {ε : Type} (extractor : Extractor ε)

/-! ## What a request gets -/

/-- What can become of a request. -/
inductive Treatment where
  /-- The response of this stub. -/
  | answered (data : StubData)
  | forwarded
  /-- The handler threw. -/
  | failed

/-- The session shows this treatment of the request `m`. -/
def Treated (m : HttpObject ChannelBuffer) (s s' : Session (CacheStorage × ε)) :
    Treatment → Prop
  | .answered data => ∃ response, responseWhenHit data.response = .ok response ∧
      s'.toClient = s.toClient ++ [response] ∧ s'.toRemote = s.toRemote
  | .forwarded => s'.toClient = s.toClient ∧
      s'.toRemote = s.toRemote ++ [s'.wire (m.deliver s.world.heap).1]
  | .failed => s'.toClient = s.toClient ∧ s'.toRemote = s.toRemote

/-- A message from the client, at a connection in some state. -/
structure Arrival where
  conn : Connection
  message : HttpObject ChannelBuffer
  isWritable : Bool

/-- An event at a connection: no stub is added or deleted. -/
abbrev Traffic := Connection × Server.Event

/-- The event it is. -/
def Arrival.event (a : Arrival) : Traffic := (a.conn, .client a.message a.isWritable)

/-- One event. -/
def handle (e : Traffic) (s : Stubbing ε) : Stubbing ε :=
  StubForms.step extractor (.message e.1 e.2) s

/-- The session it comes to. -/
def Arrival.session (a : Arrival) (s : Stubbing ε) : Session (CacheStorage × ε) := ⟨s.world, a.conn⟩

/-- The extraction returns these elements. -/
def Arrival.Has (a : Arrival) (s : Stubbing ε) (elements : List RequestElement) : Prop :=
  ∃ w, ((context extractor).extractor.extract
    (some (a.message.deliver s.world.heap).1)).run ((a.session s).arrived a.message).world =
      .ok elements w

/-- The request is treated so. -/
def Arrival.Gets (a : Arrival) (s : Stubbing ε) (t : Treatment) : Prop :=
  Treated a.message (a.session s) ((HttpStubServerHandler (context extractor)).step
    (.client a.message a.isWritable) (a.session s)) t

/-- **Replies do not depend on earlier traffic**: two requests of the run with equal elements are
treated equally, and the stubs keep the order they had at its beginning. -/
structure Independent (es : List Traffic) (s : Stubbing ε) : Prop where
  same : ∀ (a a' : Arrival) (es1 es2 es1' es2' : List Traffic),
    es = es1 ++ a.event :: es2 → es = es1' ++ a'.event :: es2' →
      ∀ elements, a.Has extractor (run (handle extractor) es1 s) elements →
        a'.Has extractor (run (handle extractor) es1' s) elements →
          ∃ t, a.Gets extractor (run (handle extractor) es1 s) t ∧
            a'.Gets extractor (run (handle extractor) es1' s) t
  order : Always (handle extractor) (fun s' => s'.stubDataCache = s.stubDataCache) es s

/-! ## The condition -/

/-- No NOT stub stands behind the first stub; or the sort throws, as the merges of a long list
may. -/
def OrderKept (stubData : List StubData) : Prop :=
  (∀ data ∈ stubData.tail, isNot data = false) ∨
    ∀ order, TimSort.sort StubMatcherComparator.compare stubData ≠ .ok order

/-- An event after which the stubs stand as before: it is no request, or its extraction does not
return, or the sort keeps the order. -/
def Quiet (e : Traffic) (s : Stubbing ε) : Prop :=
  ∀ (a : Arrival) elements, e = a.event → a.Has extractor s elements →
    OrderKept s.stubDataCache

variable {extractor}

theorem sorted_eq_self_iff {stubData : List StubData}
    (hop : ∀ data ∈ stubData, data.operator ≠ none)
    (hids : (stubData.map StubData.id).Nodup) :
    sorted stubData = stubData ↔ OrderKept stubData := by
  have hnodup : stubData.Nodup := List.Nodup.of_map _ hids
  unfold sorted OrderKept
  cases hsort : TimSort.sort StubMatcherComparator.compare stubData with
  | error e =>
    refine ⟨fun _ => .inr fun order horder => ?_, fun _ => rfl⟩
    cases horder
  | ok order =>
    rw [or_iff_left (fun h => h order rfl),
      ← TimSort.sort_eq_self_iff leading_compare tells_compare hop hnodup, hsort, Except.ok.injEq]

/-! ## The treatment -/

/-- What the stubs say of these elements. -/
def treatment (elements : List RequestElement) (stubData : List StubData) : Treatment :=
  match TimSort.sort StubMatcherComparator.compare stubData with
  | .error _ => .failed
  | .ok order =>
    match order.find? (fun data => !rejects elements data) with
    | none => .forwarded
    | some data =>
      match accepts elements data, responseWhenHit data.response with
      | true, .ok _ => .answered data
      | _, _ => .failed

section Answer

variable {elements : List RequestElement} {stubData order : List StubData}

theorem treatment_of_some {response : HttpObject (List Byte)}
    (hsort : TimSort.sort StubMatcherComparator.compare stubData = .ok order)
    (h : Chosen elements order (some response)) :
    ∃ data, treatment elements stubData = .answered data ∧
      responseWhenHit data.response = .ok response := by
  unfold Chosen at h
  unfold treatment
  rw [hsort]
  dsimp only
  cases hfind : order.find? (fun data => !rejects elements data) with
  | none =>
    rw [hfind] at h
    cases h
  | some data =>
    rw [hfind] at h
    obtain ⟨haccepts, response', hresponse, heq⟩ := h
    obtain rfl := Option.some.inj heq
    exact ⟨data, by simp [haccepts, hresponse], hresponse⟩

theorem treatment_of_none
    (hsort : TimSort.sort StubMatcherComparator.compare stubData = .ok order)
    (h : Chosen elements order none) : treatment elements stubData = .forwarded := by
  unfold Chosen at h
  unfold treatment
  rw [hsort]
  dsimp only
  cases hfind : order.find? (fun data => !rejects elements data) with
  | none => rfl
  | some data =>
    rw [hfind] at h
    obtain ⟨-, response, -, heq⟩ := h
    cases heq

/-- No answer is what the loop comes to. -/
theorem treatment_of_failed
    (h : ∀ answer, ¬ ∃ order, TimSort.sort StubMatcherComparator.compare stubData =
      .ok order ∧ Chosen elements order answer) :
    treatment elements stubData = .failed := by
  unfold treatment
  cases hsort : TimSort.sort StubMatcherComparator.compare stubData with
  | error e => rfl
  | ok order =>
    dsimp only
    cases hfind : order.find? (fun data => !rejects elements data) with
    | none => exact absurd ⟨order, hsort, by rw [Chosen, hfind]⟩ (h none)
    | some data =>
      dsimp only
      cases haccepts : accepts elements data with
      | false => rfl
      | true =>
        cases hresponse : responseWhenHit data.response with
        | error e => rfl
        | ok response =>
          refine absurd ⟨order, hsort, ?_⟩ (h (some response))
          rw [Chosen, hfind]
          exact ⟨haccepts, response, hresponse, rfl⟩

end Answer

/-- **One request** is treated as the stubs say, as they stand when it comes. -/
theorem gets_treatment {a : Arrival} {s : Stubbing ε} {elements : List RequestElement}
    (h : a.Has extractor s elements) :
    a.Gets extractor s (treatment elements s.stubDataCache) := by
  obtain ⟨w1, hextract⟩ := h
  have hanswer := consulting_ok_iff (context extractor) (s := a.session s) hextract
    (getStubData_of_extract hextract)
  obtain ⟨s', hstep, -, -, hcase⟩ :=
    step_client (context extractor) a.message a.isWritable (a.session s)
  unfold Arrival.Gets
  rw [hstep]
  rcases hcase with ⟨response, w, hok, -, hwritten⟩ | ⟨w, hok, -, hwritten⟩ |
    ⟨e, w, herror, -, hwritten⟩
  · obtain ⟨order, hsort, hchosen⟩ := (hanswer (some response)).mp ⟨w, hok⟩
    obtain ⟨data, htreatment, hresponse⟩ := treatment_of_some hsort hchosen
    rw [htreatment]
    exact ⟨response, hresponse, hwritten⟩
  · obtain ⟨order, hsort, hchosen⟩ := (hanswer none).mp ⟨w, hok⟩
    rw [treatment_of_none hsort hchosen]
    exact hwritten
  · rw [treatment_of_failed]
    · exact hwritten
    · intro answer hex
      obtain ⟨w', hok⟩ := (hanswer answer).mpr hex
      rw [herror] at hok
      cases hok

/-! ## Runs -/

/-- A quiet event keeps the stubs in their order, and one that is not does not. -/
theorem stubDataCache_handle {e : Traffic} {s : Stubbing ε}
    (hop : ∀ data ∈ s.stubDataCache, data.operator ≠ none)
    (hids : (s.stubDataCache.map StubData.id).Nodup) :
    (handle extractor e s).stubDataCache = s.stubDataCache ↔ Quiet extractor e s := by
  obtain ⟨conn, e⟩ := e
  unfold handle Quiet
  dsimp only
  cases e with
  | remote m isWritable =>
    refine ⟨fun _ a elements he => ?_, fun _ => stubDataCache_remote s conn m isWritable⟩
    cases he
  | client m isWritable =>
    rw [stubDataCache_client]
    by_cases hreturned : Returned (((context extractor).extractor.extract
        (some (m.deliver s.world.heap).1)).run
          ((⟨s.world, conn⟩ : Session (CacheStorage × ε)).arrived m).world)
    · rw [if_pos hreturned, sorted_eq_self_iff hop hids]
      refine ⟨fun h _ _ _ _ => h, fun h => ?_⟩
      obtain ⟨elements, w, hextract⟩ := returned_iff.mp hreturned
      exact h ⟨conn, m, isWritable⟩ elements rfl ⟨w, hextract⟩
    · rw [if_neg hreturned]
      refine ⟨fun _ a elements he hhas => ?_, fun _ => rfl⟩
      obtain ⟨w, hextract⟩ := hhas
      cases he
      exact absurd (returned_iff.mpr ⟨elements, w, hextract⟩) hreturned

/-- No request of the run gets as far as the sort. -/
def NoneExtracted (extractor : Extractor ε) (es : List Traffic)
    (s : Stubbing ε) : Prop :=
  ∀ (a : Arrival) (es1 es2 : List Traffic), es = es1 ++ a.event :: es2 →
    ∀ elements, ¬ a.Has extractor (run (handle extractor) es1 s) elements

theorem NoneExtracted.of_cons {e : Traffic} {es : List Traffic} {s : Stubbing ε}
    (h : NoneExtracted extractor (e :: es) s) :
    NoneExtracted extractor es (handle extractor e s) :=
  fun a es1 es2 hes => h a (e :: es1) es2 (by rw [hes]; rfl)

/-- What an event does to the stubs while they stand as at the beginning. -/
theorem kept_handle_iff {s s' : Stubbing ε} (hop : ∀ data ∈ s.stubDataCache, data.operator ≠ none)
    (hids : (s.stubDataCache.map StubData.id).Nodup) {e : Traffic}
    (hs' : s'.stubDataCache = s.stubDataCache) :
    (handle extractor e s').stubDataCache = s.stubDataCache ↔ Quiet extractor e s' := by
  rw [← stubDataCache_handle (hs' ▸ hop) (hs' ▸ hids), hs']

/-- Where the sort keeps the order, or is not reached, every event is quiet. -/
theorem meets_of_kept {s : Stubbing ε} (hop : ∀ data ∈ s.stubDataCache, data.operator ≠ none)
    (hids : (s.stubDataCache.map StubData.id).Nodup) {es : List Traffic} : ∀ {s' : Stubbing ε},
    s'.stubDataCache = s.stubDataCache →
      OrderKept s.stubDataCache ∨ NoneExtracted extractor es s' →
        Meets (handle extractor) (Quiet extractor) es s' := by
  induction es with
  | nil => exact fun _ _ => trivial
  | cons e es ih =>
    intro s' hs' h
    have hquiet : Quiet extractor e s' := by
      rintro a elements rfl hhas
      rcases h with h | h
      · exact hs'.symm ▸ h
      · exact absurd hhas (h a [] es rfl elements)
    exact ⟨hquiet, ih ((kept_handle_iff hop hids hs').mpr hquiet)
      (h.imp_right NoneExtracted.of_cons)⟩

/-- **Independence of earlier traffic**: over messages in any order it holds iff the sort keeps the
order of the stubs, or no request gets as far as the sort. -/
theorem independent_iff {s : Stubbing ε} (hop : ∀ data ∈ s.stubDataCache, data.operator ≠ none)
    (hids : (s.stubDataCache.map StubData.id).Nodup) (es : List Traffic) :
    Independent extractor es s ↔
      OrderKept s.stubDataCache ∨ NoneExtracted extractor es s := by
  have horder :
      Always (handle extractor) (fun s' => s'.stubDataCache = s.stubDataCache) es s ↔
        Meets (handle extractor) (Quiet extractor) es s :=
    always_iff_meets (fun _ h => h) (fun e s' hs' h => (kept_handle_iff hop hids hs').mpr h)
      (fun e s' hs' h heq => h ((kept_handle_iff hop hids hs').mp heq)) rfl
  constructor
  · intro h
    by_cases hkept : OrderKept s.stubDataCache
    · exact .inl hkept
    · refine .inr fun a es1 es2 hes elements hhas => hkept ?_
      have hmeets := horder.mp h.order
      rw [hes, meets_append_iff] at hmeets
      have hsame := always_iff.mp h.order es1 _ hes
      exact hsame ▸ hmeets.2.1 a elements rfl hhas
  · intro h
    have halways := horder.mpr (meets_of_kept hop hids rfl h)
    refine ⟨fun a a' es1 es2 es1' es2' hes hes' elements hhas hhas' => ?_, halways⟩
    have hsame := always_iff.mp halways
    have ht := gets_treatment hhas
    have ht' := gets_treatment hhas'
    rw [hsame es1 _ hes] at ht
    rw [hsame es1' _ hes'] at ht'
    exact ⟨_, ht, ht'⟩

end Traffic

/-- A stub that answers what is no `POST`. -/
def notPost (id : Nat) (response : String) : StubData :=
  ⟨id, some .not, some [⟨some (lit "METHOD"), some (lit "POST")⟩], some (lit response)⟩

/-- A link with these stubs. -/
def stubbedWith (stubData : List StubData) : Stubbing Unit := ⟨⟨⟨[]⟩, ⟨[], stubData⟩, ()⟩, 2⟩

/-- `GET /a`, on a new connection. -/
def getArrival : Arrival := ⟨.opened, getRequest, true⟩

theorem independent_oneNot :
    Independent (ShippedExtractor.default.extractor utf8) [getArrival.event, getArrival.event]
      (stubbedWith [notPost 1 "one"]) :=
  (independent_iff (s := stubbedWith [notPost 1 "one"]) (by decide) (by decide) _).mpr
    (.inl (.inl nofun))

/-- Of two NOT stubs the second answers the first request, and the first one the second. -/
theorem not_independent_twoNots :
    ¬ Independent (ShippedExtractor.default.extractor utf8)
      [getArrival.event, getArrival.event] (stubbedWith [notPost 1 "one", notPost 2 "two"]) := by
  intro h
  obtain ⟨t, hfirst, hsecond⟩ := h.same getArrival getArrival [] [getArrival.event]
    [getArrival.event] [] rfl rfl getElements ⟨_, rfl⟩ ⟨_, rfl⟩
  cases t with
  | answered data =>
    obtain ⟨response, hresponse, hclient, -⟩ := hfirst
    obtain ⟨response', hresponse', hclient', -⟩ := hsecond
    obtain rfl := Except.ok.inj (hresponse.symm.trans hresponse')
    exact absurd (hclient.trans hclient'.symm) (by decide)
  | forwarded => exact absurd hfirst.1 (by decide)
  | failed => exact absurd hfirst.1 (by decide)

end Terminator.Server.StubTraffic
