import Terminator.Run.Invariant
import Terminator.Server.StubPriority

/-!
# Stubs from forms

`StubForm.java`, `StubAction.java` and the stubs of `CacheStorage.java`. Forms that pass validation
are stored, stubs are deleted, and messages arrive in between, at connections in any state; each
message sorts the stored list in place.

**`completes_of_complete`**: if every form that passes validation names an operator and conditions
with a key and a value each, no later request fails at its stubs, unless the sort has to merge and
the merge throws.
-/

namespace Terminator.Server.StubForms

open Terminator.Java Terminator.Netty Terminator.Storage Terminator.Plugin Terminator.Run
open BaseStubServerHandler HttpStubServerHandler StubPriority

/-! ## The forms -/

/-- `StubForm`, without the fields nothing reads. -/
structure StubForm where
  conditions : Option (List StubCondition)
  operator : Option Operator
  response : Option JString

/-- `@Size(min = 1)`, which a `null` passes, and `@NotNull`. -/
def StubForm.valid (form : StubForm) : Bool :=
  form.conditions.all (fun conditions => 1 ≤ conditions.length) && form.response.isSome

/-- The `StubData` that `addStubData` fills in from a form. -/
def StubForm.stubData (form : StubForm) (id : Nat) : StubData :=
  ⟨id, form.operator, form.conditions, form.response⟩

/-! ## The storage of a link, and its requests -/

section Steps

variable {ε : Type} (extractor : Extractor ε)

/-- What the handler works with: the extractor has fields of its own. -/
def context : Context (CacheStorage × ε) where
  extractor :=
    { extract := fun request =>
        World.component Prod.snd (fun t h => (h.1, t)) (extractor.extract request)
      extract_preserves := fun request =>
        World.preserves_component (extractor.extract_preserves request) }
  storage :=
    { getStubData :=
        World.component Prod.fst (fun t h => (t, h.2)) CacheStorage.stubStorage.getStubData
      sorted := fun stubData h => (CacheStorage.stubStorage.sorted stubData h.1, h.2)
      getStubData_preserves :=
        World.preserves_component CacheStorage.stubStorage.getStubData_preserves }

/-- The world of the link, and the number of stubs it was given. -/
structure Stubbing (ε : Type) where
  world : World (CacheStorage × ε)
  id : Nat

/-- `stubDataCache`. -/
def Stubbing.stubDataCache (s : Stubbing ε) : List StubData := s.world.hidden.1.stubDataCache

/-- An assignment to the elements of `stubDataCache`. -/
def Stubbing.setStubDataCache (stubData : List StubData) (s : Stubbing ε) : Stubbing ε :=
  { s with world := { s.world with
      hidden := ({ s.world.hidden.1 with stubDataCache := stubData }, s.world.hidden.2) } }

/-- `CacheStorage.putStubData`. -/
def putStubData (data : Nat → StubData) (s : Stubbing ε) : Stubbing ε :=
  let id := s.id + 1
  { s.setStubDataCache (s.stubDataCache ++ [data id]) with id := id }

/-- `CacheStorage.deleteStubData`. -/
def deleteStubData (id : Nat) (s : Stubbing ε) : Stubbing ε :=
  s.setStubDataCache (s.stubDataCache.eraseP fun data => data.id == id)

/-- What happens to a link in STUB mode. -/
inductive Event where
  /-- `POST /stub/{linkId}`. -/
  | addStubData (form : StubForm)
  /-- `DELETE /stub/{linkId}/{id}`. -/
  | deleteStubData (id : Nat)
  /-- A message arrives at a connection. -/
  | message (conn : Connection) (e : Server.Event)

/-- One event. -/
def step : Event → Stubbing ε → Stubbing ε
  | .addStubData form, s => if form.valid then putStubData form.stubData s else s
  | .deleteStubData id, s => StubForms.deleteStubData id s
  | .message conn e, s =>
    { s with
      world := ((HttpStubServerHandler (context extractor)).step e ⟨s.world, conn⟩).world }

/-! ## What a request should do -/

/-- The extraction returns for the message `m`, should it arrive now. -/
def Extracts (s : Stubbing ε) (conn : Connection) (m : HttpObject ChannelBuffer) : Prop :=
  Returned (((context extractor).extractor.extract (some (m.deliver s.world.heap).1)).run
    ((⟨s.world, conn⟩ : Session (CacheStorage × ε)).arrived m).world)

/-- The message is answered with the response of a stub, or passed on to the remote server. -/
def Served (stubData : List StubData) (m : HttpObject ChannelBuffer)
    (s s' : Session (CacheStorage × ε)) : Prop :=
  (∃ data ∈ stubData, ∃ response, responseWhenHit data.response = .ok response ∧
      s'.toClient = s.toClient ++ [response] ∧ s'.toRemote = s.toRemote) ∨
    (s'.toClient = s.toClient ∧
      s'.toRemote = s.toRemote ++ [s'.wire (m.deliver s.world.heap).1])

/-- `messageReceived` returns, and has served the message. -/
def Completes (s : Stubbing ε) : Prop :=
  ∀ (conn : Connection) (m : HttpObject ChannelBuffer) (isWritable : Bool),
    Extracts extractor s conn m →
      let handler := HttpStubServerHandler (context extractor)
      Returned (handler.outcome (.client m isWritable) ⟨s.world, conn⟩) ∧
        Served s.stubDataCache m ⟨s.world, conn⟩
          (handler.step (.client m isWritable) ⟨s.world, conn⟩)

/-- The form has an operator, and conditions with a key and a value each. -/
structure StubForm.Complete (form : StubForm) : Prop where
  operator : form.operator ≠ none
  conditions : ∃ conditions, form.conditions = some conditions ∧ ∀ c ∈ conditions, c.Filled

/-- A form that passes validation is complete. -/
def Event.Complete : Event → Prop
  | .addStubData form => form.valid = true → form.Complete
  | _ => True

/-- The stored list is sorted without a merge, or its merge does not throw. -/
def Sortable (stubData : List StubData) : Prop :=
  Short stubData ∨ ∃ order, TimSort.sort StubMatcherComparator.compare stubData = .ok order

end Steps

/-! ## Complete stubs -/

/-- Nothing a matcher reads is `null`. -/
structure Complete (data : StubData) : Prop where
  operator : data.operator ≠ none
  conditions : ∃ conditions, data.conditions = some conditions ∧ ∀ c ∈ conditions, c.Filled
  response : ∃ response, data.response = some response

theorem complete_stubData {form : StubForm} (hvalid : form.valid = true) (h : form.Complete)
    (id : Nat) : Complete (form.stubData id) where
  operator := h.operator
  conditions := h.conditions
  response := by
    unfold StubForm.valid at hvalid
    rw [Bool.and_eq_true] at hvalid
    exact Option.isSome_iff_exists.mp hvalid.2

theorem matching_of_complete {data : StubData} (h : Complete data)
    (elements : List RequestElement) : ∃ b, matching elements data = .ok b := by
  obtain ⟨operator, hoperator⟩ := Option.ne_none_iff_exists'.mp h.operator
  obtain ⟨conditions, hconditions, hfilled⟩ := h.conditions
  obtain ⟨b, hb, -⟩ := isMatch_of_filled hconditions hfilled operator elements
  refine ⟨b, ?_⟩
  unfold matching
  rw [hoperator]
  exact hb

/-- The loop over complete stubs returns, with the response of one of them if any. -/
theorem matchLoop_of_complete {order : List StubData} (h : ∀ data ∈ order, Complete data)
    (elements : List RequestElement) :
    ∃ answer, matchLoop responseWhenHit elements order = .ok answer ∧
      ∀ response, answer = some response →
        ∃ data ∈ order, responseWhenHit data.response = .ok response := by
  induction order with
  | nil => exact ⟨none, rfl, fun _ h => by cases h⟩
  | cons data order ih =>
    have hdata := h data List.mem_cons_self
    obtain ⟨b, hb⟩ := matching_of_complete hdata elements
    obtain ⟨content, hcontent⟩ := hdata.response
    obtain ⟨answer, hloop, hanswer⟩ := ih fun data h' => h data (List.mem_cons_of_mem _ h')
    unfold matchLoop
    rw [hb]
    cases b with
    | false =>
      refine ⟨answer, hloop, fun response hresponse => ?_⟩
      obtain ⟨data', hmem, hhit⟩ := hanswer response hresponse
      exact ⟨data', List.mem_cons_of_mem _ hmem, hhit⟩
    | true =>
      have hhit : responseWhenHit data.response =
          .ok (htmlResponse OK (utf8.encode content).length content) := by
        rw [hcontent]
        rfl
      refine ⟨some (htmlResponse OK (utf8.encode content).length content), ?_, ?_⟩
      · rw [hhit]
        rfl
      · rintro response hresponse
        obtain rfl := Option.some.inj hresponse
        exact ⟨data, List.mem_cons_self, hhit⟩

/-! ## One message -/

section Messages

variable {ε : Type} {extractor : Extractor ε}
  {merge : List StubData → Except Throwable (List StubData)}

theorem getStubData_run (w : World (CacheStorage × ε)) :
    (context extractor).storage.getStubData.run w = .ok w.hidden.1.stubDataCache w := rfl

/-- An extractor does not touch the storage. -/
theorem keeps_extract (extractor : Extractor ε) (request : Option (HttpObject Ref)) :
    Keeps (fun w => w.hidden.1) ((context extractor).extractor.extract request) :=
  keeps_zoom (extractor.extract request) fun _ _ => rfl

/-- The list a request leaves. -/
abbrev stubsAfter {α : Type} (r : EStateM.Result Throwable (World (CacheStorage × ε)) α) :
    List StubData := (after r).hidden.1.stubDataCache

/-- What a sort leaves of a list; one that throws leaves it as it was. -/
def sorted (stubData : List StubData) :
    List StubData :=
  match TimSort.sort StubMatcherComparator.compare stubData with
  | .ok order => order
  | .error _ => stubData

theorem perm_sorted (stubData : List StubData) : (sorted stubData).Perm stubData := by
  unfold sorted
  cases hsort : TimSort.sort StubMatcherComparator.compare stubData with
  | error e => exact List.Perm.refl _
  | ok order => exact TimSort.perm_of_sort hsort

/-- Consulting the stubs sorts them, once the extraction has returned. -/
theorem stubsAfter_consult (extractor : Extractor ε) (request : HttpObject Ref)
    (w : World (CacheStorage × ε)) :
    stubsAfter ((consult (context extractor) responseWhenHit request).run w) =
      if Returned (((context extractor).extractor.extract (some request)).run w) then
        sorted w.hidden.1.stubDataCache
      else w.hidden.1.stubDataCache := by
  have hkeep : (after (((context extractor).extractor.extract (some request)).run w)).hidden.1
      = w.hidden.1 := keeps_extract extractor (some request) w
  unfold consult sorted
  cases hextract : ((context extractor).extractor.extract (some request)).run w with
  | error e w1 =>
    rw [hextract, after_error] at hkeep
    rw [run_bind_of_error hextract, stubsAfter, after_error, hkeep,
      if_neg (not_returned_error e w1)]
  | ok elements w1 =>
    rw [hextract, after_ok] at hkeep
    rw [run_bind_of_ok hextract, run_bind_of_ok (getStubData_run w1), ← hkeep,
      if_pos (returned_ok elements w1)]
    cases hsort : TimSort.sort StubMatcherComparator.compare w1.hidden.1.stubDataCache with
    | error e => rfl
    | ok order =>
      rw [run_bind_of_ok (run_fromExcept_ok order w1), run_bind_of_ok (EStateM.run_modify _ _),
        stubsAfter, after_fromExcept]
      rfl

/-- A message from the client sorts the stubs, once its extraction has returned. -/
theorem stubDataCache_client (s : Stubbing ε) (conn : Connection) (m : HttpObject ChannelBuffer)
    (isWritable : Bool) :
    (step extractor (.message conn (.client m isWritable)) s).stubDataCache =
      if Returned (((context extractor).extractor.extract
          (some (m.deliver s.world.heap).1)).run
            ((⟨s.world, conn⟩ : Session (CacheStorage × ε)).arrived m).world) then
        sorted s.stubDataCache
      else s.stubDataCache := by
  obtain ⟨s', hstep, hworld, -⟩ :=
    step_client (context extractor) m isWritable ⟨s.world, conn⟩
  unfold Stubbing.stubDataCache step
  dsimp only
  rw [hstep, hworld]
  exact stubsAfter_consult extractor _ _

/-- One from the remote server has nothing to do with them. -/
theorem stubDataCache_remote (s : Stubbing ε) (conn : Connection) (m : HttpObject ChannelBuffer)
    (isWritable : Bool) :
    (step extractor (.message conn (.remote m isWritable)) s).stubDataCache =
      s.stubDataCache := by
  let hidden : Session (CacheStorage × ε) → CacheStorage × ε := fun s => s.world.hidden
  have hkeep := keeps_relayMessageReceived (p := hidden) (fun _ _ => rfl) (fun _ _ => rfl)
    (fun _ _ => rfl) (fun _ => keeps_pure hidden ()) isWritable (m.deliver s.world.heap).1
    ((⟨s.world, conn⟩ : Session (CacheStorage × ε)).arrived m)
  have hhidden : hidden ((HttpStubServerHandler (context extractor)).step
      (.remote m isWritable) ⟨s.world, conn⟩) = s.world.hidden :=
    (exceptionCaught_keeps Session.closeOutbound (fun _ => rfl) _).trans hkeep
  exact congrArg (fun h => h.1.stubDataCache) hhidden

/-- An event at a connection puts the stubs in another order at most. -/
theorem perm_message (extractor : Extractor ε) (s : Stubbing ε) (conn : Connection)
    (e : Server.Event) :
    (step extractor (.message conn e) s).stubDataCache.Perm s.stubDataCache := by
  cases e with
  | client m isWritable =>
    rw [stubDataCache_client]
    split
    · exact perm_sorted _
    · exact List.Perm.refl _
  | remote m isWritable => rw [stubDataCache_remote]

/-- Once the extraction has returned, the stubs are read as they stood when the message came. -/
theorem getStubData_of_extract {s : Stubbing ε} {conn : Connection} {m : HttpObject ChannelBuffer}
    {elements : List RequestElement} {w1 : World (CacheStorage × ε)}
    (hextract : ((context extractor).extractor.extract
      (some (m.deliver s.world.heap).1)).run
        ((⟨s.world, conn⟩ : Session (CacheStorage × ε)).arrived m).world = .ok elements w1) :
    (context extractor).storage.getStubData.run w1 = .ok s.stubDataCache w1 := by
  have hstub : w1.hidden.1 = s.world.hidden.1 := by
    have hkeep := keeps_extract extractor (some (m.deliver s.world.heap).1)
      ((⟨s.world, conn⟩ : Session (CacheStorage × ε)).arrived m).world
    rw [hextract] at hkeep
    exact hkeep
  rw [getStubData_run, hstub]
  rfl

/-- Over complete stubs the stubs answer once the extraction has returned, unless the sort
throws. -/
theorem consulting_of_complete {s : Stubbing ε} (h : ∀ data ∈ s.stubDataCache, Complete data)
    (hsortable : Sortable s.stubDataCache) {conn : Connection}
    {m : HttpObject ChannelBuffer} {elements : List RequestElement} {w1 : World (CacheStorage × ε)}
    (hextract : ((context extractor).extractor.extract
      (some (m.deliver s.world.heap).1)).run
        ((⟨s.world, conn⟩ : Session (CacheStorage × ε)).arrived m).world = .ok elements w1) :
    ∃ order answer w,
      TimSort.sort StubMatcherComparator.compare s.stubDataCache = .ok order ∧
      matchLoop responseWhenHit elements order = .ok answer ∧
      consulting (context extractor) m ⟨s.world, conn⟩ = .ok answer w ∧
      ∀ response, answer = some response →
        ∃ data ∈ s.stubDataCache, responseWhenHit data.response = .ok response := by
  obtain ⟨order, hsort⟩ : ∃ order,
      TimSort.sort StubMatcherComparator.compare s.stubDataCache = .ok order :=
    hsortable.elim (fun hshort => ⟨_, TimSort.sort_of_leading leading_compare
      (fun data hdata => (h data hdata).operator) hshort⟩) id
  have hperm : order.Perm s.stubDataCache := TimSort.perm_of_sort hsort
  obtain ⟨answer, hloop, hanswer⟩ := matchLoop_of_complete
    (fun data hdata => h data (hperm.mem_iff.mp hdata)) elements
  refine ⟨order, answer, _, hsort, hloop, (consult_eq_ok_iff _).mpr
    ⟨elements, w1, hextract, s.stubDataCache, w1, getStubData_of_extract hextract, order, hsort,
      hloop, rfl⟩, fun response hresponse => ?_⟩
  obtain ⟨data, hdata, hhit⟩ := hanswer response hresponse
  exact ⟨data, hperm.mem_iff.mp hdata, hhit⟩

/-- **A message over complete stubs** is served, if its extraction returns and the sort does. -/
theorem completes_of_forall_complete (extractor : Extractor ε) {s : Stubbing ε}
    (h : ∀ data ∈ s.stubDataCache, Complete data) (hsortable : Sortable s.stubDataCache) :
    Completes extractor s := by
  intro conn m isWritable hextracts handler
  obtain ⟨elements, w1, hextract⟩ := returned_iff.mp hextracts
  obtain ⟨order, answer, w, -, -, hconsult, hanswer⟩ :=
    consulting_of_complete h hsortable hextract
  obtain ⟨s', hstep, -, -, hcase⟩ :=
    step_client (context extractor) m isWritable ⟨s.world, conn⟩
  rw [hconsult] at hcase
  rcases hcase with ⟨response, w', hok, hreturned, hclient, hremote⟩ |
    ⟨w', hok, hreturned, hclient, hremote⟩ | ⟨e, w', herror, -⟩
  · obtain ⟨rfl, -⟩ := EStateM.Result.ok.inj hok
    obtain ⟨data, hdata, hhit⟩ := hanswer response rfl
    refine ⟨hreturned, .inl ⟨data, hdata, response, hhit, ?_⟩⟩
    rw [hstep]
    exact ⟨hclient, hremote⟩
  · refine ⟨hreturned, .inr ?_⟩
    rw [hstep]
    exact ⟨hclient, hremote⟩
  · cases herror

/-! ## Runs -/

/-- What an event leaves of complete stubs, if it is no form with gaps. -/
theorem forall_complete_step (extractor : Extractor ε) (e : Event) (s : Stubbing ε)
    (h : ∀ data ∈ s.stubDataCache, Complete data) (he : e.Complete) :
    ∀ data ∈ (step extractor e s).stubDataCache, Complete data := by
  intro data hdata
  cases e with
  | addStubData form =>
    by_cases hvalid : form.valid = true
    · rw [step, if_pos hvalid] at hdata
      rcases List.mem_append.mp hdata with hdata | hdata
      · exact h data hdata
      · rw [List.mem_singleton.mp hdata]
        exact complete_stubData hvalid (he hvalid) _
    · rw [step, if_neg hvalid] at hdata
      exact h data hdata
  | deleteStubData id => exact h data (List.mem_of_mem_eraseP hdata)
  | message conn e => exact h data ((perm_message extractor s conn e).mem_iff.mp hdata)

/-- **No accepted form breaks the link**: over forms, deletions and messages in any order, every
message is served whose extraction returns, if the forms are complete and the sort returns. -/
theorem completes_of_complete (extractor : Extractor ε) {s : Stubbing ε}
    (hnew : s.stubDataCache = []) {es : List Event} (hes : ∀ e ∈ es, e.Complete) :
    Always (step extractor)
      (fun s => Sortable s.stubDataCache → Completes extractor s) es s := by
  have hmeets : Meets (step extractor) (fun e _ => e.Complete) es s :=
    meets_of_forall fun e he _ => hes e he
  refine always_of_invariant (I := fun s => ∀ data ∈ s.stubDataCache, Complete data)
    (fun s h => completes_of_forall_complete extractor h)
    (forall_complete_step extractor) ?_ hmeets
  rw [hnew]
  exact fun data hdata => absurd hdata List.not_mem_nil

end Messages

/-- The stubs of a new link. -/
def newStubbing : Stubbing Unit := ⟨⟨⟨[]⟩, ⟨[], []⟩, ()⟩, 0⟩

/-- A form for every `GET`, with this operator. -/
def getForm (operator : Option Operator) : StubForm :=
  ⟨some [⟨some (lit "METHOD"), some (lit "GET")⟩], operator, some (lit "stub")⟩

/-- Two forms, a request and a deletion. -/
def addThenDelete : List Event :=
  [.addStubData (getForm (some .or)), .addStubData (getForm (some .not)),
    .message .opened (.client getRequest true), .deleteStubData 1]

theorem completes_addThenDelete :
    Always (step (ShippedExtractor.default.extractor utf8))
      (fun s => Sortable s.stubDataCache →
        Completes (ShippedExtractor.default.extractor utf8) s) addThenDelete newStubbing := by
  refine completes_of_complete (ShippedExtractor.default.extractor utf8) rfl fun e he => ?_
  have hcomplete : ∀ operator, (getForm (some operator)).Complete := fun operator =>
    ⟨Option.some_ne_none _, _, rfl, fun c hc => by
      rw [List.mem_singleton.mp hc]
      exact ⟨Option.some_ne_none _, Option.some_ne_none _⟩⟩
  simp only [addThenDelete, List.mem_cons, List.not_mem_nil, or_false] at he
  rcases he with rfl | rfl | rfl | rfl
  · exact fun _ => hcomplete .or
  · exact fun _ => hcomplete .not
  · trivial
  · trivial

/-- A form that leaves its operator out is accepted, and a `GET` fails at its stub. -/
theorem not_completes_noOperator :
    (getForm none).valid = true ∧
    ¬ Always (step (ShippedExtractor.default.extractor utf8))
      (Completes (ShippedExtractor.default.extractor utf8)) [.addStubData (getForm none)]
      newStubbing := by
  refine ⟨rfl, fun h => ?_⟩
  have hcompletes := h.2 .opened getRequest true trivial
  exact absurd hcompletes.1 (by decide)

end Terminator.Server.StubForms
