import Terminator.Server.Stub

/-!
# Which stub answers

The comment beside the sort wants NOT before AND before OR (`byPriority`). The comparator gives
something else: it is negative whenever its first argument is a NOT stub and never otherwise, so
AND and OR stubs are not told apart, and two NOT stubs change places
(`leading_compare`, with `TimSort.sort_of_leading`). From 32 stubs on the sort may throw; if it
returns, the NOT stubs come first (`nots_first`).

**`followsPriority_iff`** says when a request is answered by the right stub all the same.
-/

namespace Terminator.Server.StubPriority

open Terminator.Java Terminator.Netty Terminator.Storage Terminator.Plugin
open BaseStubServerHandler HttpStubServerHandler

variable {σ : Type} {elements : List RequestElement} {stubData : List StubData}

def isNot (data : StubData) : Bool := data.operator == some .not

def isAnd (data : StubData) : Bool := data.operator == some .and

def isOr (data : StubData) : Bool := data.operator == some .or

/-- NOT, then AND, then OR; stubs of one operator as they stand. -/
def byPriority (stubData : List StubData) : List StubData :=
  stubData.filter isNot ++ (stubData.filter isAnd ++ stubData.filter isOr)

/-- The stub's matcher accepts the elements. -/
def accepts (elements : List RequestElement) (data : StubData) : Bool :=
  match matching elements data with
  | .ok isMatch => isMatch
  | .error _ => false

/-- The stub's matcher rejects the elements; one that throws does neither. -/
def rejects (elements : List RequestElement) (data : StubData) : Bool :=
  match matching elements data with
  | .ok isMatch => !isMatch
  | .error _ => false

/-! ## The order of the stubs -/

/-- The comparator looks for a NOT stub on its left. -/
theorem leading_compare :
    TimSort.Leading StubMatcherComparator.compare (fun data => data.operator ≠ none) isNot := by
  intro x y hx hy
  obtain ⟨operator1, h1⟩ := Option.ne_none_iff_exists'.mp hx
  obtain ⟨operator2, h2⟩ := Option.ne_none_iff_exists'.mp hy
  unfold StubMatcherComparator.compare isNot
  rw [h1, h2]
  cases operator1 with
  | not => exact ⟨-1, rfl, rfl⟩
  | or => exact ⟨1, rfl, rfl⟩
  | and =>
    cases operator2 with
    | not => exact ⟨1, rfl, rfl⟩
    | and => exact ⟨0, rfl, rfl⟩
    | or => exact ⟨0, rfl, rfl⟩

/-- And puts everything else behind one. -/
theorem tells_compare :
    TimSort.Tells StubMatcherComparator.compare (fun data => data.operator ≠ none) isNot := by
  intro x y v hx hy hv hlead hlead'
  obtain ⟨operator1, h1⟩ := Option.ne_none_iff_exists'.mp hx
  unfold isNot at hlead hlead'
  unfold StubMatcherComparator.compare at hv
  rw [beq_iff_eq] at hlead'
  rw [h1] at hlead hv
  rw [hlead'] at hv
  cases operator1 with
  | not => cases hlead
  | or =>
    cases hv
    exact Int.one_pos
  | and =>
    cases hv
    exact Int.one_pos

/-- **The NOT stubs come first**, however long the list is, if its sort returns. -/
theorem nots_first {order : List StubData} (hop : ∀ data ∈ stubData, data.operator ≠ none)
    (h : TimSort.sort StubMatcherComparator.compare stubData = .ok order) :
    TimSort.LeadsFirst isNot order :=
  TimSort.leadsFirst_of_sort leading_compare tells_compare hop h

-- a merge may find that the comparator is no order
example : TimSort.sort StubMatcherComparator.compare (List.replicate 16 ⟨0, some .or, none, none⟩ ++
    ⟨0, some .not, none, none⟩ :: List.replicate 15 ⟨0, some .or, none, none⟩) =
      .error .illegalArgument := by decide +kernel

/-- The list is sorted without a merge: it is short, or no NOT stub stands behind another stub. -/
def Short (stubData : List StubData) : Prop :=
  stubData.length < TimSort.MIN_MERGE ∨ ∀ data ∈ stubData.tail, isNot data = false

/-! ## The stub that is chosen -/

/-- The loop over stubs in this order answers so: with the first one that does not reject, if it
accepts. -/
def Chosen (elements : List RequestElement) (order : List StubData)
    (answer : Option (HttpObject (List Byte))) : Prop :=
  match order.find? (fun data => !rejects elements data) with
  | none => answer = none
  | some data => accepts elements data = true ∧
      ∃ response, responseWhenHit data.response = .ok response ∧ answer = some response

/-- The priority wants this answer. -/
def Specified (elements : List RequestElement) (stubData : List StubData)
    (answer : Option (HttpObject (List Byte))) : Prop :=
  match (byPriority stubData).find? (accepts elements) with
  | none => answer = none
  | some data => ∃ response, responseWhenHit data.response = .ok response ∧ answer = some response

theorem rejects_of_accepts {data : StubData} (h : accepts elements data = true) :
    rejects elements data = false := by
  unfold accepts at h
  unfold rejects
  cases hm : matching elements data with
  | error e => rfl
  | ok b =>
    rw [hm] at h
    simp only [h, Bool.not_true]

theorem matchLoop_ok_iff (order : List StubData) (answer : Option (HttpObject (List Byte))) :
    matchLoop responseWhenHit elements order = .ok answer ↔ Chosen elements order answer := by
  induction order with
  | nil =>
    rw [matchLoop, Except.ok.injEq]
    exact eq_comm
  | cons data order ih =>
    unfold matchLoop Chosen
    rw [List.find?_cons]
    cases hm : matching elements data with
    | error e =>
      have hr : rejects elements data = false := by rw [rejects, hm]
      have ha : accepts elements data = false := by rw [accepts, hm]
      simp [hr, ha, bind, Except.bind]
    | ok b =>
      have hr : rejects elements data = !b := by rw [rejects, hm]
      have ha : accepts elements data = b := by rw [accepts, hm]
      cases b with
      | false =>
        simp only [hr, bind, Except.bind, Bool.not_false, Bool.not_true, Bool.false_eq_true,
          if_false]
        exact ih
      | true =>
        simp only [hr, ha, bind, Except.bind, Bool.not_true, Bool.not_false, if_true, true_and]
        cases responseWhenHit data.response with
        | error e => simp
        | ok response => simp [pure, Except.pure, eq_comm]

/-- A pass over the stubs in this order answers as the priority wants it. -/
def AgreesOn (elements : List RequestElement) (stubData order : List StubData) : Prop :=
  ∃ answer, Chosen elements order answer ∧ Specified elements stubData answer

/-- **The exact condition** on a list that is sorted without a merge. The last NOT stub that does
not reject is reached first: it has to accept, and to have the response of the first one that
accepts. If all NOT stubs reject, the first of the others that does not is reached: it has to
accept, and an AND stub that accepts must not have another response. -/
def Undisturbed (elements : List RequestElement) (stubData : List StubData) : Prop :=
  match (stubData.filter isNot).reverse.find? (fun data => !rejects elements data) with
  | some last => accepts elements last = true ∧
      ∃ first, (stubData.filter isNot).find? (accepts elements) = some first ∧
        ∃ response, responseWhenHit last.response = .ok response ∧
          responseWhenHit first.response = .ok response
  | none =>
    match (stubData.filter fun data => !isNot data).find? (fun data => !rejects elements data) with
    | none => True
    | some other => accepts elements other = true ∧
        ∃ response, responseWhenHit other.response = .ok response ∧
          ∀ first, (stubData.filter isAnd).find? (accepts elements) = some first →
            responseWhenHit first.response = .ok response

/-- Where everything is rejected nothing accepts. -/
theorem find?_accepts_eq_none {l : List StubData}
    (h : l.find? (fun data => !rejects elements data) = none) :
    l.find? (accepts elements) = none := by
  rw [List.find?_eq_none] at h ⊢
  intro data hdata hacc
  have := h data hdata
  rw [rejects_of_accepts hacc] at this
  exact this rfl

/-- The stub the loop reaches among the others is the first OR stub that accepts, when no AND stub
does. -/
theorem find?_or_of_others {other : StubData} (hop : ∀ data ∈ stubData, data.operator ≠ none)
    (hother : (stubData.filter fun data => !isNot data).find?
      (fun data => !rejects elements data) = some other)
    (hacc : accepts elements other = true)
    (hand : (stubData.filter isAnd).find? (accepts elements) = none) :
    (stubData.filter isOr).find? (accepts elements) = some other := by
  rw [List.find?_filter, List.find?_eq_some_iff_append] at hother
  obtain ⟨hp, before, behind, hsplit, hbefore⟩ := hother
  have hmem : other ∈ stubData := by
    rw [hsplit]
    exact List.mem_append_right _ List.mem_cons_self
  have hor : isOr other = true := by
    obtain ⟨operator, hoper⟩ := Option.ne_none_iff_exists'.mp (hop other hmem)
    cases operator with
    | or => simp [isOr, hoper]
    | not => simp [isNot, hoper] at hp
    | and =>
      have := List.find?_eq_none.mp hand other (List.mem_filter.mpr ⟨hmem, by simp [isAnd, hoper]⟩)
      exact absurd hacc this
  rw [List.find?_filter, List.find?_eq_some_iff_append]
  refine ⟨by simp [hor, hacc], before, behind, hsplit, fun data hdata => ?_⟩
  have hskip := hbefore data hdata
  cases hacc' : accepts elements data with
  | false => simp
  | true =>
    have hnot : isNot data = true := by simpa [rejects_of_accepts hacc'] using hskip
    have : isOr data = false := by
      simp only [isNot, isOr, beq_iff_eq] at hnot ⊢
      rw [hnot]
      rfl
    simp [this]

/-- The same condition on the order in which a longer list is looked through: that of its NOT stubs,
and that of the others. -/
def UndisturbedIn (elements : List RequestElement) (stubData order : List StubData) : Prop :=
  match (order.filter isNot).find? (fun data => !rejects elements data) with
  | some last => accepts elements last = true ∧
      ∃ first, (stubData.filter isNot).find? (accepts elements) = some first ∧
        ∃ response, responseWhenHit last.response = .ok response ∧
          responseWhenHit first.response = .ok response
  | none =>
    match (order.filter fun data => !isNot data).find? (fun data => !rejects elements data) with
    | none => True
    | some other => accepts elements other = true ∧
        ∃ response, responseWhenHit other.response = .ok response ∧
          ∀ first, (stubData.filter isAnd ++ stubData.filter isOr).find? (accepts elements) =
            some first → responseWhenHit first.response = .ok response

/-- Where the stubs all reject, so do those of them that are picked out. -/
theorem find?_accepts_of_rejected {order l : List StubData}
    (h : order.find? (fun data => !rejects elements data) = none) (hl : ∀ data ∈ l, data ∈ order) :
    l.find? (accepts elements) = none :=
  find?_accepts_eq_none (List.find?_eq_none.mpr fun data hdata =>
    List.find?_eq_none.mp h data (hl data hdata))

/-- **The condition is exact** for any order with the NOT stubs first. -/
theorem agreesOn_iff {order : List StubData} (hop : ∀ data ∈ stubData, data.operator ≠ none)
    (hperm : order.Perm stubData) (hfirst : TimSort.LeadsFirst isNot order) :
    AgreesOn elements stubData order ↔ UndisturbedIn elements stubData order := by
  have hparts := hfirst.filter_append_filter
  have hothers : ∀ data ∈ stubData.filter isAnd ++ stubData.filter isOr,
      data ∈ order.filter fun data => !isNot data := by
    intro data hdata
    rcases List.mem_append.mp hdata with hdata | hdata <;>
      obtain ⟨hmem, hoper⟩ := List.mem_filter.mp hdata <;>
      refine List.mem_filter.mpr ⟨hperm.mem_iff.mpr hmem, ?_⟩ <;>
      simp only [isAnd, isOr, beq_iff_eq] at hoper <;>
      simp [isNot, hoper]
  unfold AgreesOn Chosen Specified UndisturbedIn byPriority
  conv_lhs => rw [← hparts]
  rw [List.find?_append, List.find?_append]
  cases hlast : (order.filter isNot).find? (fun data => !rejects elements data) with
  | some last =>
    simp only [Option.some_or]
    have hmem : last ∈ stubData.filter isNot := by
      obtain ⟨hmem, hnot⟩ := List.mem_filter.mp (List.mem_of_find?_eq_some hlast)
      exact List.mem_filter.mpr ⟨hperm.mem_iff.mp hmem, hnot⟩
    constructor
    · rintro ⟨answer, ⟨hacc, response, hresp, rfl⟩, hspec⟩
      refine ⟨hacc, ?_⟩
      obtain ⟨first, hfirst⟩ := Option.isSome_iff_exists.mp
        (List.find?_isSome.mpr ⟨last, hmem, hacc⟩)
      rw [hfirst, Option.some_or] at hspec
      obtain ⟨response', hresp', heq⟩ := hspec
      exact ⟨first, hfirst, response, hresp, Option.some.inj heq ▸ hresp'⟩
    · rintro ⟨hacc, first, hfirst, response, hresp, hresp'⟩
      refine ⟨some response, ⟨hacc, response, hresp, rfl⟩, ?_⟩
      rw [hfirst, Option.some_or]
      exact ⟨response, hresp', rfl⟩
  | none =>
    have hnone : (stubData.filter isNot).find? (accepts elements) = none :=
      find?_accepts_of_rejected hlast fun data hdata => by
        obtain ⟨hmem, hnot⟩ := List.mem_filter.mp hdata
        exact List.mem_filter.mpr ⟨hperm.mem_iff.mpr hmem, hnot⟩
    simp only [Option.none_or, hnone]
    cases hother : (order.filter fun data => !isNot data).find?
        (fun data => !rejects elements data) with
    | none =>
      rw [find?_accepts_of_rejected hother hothers]
      exact ⟨fun _ => trivial, fun _ => ⟨none, rfl, rfl⟩⟩
    | some other =>
      obtain ⟨hmem, hnot⟩ := List.mem_filter.mp (List.mem_of_find?_eq_some hother)
      have hmem' : other ∈ stubData.filter isAnd ++ stubData.filter isOr := by
        obtain ⟨operator, hoper⟩ :=
          Option.ne_none_iff_exists'.mp (hop other (hperm.mem_iff.mp hmem))
        have hmem := hperm.mem_iff.mp hmem
        cases operator with
        | not => simp [isNot, hoper] at hnot
        | and => exact List.mem_append_left _ (List.mem_filter.mpr ⟨hmem, by simp [isAnd, hoper]⟩)
        | or => exact List.mem_append_right _ (List.mem_filter.mpr ⟨hmem, by simp [isOr, hoper]⟩)
      constructor
      · rintro ⟨answer, ⟨hacc, response, hresp, rfl⟩, hspec⟩
        refine ⟨hacc, response, hresp, fun first hfirst => ?_⟩
        rw [hfirst] at hspec
        obtain ⟨response', hresp', heq⟩ := hspec
        exact Option.some.inj heq ▸ hresp'
      · rintro ⟨hacc, response, hresp, hfirst⟩
        obtain ⟨first, hfound⟩ := Option.isSome_iff_exists.mp
          (List.find?_isSome.mpr ⟨other, hmem', hacc⟩)
        refine ⟨some response, ⟨hacc, response, hresp, rfl⟩, ?_⟩
        rw [hfound]
        exact ⟨response, hfirst first hfound, rfl⟩

/-- The order a sort without a merge leaves. -/
theorem undisturbedIn_leadFirst_iff (hop : ∀ data ∈ stubData, data.operator ≠ none) :
    UndisturbedIn elements stubData (TimSort.leadFirst isNot stubData) ↔
      Undisturbed elements stubData := by
  obtain ⟨hnots, hothers⟩ := TimSort.filter_leadFirst isNot stubData
  unfold UndisturbedIn Undisturbed
  rw [hnots, hothers]
  cases (stubData.filter isNot).reverse.find? (fun data => !rejects elements data) with
  | some last => exact Iff.rfl
  | none =>
    cases hother : (stubData.filter fun data => !isNot data).find?
        (fun data => !rejects elements data) with
    | none => exact Iff.rfl
    | some other =>
      refine and_congr_right fun hacc => exists_congr fun response =>
        and_congr_right fun hresponse => ?_
      rw [List.find?_append]
      cases hand : (stubData.filter isAnd).find? (accepts elements) with
      | some first => rw [Option.some_or]
      | none =>
        rw [Option.none_or, find?_or_of_others hop hother hacc hand]
        simp [hresponse]

/-- **The condition is exact** for the order a sort without a merge leaves. -/
theorem agreesOn_leadFirst_iff (hop : ∀ data ∈ stubData, data.operator ≠ none) :
    AgreesOn elements stubData (TimSort.leadFirst isNot stubData) ↔
      Undisturbed elements stubData :=
  (agreesOn_iff hop (TimSort.perm_leadFirst isNot stubData)
    (TimSort.leadsFirst_leadFirst isNot stubData)).trans (undisturbedIn_leadFirst_iff hop)

/-! ## The handler -/

/-- The request `m` took the session from `s` to `s'` as the priority wants it: the first stub in
that order that accepts has answered it, and it was forwarded if none accepts. -/
def FollowsPriority (elements : List RequestElement) (stubData : List StubData)
    (m : HttpObject ChannelBuffer) (s s' : Session σ) : Prop :=
  match (byPriority stubData).find? (accepts elements) with
  | some data => (∃ response, responseWhenHit data.response = .ok response ∧
      s'.toClient = s.toClient ++ [response]) ∧ s'.toRemote = s.toRemote
  | none => s'.toClient = s.toClient ∧
      s'.toRemote = s.toRemote ++ [s'.wire (m.deliver s.world.heap).1]

variable (context : Context σ) {m : HttpObject ChannelBuffer} {s : Session σ} {w1 w2 : World σ}

/-- What `consult` answers, from what the extractor and the storage gave. -/
theorem consulting_ok_iff
    (hextract : (context.extractor.extract (some (m.deliver s.world.heap).1)).run
      (s.arrived m).world = .ok elements w1)
    (hstub : context.storage.getStubData.run w1 = .ok stubData w2)
    (answer : Option (HttpObject (List Byte))) :
    (∃ w, consulting context m s = .ok answer w) ↔
      ∃ order, TimSort.sort StubMatcherComparator.compare stubData = .ok order ∧
        Chosen elements order answer := by
  unfold consulting
  simp only [consult_eq_ok_iff, hextract, EStateM.Result.ok.injEq, matchLoop_ok_iff]
  constructor
  · rintro ⟨w, _, _, ⟨rfl, rfl⟩, _, _, hstub', order, hsort, hchosen, -⟩
    rw [hstub] at hstub'
    obtain ⟨rfl, rfl⟩ := EStateM.Result.ok.inj hstub'
    exact ⟨order, hsort, hchosen⟩
  · rintro ⟨order, hsort, hchosen⟩
    exact ⟨_, _, _, ⟨rfl, rfl⟩, _, _, hstub, order, hsort, hchosen, rfl⟩

/-- The step follows the priority iff `consult` answers what is specified. -/
theorem followsPriority_iff_specified (isWritable : Bool) :
    FollowsPriority elements stubData m s
        ((HttpStubServerHandler context).step (.client m isWritable) s) ↔
      ∃ answer, (∃ w, consulting context m s = .ok answer w) ∧
        Specified elements stubData answer := by
  obtain ⟨s', hstep, -, -, hcase⟩ := step_client context m isWritable s
  have hgrow : ∀ (l : List (HttpObject (List Byte))) x, l ++ [x] ≠ l := fun l x h => by simp at h
  rw [hstep]
  unfold FollowsPriority Specified
  rcases hcase with ⟨response, w, hok, -, hclient, hremote⟩ | ⟨w, hok, -, hclient, hremote⟩ |
    ⟨e, w, herr, -, hclient, hremote⟩
  · rw [hok, hclient, hremote]
    cases (byPriority stubData).find? (accepts elements) with
    | none => simp
    | some data => simp [eq_comm]
  · rw [hok, hclient, hremote]
    cases (byPriority stubData).find? (accepts elements) with
    | none => simp
    | some data => simp
  · rw [herr, hclient, hremote]
    cases (byPriority stubData).find? (accepts elements) with
    | none => simp
    | some data => simp

/-- **The stub that answers** is the one the priority wants exactly when the list is sorted without
a merge and is `Undisturbed`, or the sort of a longer one returns and leaves it so. -/
theorem followsPriority_iff (isWritable : Bool)
    (hextract : (context.extractor.extract (some (m.deliver s.world.heap).1)).run
      (s.arrived m).world = .ok elements w1)
    (hstub : context.storage.getStubData.run w1 = .ok stubData w2)
    (hop : ∀ data ∈ stubData, data.operator ≠ none) :
    FollowsPriority elements stubData m s
        ((HttpStubServerHandler context).step (.client m isWritable) s) ↔
      (Short stubData ∧ Undisturbed elements stubData) ∨
        (¬ Short stubData ∧
          ∃ order, TimSort.sort StubMatcherComparator.compare stubData = .ok order ∧
            UndisturbedIn elements stubData order) := by
  have hagrees : FollowsPriority elements stubData m s
      ((HttpStubServerHandler context).step (.client m isWritable) s) ↔
      ∃ order, TimSort.sort StubMatcherComparator.compare stubData = .ok order ∧
        AgreesOn elements stubData order := by
    rw [followsPriority_iff_specified]
    constructor
    · rintro ⟨answer, hok, hspec⟩
      obtain ⟨order, hsort, hchosen⟩ := (consulting_ok_iff context hextract hstub answer).mp hok
      exact ⟨order, hsort, answer, hchosen, hspec⟩
    · rintro ⟨order, hsort, answer, hchosen, hspec⟩
      exact ⟨answer, (consulting_ok_iff context hextract hstub answer).mpr ⟨order, hsort, hchosen⟩,
        hspec⟩
  rw [hagrees]
  by_cases hshort : Short stubData
  · have hsort := TimSort.sort_of_leading leading_compare hop hshort
    rw [hsort, ← agreesOn_leadFirst_iff hop]
    simp only [Except.ok.injEq, exists_eq_left', hshort, true_and, not_true_eq_false, false_and,
      or_false]
  · simp only [hshort, false_and, false_or, not_false_eq_true, true_and]
    refine exists_congr fun order => and_congr_right fun hsort => ?_
    exact agreesOn_iff hop (TimSort.perm_of_sort hsort) (nots_first hop hsort)

/-- A stub for every `GET`. -/
def getStub (operator : Operator) (response : String) : StubData :=
  ⟨0, some operator, some [⟨some (lit "METHOD"), some (lit "GET")⟩], some (lit response)⟩

/-- A connection over a cache with these stubs. -/
def stubbed (stubData : List StubData) : Session CacheStorage := ⟨⟨⟨[]⟩, ⟨[], stubData⟩⟩, .opened⟩

/-- `GET /a`, and what `DefaultHttpExtractor` makes of it. -/
def getRequest : HttpObject ChannelBuffer := .request (.get "/a")

def getElements : List RequestElement :=
  [⟨lit "METHOD", lit "GET"⟩, ⟨lit "URI", lit "/a"⟩]

theorem and_before_or :
    FollowsPriority getElements [getStub .and "and", getStub .or "or"] getRequest
      (stubbed [getStub .and "and", getStub .or "or"])
      ((HttpStubServerHandler plainContext).step (.client getRequest true)
        (stubbed [getStub .and "and", getStub .or "or"])) :=
  (followsPriority_iff plainContext true
    (show (plainContext.extractor.extract (some (getRequest.deliver ⟨[]⟩).1)).run
      ((stubbed [getStub .and "and", getStub .or "or"]).arrived getRequest).world
        = .ok getElements _ from rfl)
    (show plainContext.storage.getStubData.run _
      = .ok [getStub .and "and", getStub .or "or"] _ from rfl) (by decide)).mpr
    (.inl ⟨.inl (by decide), rfl, _, rfl, fun _ h => by cases h; rfl⟩)

/-- An OR stub in front of an AND stub answers in its place. -/
theorem or_before_and :
    (∃ w1 w2, (plainContext.extractor.extract (some (getRequest.deliver ⟨[]⟩).1)).run
        ((stubbed [getStub .or "or", getStub .and "and"]).arrived getRequest).world
          = .ok getElements w1 ∧
      plainContext.storage.getStubData.run w1
        = .ok [getStub .or "or", getStub .and "and"] w2) ∧
    ¬ FollowsPriority getElements [getStub .or "or", getStub .and "and"] getRequest
      (stubbed [getStub .or "or", getStub .and "and"])
      ((HttpStubServerHandler plainContext).step (.client getRequest true)
        (stubbed [getStub .or "or", getStub .and "and"])) := by
  refine ⟨⟨_, _, rfl, rfl⟩, ?_⟩
  rintro ⟨⟨response, hresponse, hclient⟩, -⟩
  cases hresponse
  revert hclient
  decide

end Terminator.Server.StubPriority
