import Terminator.Java.Exec
import Terminator.Java.Text

/-!
# Stubs and their matchers

`StubData.java`, `StubCondition.java`, `RequestElement.java` and the three implementations of
`RequestMatcher`. A stub comes from a form or a table row, so its fields may be `null` (`none`);
a `null` in the list of conditions behaves as a condition with a `null` key does.

* **`isMatch_of_filled`**: when nothing is `null`, AND accepts iff every condition has an element,
  OR iff some condition has one, NOT iff none has.
* **`requestMatchers_of_filled`**: how the three answers hang together.
-/

namespace Terminator.Plugin

open Terminator.Java

/-- `StubData.Operator`. -/
inductive Operator where
  | and
  | or
  | not
  deriving DecidableEq, Repr

/-- `StubCondition`. -/
structure StubCondition where
  key : Option JString
  value : Option JString
  deriving DecidableEq

/-- `StubData`, without the fields nothing reads. -/
structure StubData where
  id : Nat
  operator : Option Operator
  conditions : Option (List StubCondition)
  response : Option JString
  deriving DecidableEq

/-- `RequestElement`. -/
structure RequestElement where
  key : JString
  value : JString
  deriving DecidableEq

/-- A method call on a reference that may be `null`. -/
def nonNull {α : Type} : Option α → Except Throwable α
  | some a => .ok a
  | none => .error .nullPointer

/-- The loop over the elements, the same in all three matchers: is there one with the key and
the value of the condition? -/
def hasElement (condition : StubCondition) : List RequestElement → Except Throwable Bool
  | [] => .ok false
  | re :: elements => do
    let key ← nonNull condition.key
    if key = re.key then
      let value ← nonNull condition.value
      if value = re.value then pure true else hasElement condition elements
    else hasElement condition elements

namespace AndRequestMatcher

/-- The loop over the conditions: the index `i` it stops at. -/
def loop (elements : List RequestElement) : List StubCondition → Nat → Except Throwable Nat
  | [], i => .ok i
  | condition :: conditions, i => do
    let isMatch ← hasElement condition elements
    if isMatch then loop elements conditions (i + 1) else pure i

/-- `isMatch`. -/
def isMatch (conditions : Option (List StubCondition)) (elements : List RequestElement) :
    Except Throwable Bool := do
  let conditions ← nonNull conditions
  let i ← loop elements conditions 0
  pure (conditions.length == i)

end AndRequestMatcher

/-- The loop over the conditions of `OrRequestMatcher` and `NotRequestMatcher`: it stops at the
first condition that has an element. -/
def anyMatch (elements : List RequestElement) : List StubCondition → Except Throwable Bool
  | [] => .ok false
  | condition :: conditions => do
    let isMatch ← hasElement condition elements
    if isMatch then pure true else anyMatch elements conditions

/-- `OrRequestMatcher.isMatch`. -/
def OrRequestMatcher.isMatch (conditions : Option (List StubCondition))
    (elements : List RequestElement) : Except Throwable Bool := do
  let conditions ← nonNull conditions
  anyMatch elements conditions

/-- `NotRequestMatcher.isMatch`. -/
def NotRequestMatcher.isMatch (conditions : Option (List StubCondition))
    (elements : List RequestElement) : Except Throwable Bool := do
  let conditions ← nonNull conditions
  let isMatch ← anyMatch elements conditions
  pure (!isMatch)

/-- The matcher of an operator, run on the stub it belongs to. -/
def isMatch (operator : Operator) (data : StubData) (elements : List RequestElement) :
    Except Throwable Bool :=
  match operator with
  | .not => NotRequestMatcher.isMatch data.conditions elements
  | .and => AndRequestMatcher.isMatch data.conditions elements
  | .or => OrRequestMatcher.isMatch data.conditions elements

/-! ## What a matcher answers -/

/-- A condition as a form without gaps gives it. -/
def StubCondition.Filled (c : StubCondition) : Prop := c.key ≠ none ∧ c.value ≠ none

/-- Some element has the key and the value of the condition. -/
def StubCondition.HoldsIn (c : StubCondition) (elements : List RequestElement) : Prop :=
  ∃ e ∈ elements, c.key = some e.key ∧ c.value = some e.value

instance (c : StubCondition) (elements : List RequestElement) : Decidable (c.HoldsIn elements) :=
  inferInstanceAs (Decidable (∃ e ∈ elements, c.key = some e.key ∧ c.value = some e.value))

theorem hasElement_of_filled {c : StubCondition} (hc : c.Filled) (elements : List RequestElement) :
    hasElement c elements = .ok (decide (c.HoldsIn elements)) := by
  obtain ⟨key, hkey⟩ := Option.ne_none_iff_exists'.mp hc.1
  obtain ⟨value, hvalue⟩ := Option.ne_none_iff_exists'.mp hc.2
  induction elements with
  | nil => simp [hasElement, StubCondition.HoldsIn]
  | cons re elements ih =>
    rw [hasElement, hkey, hvalue, ih]
    simp only [nonNull, bind, Except.bind, pure, Except.pure]
    by_cases hk : key = re.key
    · rw [if_pos hk]
      by_cases hv : value = re.value
      · rw [if_pos hv]
        simp [StubCondition.HoldsIn, hkey, hvalue, hk, hv]
      · rw [if_neg hv]
        simp [StubCondition.HoldsIn, hkey, hvalue, hv]
    · rw [if_neg hk]
      simp [StubCondition.HoldsIn, hkey, hvalue, hk]

theorem anyMatch_of_filled {conditions : List StubCondition} (hc : ∀ c ∈ conditions, c.Filled)
    (elements : List RequestElement) :
    anyMatch elements conditions = .ok (decide (∃ c ∈ conditions, c.HoldsIn elements)) := by
  induction conditions with
  | nil => simp [anyMatch]
  | cons c conditions ih =>
    have htail := ih fun d hd => hc d (List.mem_cons_of_mem c hd)
    rw [anyMatch, hasElement_of_filled (hc c List.mem_cons_self), htail]
    simp only [bind, Except.bind, pure, Except.pure]
    by_cases h : c.HoldsIn elements
    · simp [h]
    · simp [h]

theorem andLoop_of_filled {conditions : List StubCondition} (hc : ∀ c ∈ conditions, c.Filled)
    (elements : List RequestElement) (i : Nat) :
    ∃ n ≤ conditions.length, AndRequestMatcher.loop elements conditions i = .ok (i + n) ∧
      (n = conditions.length ↔ ∀ c ∈ conditions, c.HoldsIn elements) := by
  induction conditions generalizing i with
  | nil => exact ⟨0, Nat.le_refl 0, rfl, by simp⟩
  | cons c conditions ih =>
    rw [AndRequestMatcher.loop, hasElement_of_filled (hc c List.mem_cons_self)]
    simp only [bind, Except.bind, pure, Except.pure]
    by_cases h : c.HoldsIn elements
    · obtain ⟨n, hn, hloop, hall⟩ := ih (fun d hd => hc d (List.mem_cons_of_mem c hd)) (i + 1)
      refine ⟨n + 1, by simpa using hn, ?_, ?_⟩
      · rw [decide_eq_true h, if_pos rfl, hloop]
        congr 1
        omega
      · simp [h, hall]
    · refine ⟨0, Nat.zero_le _, ?_, ?_⟩
      · rw [decide_eq_false h, if_neg Bool.false_ne_true]
        rfl
      · simp [h]

theorem andRequestMatcher_of_filled {conditions : List StubCondition}
    (hc : ∀ c ∈ conditions, c.Filled) (elements : List RequestElement) :
    AndRequestMatcher.isMatch (some conditions) elements =
      .ok (decide (∀ c ∈ conditions, c.HoldsIn elements)) := by
  obtain ⟨n, -, hloop, hall⟩ := andLoop_of_filled hc elements 0
  have hcount : (conditions.length == n) = decide (∀ c ∈ conditions, c.HoldsIn elements) := by
    rw [Bool.beq_eq_decide_eq, decide_eq_decide, ← hall]
    exact eq_comm
  simp only [AndRequestMatcher.isMatch, nonNull, hloop, bind, Except.bind, pure, Except.pure,
    Nat.zero_add, hcount]

theorem orRequestMatcher_of_filled {conditions : List StubCondition}
    (hc : ∀ c ∈ conditions, c.Filled) (elements : List RequestElement) :
    OrRequestMatcher.isMatch (some conditions) elements =
      .ok (decide (∃ c ∈ conditions, c.HoldsIn elements)) := anyMatch_of_filled hc elements

theorem notRequestMatcher_of_filled {conditions : List StubCondition}
    (hc : ∀ c ∈ conditions, c.Filled) (elements : List RequestElement) :
    NotRequestMatcher.isMatch (some conditions) elements =
      .ok (decide (¬ ∃ c ∈ conditions, c.HoldsIn elements)) := by
  rw [decide_not, NotRequestMatcher.isMatch, nonNull]
  simp only [bind, Except.bind, anyMatch_of_filled hc elements, pure, Except.pure]

/-- What the matcher of an operator is for. -/
def Operator.Accepts (conditions : List StubCondition) (elements : List RequestElement) :
    Operator → Prop
  | .and => ∀ c ∈ conditions, c.HoldsIn elements
  | .or => ∃ c ∈ conditions, c.HoldsIn elements
  | .not => ¬ ∃ c ∈ conditions, c.HoldsIn elements

/-- **A matcher on a stub without gaps** never throws and answers what its operator says. -/
theorem isMatch_of_filled {data : StubData} {conditions : List StubCondition}
    (hdata : data.conditions = some conditions) (hc : ∀ c ∈ conditions, c.Filled)
    (operator : Operator) (elements : List RequestElement) :
    ∃ b, isMatch operator data elements = .ok b ∧
      (b = true ↔ operator.Accepts conditions elements) := by
  unfold isMatch
  rw [hdata]
  cases operator with
  | and => exact ⟨_, andRequestMatcher_of_filled hc elements, decide_eq_true_iff⟩
  | or => exact ⟨_, orRequestMatcher_of_filled hc elements, decide_eq_true_iff⟩
  | not => exact ⟨_, notRequestMatcher_of_filled hc elements, decide_eq_true_iff⟩

/-! ## How the three matchers relate -/

/-- An element that is there is still there among more. -/
theorem StubCondition.HoldsIn.mono {c : StubCondition} {elements elements' : List RequestElement}
    (h : c.HoldsIn elements) (hsub : elements ⊆ elements') : c.HoldsIn elements' := by
  obtain ⟨e, he, hkey, hvalue⟩ := h
  exact ⟨e, hsub he, hkey, hvalue⟩

/-- Only which elements there are matters, not where nor how often. -/
theorem StubCondition.holdsIn_congr (c : StubCondition) {elements elements' : List RequestElement}
    (h : ∀ e, e ∈ elements' ↔ e ∈ elements) : c.HoldsIn elements' ↔ c.HoldsIn elements :=
  ⟨fun hc => hc.mono fun e he => (h e).mp he, fun hc => hc.mono fun e he => (h e).mpr he⟩

/-- An operator other than NOT accepts among more elements what it accepts among some. -/
theorem Operator.accepts_mono (operator : Operator) (hnot : operator ≠ .not)
    {conditions : List StubCondition} {elements elements' : List RequestElement}
    (h : operator.Accepts conditions elements) (hsub : elements ⊆ elements') :
    operator.Accepts conditions elements' := by
  cases operator with
  | and => exact fun c hc => (h c hc).mono hsub
  | or =>
    obtain ⟨c, hc, hholds⟩ := h
    exact ⟨c, hc, hholds.mono hsub⟩
  | not => exact absurd rfl hnot

/-- Only which conditions and which elements there are matters. -/
theorem Operator.accepts_congr (operator : Operator) {conditions conditions' : List StubCondition}
    {elements elements' : List RequestElement} (hc : ∀ c, c ∈ conditions' ↔ c ∈ conditions)
    (he : ∀ e, e ∈ elements' ↔ e ∈ elements) :
    operator.Accepts conditions' elements' ↔ operator.Accepts conditions elements := by
  cases operator <;> simp only [Accepts, hc, StubCondition.holdsIn_congr _ he]

/-- The method `isMatch` of the matcher of an operator. -/
def Operator.matcher : Operator → Option (List StubCondition) → List RequestElement →
    Except Throwable Bool
  | .and => AndRequestMatcher.isMatch
  | .or => OrRequestMatcher.isMatch
  | .not => NotRequestMatcher.isMatch

/-- What a matcher answers, as a verdict on its operator. -/
theorem Operator.matcher_eq_ok_iff {conditions : List StubCondition}
    (hc : ∀ c ∈ conditions, c.Filled) (operator : Operator) (elements : List RequestElement)
    (b : Bool) :
    operator.matcher (some conditions) elements = .ok b ↔
      (b = true ↔ operator.Accepts conditions elements) := by
  cases operator with
  | and =>
    rw [matcher, andRequestMatcher_of_filled hc, Accepts]
    cases b <;> simp
  | or =>
    rw [matcher, orRequestMatcher_of_filled hc, Accepts]
    cases b <;> simp
  | not =>
    rw [matcher, notRequestMatcher_of_filled hc, Accepts]
    cases b <;> simp

/-- Matching conditions and elements with the same members gives the same answer. -/
theorem Operator.matcher_congr {conditions conditions' : List StubCondition}
    {elements elements' : List RequestElement} (hfilled : ∀ c ∈ conditions, c.Filled)
    (hc : ∀ c, c ∈ conditions' ↔ c ∈ conditions) (he : ∀ e, e ∈ elements' ↔ e ∈ elements)
    (operator : Operator) :
    operator.matcher (some conditions') elements' =
      operator.matcher (some conditions) elements := by
  have hfilled' : ∀ c ∈ conditions', c.Filled := fun c h => hfilled c ((hc c).mp h)
  obtain ⟨b, hb⟩ : ∃ b, operator.matcher (some conditions) elements = .ok b := by
    cases operator with
    | and => exact ⟨_, andRequestMatcher_of_filled hfilled elements⟩
    | or => exact ⟨_, orRequestMatcher_of_filled hfilled elements⟩
    | not => exact ⟨_, notRequestMatcher_of_filled hfilled elements⟩
  rw [hb, operator.matcher_eq_ok_iff hfilled', operator.accepts_congr hc he]
  exact (operator.matcher_eq_ok_iff hfilled elements b).mp hb

/-- **The matchers** of a stub without gaps: AND, OR and NOT decide the quantifiers they are named
after; NOT is the complement of OR, AND implies OR unless there is no condition, more elements
never turn AND or OR to reject nor NOT to accept, and neither the order of the conditions and of
the elements nor their repetitions matter. -/
theorem requestMatchers_of_filled {conditions : List StubCondition}
    (hc : ∀ c ∈ conditions, c.Filled) (elements : List RequestElement) :
    AndRequestMatcher.isMatch (some conditions) elements =
        .ok (decide (∀ c ∈ conditions, c.HoldsIn elements)) ∧
    OrRequestMatcher.isMatch (some conditions) elements =
        .ok (decide (∃ c ∈ conditions, c.HoldsIn elements)) ∧
    NotRequestMatcher.isMatch (some conditions) elements =
        .ok (decide (¬ ∃ c ∈ conditions, c.HoldsIn elements)) ∧
    (∃ b, OrRequestMatcher.isMatch (some conditions) elements = .ok b ∧
        NotRequestMatcher.isMatch (some conditions) elements = .ok (!b)) ∧
    (conditions ≠ [] → AndRequestMatcher.isMatch (some conditions) elements = .ok true →
        OrRequestMatcher.isMatch (some conditions) elements = .ok true) ∧
    (∀ elements', elements ⊆ elements' →
        (AndRequestMatcher.isMatch (some conditions) elements = .ok true →
          AndRequestMatcher.isMatch (some conditions) elements' = .ok true) ∧
        (OrRequestMatcher.isMatch (some conditions) elements = .ok true →
          OrRequestMatcher.isMatch (some conditions) elements' = .ok true) ∧
        (NotRequestMatcher.isMatch (some conditions) elements = .ok false →
          NotRequestMatcher.isMatch (some conditions) elements' = .ok false)) ∧
    (∀ conditions' elements', (∀ c, c ∈ conditions' ↔ c ∈ conditions) →
        (∀ e, e ∈ elements' ↔ e ∈ elements) →
        ∀ operator : Operator, operator.matcher (some conditions') elements' =
          operator.matcher (some conditions) elements) := by
  have hand := andRequestMatcher_of_filled hc
  have hor := orRequestMatcher_of_filled hc
  have hnot := notRequestMatcher_of_filled hc
  refine ⟨hand elements, hor elements, hnot elements, ?_, ?_, ?_, ?_⟩
  · exact ⟨_, hor elements, by rw [hnot, decide_not]⟩
  · intro hne hall
    obtain ⟨c, hmem⟩ := List.exists_mem_of_ne_nil conditions hne
    rw [hand, Except.ok.injEq, decide_eq_true_iff] at hall
    rw [hor, decide_eq_true ⟨c, hmem, hall c hmem⟩]
  · intro elements' hsub
    refine ⟨fun h => ?_, fun h => ?_, fun h => ?_⟩
    · rw [hand, Except.ok.injEq, decide_eq_true_iff] at h ⊢
      exact Operator.accepts_mono .and nofun h hsub
    · rw [hor, Except.ok.injEq, decide_eq_true_iff] at h ⊢
      exact Operator.accepts_mono .or nofun h hsub
    · rw [hnot, Except.ok.injEq, decide_eq_false_iff_not, not_not] at h ⊢
      exact Operator.accepts_mono .or nofun h hsub
  · exact fun conditions' elements' hconditions helements operator =>
      operator.matcher_congr hc hconditions helements

/-- A key that comes twice: the second element has the value of the condition. -/
theorem requestMatchers_of_repeated_key :
    (∀ c ∈ [StubCondition.mk (some (lit "id")) (some (lit "2"))], c.Filled) ∧
      AndRequestMatcher.isMatch (some [⟨some (lit "id"), some (lit "2")⟩])
        [⟨lit "id", lit "1"⟩, ⟨lit "id", lit "2"⟩] = .ok true := by
  have hc : ∀ c ∈ [StubCondition.mk (some (lit "id")) (some (lit "2"))], c.Filled := by
    simp [StubCondition.Filled]
  refine ⟨hc, (requestMatchers_of_filled hc _).1.trans ?_⟩
  rw [decide_eq_true (by simp [StubCondition.HoldsIn])]

end Terminator.Plugin
