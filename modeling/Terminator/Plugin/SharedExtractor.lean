import Mathlib.Logic.Function.Iterate
import Terminator.Plugin.Extractor
import Terminator.Run.Invariant

/-!
# One `HttpXmlExtractor` for all connections

`configLink` gives a link one extractor, and the handlers of all its connections call it, each on
the thread of its own channel. `extract` collects the leaves of a document in the field `contentmap`
and copies them from there, so calls that overlap work on one list. Here a call is its steps on that
list: `clear`, one `add` a leaf, then `size` and `get` in turn.

**`own_of_apart`**: every call returns the elements of its own request, whatever the order of the
steps, if no call clears the list while another is between its `clear` and its return.
-/

namespace Terminator.Plugin.HttpXmlExtractor

open Terminator.Java Terminator.Netty Terminator.Storage Terminator.Run

/-! ## The leaves of a document -/

mutual

/-- The leaves, in document order. -/
def leaves : Element → List RequestElement
  | .mk name textTrim [] => [⟨name, textTrim⟩]
  | .mk _ _ (elem :: elements) => leaves elem ++ leavesOf elements

def leavesOf : List Element → List RequestElement
  | [] => []
  | elem :: elements => leaves elem ++ leavesOf elements

end

mutual

/-- `getElementList` adds the leaves one by one. -/
theorem getElementList_eq (elem : Element) (contentmap : List RequestElement) :
    getElementList elem contentmap = contentmap ++ leaves elem := by
  cases elem with
  | mk name textTrim elements =>
    cases elements with
    | nil => rw [getElementList, leaves]
    | cons elem elements =>
      rw [getElementList, leaves, getElementLists_eq, getElementList_eq, List.append_assoc]

theorem getElementLists_eq (elements : List Element) (contentmap : List RequestElement) :
    getElementLists elements contentmap = contentmap ++ leavesOf elements := by
  cases elements with
  | nil => rw [getElementLists, leavesOf, List.append_nil]
  | cons elem elements =>
    rw [getElementLists, leavesOf, getElementLists_eq, getElementList_eq, List.append_assoc]

end

/-! ## The steps of a call -/

/-- What a call has found before it comes to `contentmap`: METHOD, URI and headers, and the root of
the document if there is one. -/
structure Call where
  elements : List RequestElement
  root : Option Element

/-- `extract` up to `contentmap.clear()`. -/
def prepare (cs : Charset) (dom4j : Dom4j) (httpRequest : HttpRequest ChannelBuffer) :
    Except Throwable Call := do
  let uri_elements ← UriElementGetter.getUri httpRequest.uri
  let elements := requestElements httpRequest uri_elements
  if httpRequest.content.readable then
    let root ← rootElement dom4j (cs.decode httpRequest.content.content)
    pure ⟨elements, some root⟩
  else pure ⟨elements, none⟩

namespace Call

/-- The leaves of the call's own document. -/
def leaves (c : Call) : List RequestElement :=
  match c.root with
  | none => []
  | some root => HttpXmlExtractor.leaves root

/-- What the call should return. -/
def result (c : Call) : List RequestElement := c.elements ++ c.leaves

end Call

/-- Where a call is. -/
inductive Phase where
  | idle
  /-- Before `contentmap.clear()`. -/
  | clearing (c : Call)
  /-- In `getElementList`, with these leaves to come. -/
  | adding (c : Call) (rest : List RequestElement)
  /-- Before `i < contentmap.size()`. -/
  | sizing (c : Call) (i : Nat) (elements : List RequestElement)
  /-- Before `contentmap.get(i)`. -/
  | getting (c : Call) (i : Nat) (elements : List RequestElement)
  | returned (c : Call) (elements : List RequestElement)
  /-- `get` threw an `IndexOutOfBoundsException`. -/
  | thrown (c : Call)

/-- Behind the last leaf the loop begins. -/
def Phase.toAdd (c : Call) : List RequestElement → Phase
  | [] => .sizing c 0 c.elements
  | leaf :: rest => .adding c (leaf :: rest)

/-- The next step of a call on `contentmap`. -/
def next (contentmap : List RequestElement) : Phase → List RequestElement × Phase
  | .clearing c => ([], .toAdd c c.leaves)
  | .adding c [] => (contentmap, .toAdd c [])
  | .adding c (leaf :: rest) => (contentmap ++ [leaf], .toAdd c rest)
  | .sizing c i elements =>
    if i < contentmap.length then (contentmap, .getting c i elements)
    else (contentmap, .returned c elements)
  | .getting c i elements =>
    match load contentmap i with
    | .ok element => (contentmap, .sizing c (i + 1) (elements ++ [element]))
    | .error _ => (contentmap, .thrown c)
  | p => (contentmap, p)

/-- The extractor of a link: the field, and the calls on it by the threads that make them. -/
structure Shared where
  contentmap : List RequestElement
  phase : Nat → Phase

inductive Event where
  /-- Thread `t` calls `extract`. -/
  | extract (t : Nat) (httpRequest : HttpRequest ChannelBuffer)
  /-- The call of thread `t` goes on by a step. -/
  | go (t : Nat)

/-- A call is in progress. -/
def Phase.InCall : Phase → Prop
  | .clearing _ | .adding _ _ | .sizing _ _ _ | .getting _ _ _ => True
  | .idle | .returned _ _ | .thrown _ => False

instance : DecidablePred Phase.InCall
  | .clearing _ | .adding _ _ | .sizing _ _ _ | .getting _ _ _ => isTrue trivial
  | .idle | .returned _ _ | .thrown _ => isFalse id

/-- The first phase of a call; one that throws before it comes to the list is over. -/
def Phase.start : Except Throwable Call → Phase
  | .error _ => .idle
  | .ok c => if c.root.isSome then .clearing c else .returned c c.elements

/-- One event. -/
def step (cs : Charset) (dom4j : Dom4j) : Event → Shared → Shared
  | .extract t httpRequest, s =>
    if (s.phase t).InCall then s
    else { s with phase := Function.update s.phase t (.start (prepare cs dom4j httpRequest)) }
  | .go t, s =>
    let (contentmap, p) := next s.contentmap (s.phase t)
    ⟨contentmap, Function.update s.phase t p⟩

/-! ## What should hold -/

/-- Every call has returned the elements of its own request, or is still in progress. -/
def Own (s : Shared) : Prop :=
  ∀ t, (∀ c elements, s.phase t = .returned c elements → elements = c.result) ∧
    ∀ c, s.phase t ≠ .thrown c

/-- The call has cleared the list, and may look at it again. -/
def Phase.UsesList : Phase → Prop
  | .adding _ _ | .sizing _ _ _ | .getting _ _ _ => True
  | _ => False

/-- No call clears the list while another uses it. -/
def Apart : Event → Shared → Prop
  | .go t, s => ∀ c, s.phase t = .clearing c → ∀ u, u ≠ t → ¬ (s.phase u).UsesList
  | _, _ => True

/-- What a call that has the list to itself may rely on. -/
def PhaseOk (contentmap : List RequestElement) : Phase → Prop
  | .idle | .clearing _ => True
  | .adding c rest => contentmap ++ rest = c.leaves
  | .sizing c i elements =>
    contentmap = c.leaves ∧ i ≤ contentmap.length ∧ elements = c.elements ++ contentmap.take i
  | .getting c i elements =>
    contentmap = c.leaves ∧ i < contentmap.length ∧ elements = c.elements ++ contentmap.take i
  | .returned c elements => elements = c.result
  | .thrown _ => False

/-- At most one call uses the list, and it finds there what it has put there. -/
structure Inv (s : Shared) : Prop where
  one : ∀ t u, (s.phase t).UsesList → (s.phase u).UsesList → t = u
  ok : ∀ t, PhaseOk s.contentmap (s.phase t)

/-! ## One step -/

section Steps

variable {contentmap contentmap' : List RequestElement} {p : Phase}

theorem phaseOk_toAdd {c : Call} {rest : List RequestElement} (h : contentmap ++ rest = c.leaves) :
    PhaseOk contentmap (.toAdd c rest) := by
  cases rest with
  | nil =>
    rw [List.append_nil] at h
    exact ⟨h, Nat.zero_le _, (List.append_nil _).symm⟩
  | cons leaf rest => exact h

/-- A call that has the list to itself goes on. -/
theorem phaseOk_next (h : PhaseOk contentmap p) :
    PhaseOk (next contentmap p).1 (next contentmap p).2 := by
  cases p with
  | idle | returned | thrown => exact h
  | clearing c => exact phaseOk_toAdd (List.nil_append _)
  | adding c rest =>
    cases rest with
    | nil => exact phaseOk_toAdd h
    | cons leaf rest =>
      have hadded : contentmap ++ [leaf] ++ rest = c.leaves := by
        rw [List.append_assoc]
        exact h
      exact phaseOk_toAdd hadded
  | sizing c i elements =>
    obtain ⟨hown, hle, helements⟩ := h
    by_cases hlt : i < contentmap.length
    · have hnext : next contentmap (.sizing c i elements) =
          (contentmap, .getting c i elements) := if_pos hlt
      rw [hnext]
      exact ⟨hown, hlt, helements⟩
    · have hnext : next contentmap (.sizing c i elements) =
          (contentmap, .returned c elements) := if_neg hlt
      rw [hnext]
      have hi : i = contentmap.length := by omega
      rw [hi, List.take_length, hown] at helements
      exact helements
  | getting c i elements =>
    obtain ⟨hown, hlt, helements⟩ := h
    have hnext : next contentmap (.getting c i elements) =
        (contentmap, .sizing c (i + 1) (elements ++ [contentmap[i]])) := by
      simp only [next, load_of_lt hlt]
    rw [hnext]
    refine ⟨hown, hlt, ?_⟩
    rw [helements, List.append_assoc, List.take_concat_get' contentmap i hlt]

/-- The list is nothing to a call that does not use it. -/
theorem phaseOk_of_not_usesList (h : PhaseOk contentmap p) (hp : ¬ p.UsesList) :
    PhaseOk contentmap' p := by
  cases p with
  | idle | clearing | returned | thrown => exact h
  | adding | sizing | getting => exact absurd trivial hp

/-- A call that uses the list after its step did so before, or has just cleared it. -/
theorem usesList_of_next (h : (next contentmap p).2.UsesList) :
    p.UsesList ∨ ∃ c, p = .clearing c := by
  cases p with
  | idle | returned | thrown => exact h.elim
  | clearing c => exact .inr ⟨c, rfl⟩
  | adding | sizing | getting => exact .inl trivial

/-- A call that neither uses the list nor clears it leaves it alone. -/
theorem next_fst_of_not_usesList (hp : ¬ p.UsesList) (hclear : ∀ c, p ≠ .clearing c) :
    (next contentmap p).1 = contentmap := by
  cases p with
  | idle | returned | thrown => rfl
  | clearing c => exact absurd rfl (hclear c)
  | adding | sizing | getting => exact absurd trivial hp

theorem not_usesList_start (r : Except Throwable Call) : ¬ (Phase.start r).UsesList := by
  unfold Phase.start
  cases r with
  | error e => exact id
  | ok c =>
    dsimp only
    split
    · exact id
    · exact id

theorem phaseOk_start (r : Except Throwable Call) : PhaseOk contentmap (.start r) := by
  unfold Phase.start
  cases r with
  | error e => trivial
  | ok c =>
    dsimp only
    by_cases hroot : c.root.isSome = true
    · rw [if_pos hroot]
      trivial
    · rw [if_neg hroot]
      have hnone : c.root = none := by simpa using hroot
      change c.elements = c.elements ++ c.leaves
      rw [Call.leaves, hnone, List.append_nil]

variable {s : Shared} {cs : Charset} {dom4j : Dom4j}

theorem inv_extract (h : Inv s) (t : Nat) (httpRequest : HttpRequest ChannelBuffer) :
    Inv (step cs dom4j (.extract t httpRequest) s) := by
  unfold step
  dsimp only
  by_cases hcall : (s.phase t).InCall
  · rw [if_pos hcall]
    exact h
  · rw [if_neg hcall]
    have huses (u : Nat) (hu : (Function.update s.phase t
        (.start (prepare cs dom4j httpRequest)) u).UsesList) : (s.phase u).UsesList := by
      by_cases hut : u = t
      · rw [hut, Function.update_self] at hu
        exact absurd hu (not_usesList_start _)
      · rw [Function.update_of_ne hut] at hu
        exact hu
    refine ⟨fun u v hu hv => h.one u v (huses u hu) (huses v hv), fun u => ?_⟩
    dsimp only
    by_cases hut : u = t
    · rw [hut, Function.update_self]
      exact phaseOk_start _
    · rw [Function.update_of_ne hut]
      exact h.ok u

theorem inv_go (h : Inv s) {t : Nat} (hapart : Apart (.go t) s) :
    Inv (step cs dom4j (.go t) s) := by
  -- the others have nothing to do with the list while thread `t` clears or uses it
  have hothers (huses : (s.phase t).UsesList ∨ ∃ c, s.phase t = .clearing c) (u : Nat)
      (hut : u ≠ t) : ¬ (s.phase u).UsesList := by
    rcases huses with huses | ⟨c, hc⟩
    · exact fun hu => hut (h.one u t hu huses)
    · exact hapart c hc u hut
  have hold (u : Nat) (hut : u ≠ t) :
      (step cs dom4j (.go t) s).phase u = s.phase u := Function.update_of_ne hut _ _
  have hself : (step cs dom4j (.go t) s).phase t = (next s.contentmap (s.phase t)).2 :=
    Function.update_self _ _ _
  have hmap : (step cs dom4j (.go t) s).contentmap = (next s.contentmap (s.phase t)).1 := rfl
  constructor
  · intro u v hu hv
    by_cases hut : u = t
    · by_cases hvt : v = t
      · exact hut.trans hvt.symm
      · rw [hut, hself] at hu
        rw [hold v hvt] at hv
        exact absurd hv (hothers (usesList_of_next hu) v hvt)
    · rw [hold u hut] at hu
      by_cases hvt : v = t
      · rw [hvt, hself] at hv
        exact absurd hu (hothers (usesList_of_next hv) u hut)
      · rw [hold v hvt] at hv
        exact h.one u v hu hv
  · intro u
    rw [hmap]
    by_cases hut : u = t
    · rw [hut, hself]
      exact phaseOk_next (h.ok t)
    · rw [hold u hut]
      by_cases huses : (s.phase t).UsesList ∨ ∃ c, s.phase t = .clearing c
      · exact phaseOk_of_not_usesList (h.ok u) (hothers huses u hut)
      · obtain ⟨hnot, hclear⟩ := not_or.mp huses
        rw [next_fst_of_not_usesList hnot fun c hc => hclear ⟨c, hc⟩]
        exact h.ok u

theorem inv_step (e : Event) (s : Shared) (h : Inv s) (he : Apart e s) :
    Inv (step cs dom4j e s) := by
  cases e with
  | extract t httpRequest => exact inv_extract h t httpRequest
  | go t => exact inv_go h he

end Steps

theorem Inv.own {s : Shared} (h : Inv s) : Own s := by
  intro t
  have hok := h.ok t
  constructor
  · intro c elements hreturned
    rw [hreturned] at hok
    exact hok
  · intro c hthrown
    rw [hthrown] at hok
    exact hok

/-! ## A call by itself -/

/-- The call returns its own elements, and leaves its leaves, when it takes all the steps. -/
def Returns (c : Call) (contentmap : List RequestElement) (p : Phase) : Prop :=
  ∃ n, (fun mp : List RequestElement × Phase => next mp.1 mp.2)^[n] (contentmap, p) =
    (c.leaves, .returned c c.result)

theorem returns_of_next {c : Call} {contentmap : List RequestElement} {p : Phase}
    (h : Returns c (next contentmap p).1 (next contentmap p).2) : Returns c contentmap p := by
  obtain ⟨n, hn⟩ := h
  exact ⟨n + 1, (Function.iterate_succ_apply _ n _).trans hn⟩

/-- The loop, by induction on the leaves that are not copied yet. -/
theorem returns_sizing (c : Call) (k : Nat) :
    ∀ i, i + k = c.leaves.length →
      Returns c c.leaves (.sizing c i (c.elements ++ c.leaves.take i)) := by
  induction k with
  | zero =>
    intro i hi
    have hnext : next c.leaves (.sizing c i (c.elements ++ c.leaves.take i)) =
        (c.leaves, .returned c (c.elements ++ c.leaves.take i)) := if_neg (by omega)
    refine returns_of_next ⟨0, ?_⟩
    rw [hnext, List.take_of_length_le (by omega)]
    rfl
  | succ k ih =>
    intro i hi
    have hlt : i < c.leaves.length := by omega
    have hsize : next c.leaves (.sizing c i (c.elements ++ c.leaves.take i)) =
        (c.leaves, .getting c i (c.elements ++ c.leaves.take i)) := if_pos hlt
    have hget : next c.leaves (.getting c i (c.elements ++ c.leaves.take i)) =
        (c.leaves, .sizing c (i + 1) (c.elements ++ c.leaves.take i ++ [c.leaves[i]])) := by
      simp only [next, load_of_lt hlt]
    refine returns_of_next (hsize ▸ returns_of_next (hget ▸ ?_))
    rw [List.append_assoc, List.take_concat_get' c.leaves i hlt]
    exact ih (i + 1) (by omega)

theorem returns_toAdd (c : Call) (rest : List RequestElement) :
    ∀ contentmap, contentmap ++ rest = c.leaves → Returns c contentmap (.toAdd c rest) := by
  induction rest with
  | nil =>
    intro contentmap h
    rw [List.append_nil] at h
    rw [h]
    have hstart := returns_sizing c c.leaves.length 0 (Nat.zero_add _)
    rw [List.take_zero, List.append_nil] at hstart
    exact hstart
  | cons leaf rest ih =>
    intro contentmap h
    refine returns_of_next (ih (contentmap ++ [leaf]) ?_)
    rw [List.append_assoc]
    exact h

/-- **A call by itself** returns its own elements, whatever it finds in the list. -/
theorem returns_clearing (c : Call) (contentmap : List RequestElement) :
    Returns c contentmap (.clearing c) :=
  returns_of_next (returns_toAdd c c.leaves [] (List.nil_append _))

/-- The end of `extract` in one piece. -/
def collect (dom4j : Dom4j) (stringContent : JString) :
    Method (World (List RequestElement)) (List RequestElement) := do
  let root ← fromExcept (rootElement dom4j stringContent)
  modify fun w => { w with hidden := [] }
  modify fun w => { w with hidden := getElementList root w.hidden }
  pure (← get).hidden

theorem collect_run_of_ok {dom4j : Dom4j} {text : JString} {root : Element}
    (h : rootElement dom4j text = .ok root) (w : World (List RequestElement)) :
    (collect dom4j text).run w = .ok (leaves root) { w with hidden := leaves root } := by
  have hleaves : getElementList root [] = leaves root := getElementList_eq root []
  unfold collect
  rw [h, run_bind_of_ok (run_fromExcept_ok root w), ← hleaves]
  rfl

section Sequential

variable {cs : Charset} {dom4j : Dom4j} {q : HttpRequest Ref} {w : World (List RequestElement)}

/-- What `prepare` makes of the request, once the elements of the URI are there. -/
theorem prepare_of_uri {uri : List RequestElement} (h : UriElementGetter.getUri q.uri = .ok uri) :
    prepare cs dom4j (q.map w.heap.get) =
      if (w.heap.get q.content).readable then
        (rootElement dom4j (cs.decode (w.heap.get q.content).content)).map fun root =>
          ⟨requestElements q uri, some root⟩
      else .ok ⟨requestElements q uri, none⟩ := by
  have h' : UriElementGetter.getUri (q.map w.heap.get).uri = .ok uri := h
  unfold prepare
  rw [h']
  rfl

/-- **`extract`** in one piece returns what the call returns by itself. -/
theorem extract_run_of_prepare {c : Call} (h : prepare cs dom4j (q.map w.heap.get) = .ok c) :
    ∃ w', (extract cs dom4j (some (.request q))).run w = .ok c.result w' := by
  have hextract : extract cs dom4j =
      extractWith cs UriElementGetter.getUri (collect dom4j) := rfl
  rw [hextract]
  cases huri : UriElementGetter.getUri q.uri with
  | error e =>
    have h' : UriElementGetter.getUri (q.map w.heap.get).uri = .error e := huri
    unfold prepare at h
    rw [h'] at h
    cases h
  | ok uri =>
    rw [prepare_of_uri huri] at h
    rw [extractWith_run huri]
    by_cases hr : (w.heap.get q.content).readable = true
    · rw [if_pos hr] at h
      cases hroot : rootElement dom4j (cs.decode (w.heap.get q.content).content) with
      | error e =>
        rw [hroot] at h
        cases h
      | ok root =>
        rw [hroot] at h
        cases h
        rw [if_pos hr, run_bind_of_ok (collect_run_of_ok hroot _)]
        exact ⟨_, rfl⟩
    · rw [if_neg hr] at h
      cases h
      rw [if_neg hr, Call.result, Call.leaves, List.append_nil]
      exact ⟨_, rfl⟩

end Sequential

/-! ## Runs -/

/-- An extractor no call has been made on. -/
def Shared.new : Shared := ⟨[], fun _ => .idle⟩

/-- **Each call returns the elements of its own request** in a run in which no call clears the list
while another uses it. -/
theorem own_of_apart (cs : Charset) (dom4j : Dom4j) {es : List Event}
    (hes : Meets (step cs dom4j) Apart es .new) : Always (step cs dom4j) Own es .new :=
  always_of_invariant (fun _ h => h.own) inv_step ⟨fun _ _ h => h.elim, fun _ => trivial⟩ hes

/-- A parser that knows two documents of one leaf each. -/
def twoDocuments : Dom4j where
  parseText text :=
    if text = lit "<a>1</a>" then .ok (.mk (lit "a") (lit "1") [])
    else if text = lit "<b>2</b>" then .ok (.mk (lit "b") (lit "2") [])
    else .error .document

/-- `POST /` with one of the two documents. -/
def postA : HttpRequest ChannelBuffer := .post "/" (utf8.encode (lit "<a>1</a>"))

def postB : HttpRequest ChannelBuffer := .post "/" (utf8.encode (lit "<b>2</b>"))

/-- Two calls begin, and the second comes to the list after the first has returned. -/
def oneByOne : List Event :=
  .extract 0 postA :: .extract 1 postB :: List.replicate 5 (.go 0) ++ List.replicate 5 (.go 1)

theorem own_oneByOne : Always (step utf8 twoDocuments) Own oneByOne .new :=
  own_of_apart utf8 twoDocuments (by
    refine ⟨trivial, trivial, fun _ _ u hu => ?_, nofun, nofun, nofun, nofun, fun _ _ u hu => ?_,
      nofun, nofun, nofun, nofun, trivial⟩
    · rcases u with _ | _ | u
      · exact absurd rfl hu
      · exact id
      · exact id
    · rcases u with _ | _ | u
      · exact id
      · exact absurd rfl hu
      · exact id)

/-- The second call clears the list and adds its leaf between the first call's `add` and `get`. -/
def clearInBetween : List Event :=
  [.extract 0 postA, .extract 1 postB, .go 0, .go 0, .go 1, .go 1, .go 0, .go 0, .go 0]

/-- The first call returns the leaf of the second one's document. -/
theorem not_own_clearInBetween :
    ¬ Always (step utf8 twoDocuments) Own clearInBetween .new := by
  intro h
  have hown := always_iff.mp h clearInBetween [] (List.append_nil _).symm
  have hresult := (hown 0).1 _ _ rfl
  revert hresult
  decide

end Terminator.Plugin.HttpXmlExtractor
