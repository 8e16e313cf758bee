import Terminator.Server.Stub

/-!
# The order of the responses in STUB mode

A hit is written to the client at once, a miss when the remote server answers. `Labels` is an
observer who numbers the client's messages as they arrive, sees on the channels which of them were
answered and which were passed on, and so knows which one each response to the client answers; the
remote server answers what was passed on in its order.

**`answers_ordered_iff`**: the responses are in the order of the requests exactly when no response
of the remote server comes in after a later request has hit a stub.
-/

namespace Terminator.Server.StubOrder

open Terminator.Java Terminator.Netty Terminator.Storage Terminator.Plugin
open BaseStubServerHandler HttpStubServerHandler

variable {σ : Type}

/-- How many messages the client has sent, which of them wait for the remote server, which hit a
stub, and which one each response to the client answers. -/
structure Labels where
  arrived : Nat
  forwarded : List Nat
  hits : List Nat
  answers : List Nat

/-- What the observer notes at an event that takes the session from `s` to `s'`. -/
def Labels.step (s s' : Session σ) (t : Labels) : Event → Labels
  | .client _ _ =>
    if s.toClient.length < s'.toClient.length then
      ⟨t.arrived + 1, t.forwarded, t.hits ++ [t.arrived], t.answers ++ [t.arrived]⟩
    else if s.toRemote.length < s'.toRemote.length then
      { t with arrived := t.arrived + 1, forwarded := t.forwarded ++ [t.arrived] }
    else { t with arrived := t.arrived + 1 }
  | .remote (.response r) _ =>
    match t.forwarded with
    | [] => t
    | i :: rest =>
      { t with
        forwarded := if r.interim then i :: rest else rest
        answers := if s.toClient.length < s'.toClient.length then t.answers ++ [i]
          else t.answers }
  | .remote _ _ => t

/-- Nothing has happened yet. -/
def Labels.start : Labels := ⟨0, [], [], []⟩

variable (context : Context σ)

/-- The notes beside a run. -/
def observe : List Event → Session σ → Labels → Labels
  | [], _, t => t
  | e :: es, s, t =>
    let s' := (HttpStubServerHandler context).step e s
    observe es s' (t.step s s' e)

/-- The remote server only sends whole responses, and only while a request waits for one. -/
def Serves (t : Labels) : Event → Prop
  | .client _ _ => True
  | .remote (.response r) _ => r.chunked = false ∧ t.forwarded ≠ []
  | .remote _ _ => False

def AllServed : List Event → Session σ → Labels → Prop
  | [], _, _ => True
  | e :: es, s, t =>
    let s' := (HttpStubServerHandler context).step e s
    Serves t e ∧ AllServed es s' (t.step s s' e)

/-- No request after the one a response answers has hit a stub. -/
def Punctual (t : Labels) : Event → Prop
  | .client _ _ => True
  | .remote _ _ => ∀ i, t.forwarded.head? = some i → ∀ j ∈ t.hits, j ≤ i

def AllPunctual : List Event → Session σ → Labels → Prop
  | [], _, _ => True
  | e :: es, s, t =>
    let s' := (HttpStubServerHandler context).step e s
    Punctual t e ∧ AllPunctual es s' (t.step s s' e)

/-! ## Invariant -/

/-- Requests wait in their order, and what was answered so far hit a stub or is not younger than
any request that waits. -/
structure Invariant (s : Session σ) (t : Labels) : Prop where
  relay : s.conn.relayReadingChunks = false
  increasing : t.forwarded.Pairwise (· < ·)
  forwarded_lt : ∀ i ∈ t.forwarded, i < t.arrived
  answers_lt : ∀ a ∈ t.answers, a < t.arrived
  hits_answered : ∀ j ∈ t.hits, j ∈ t.answers
  answered : ∀ a ∈ t.answers, a ∈ t.hits ∨ ∀ i ∈ t.forwarded, a ≤ i

theorem invariant_start (w : World σ) : Invariant ⟨w, .opened⟩ .start where
  relay := rfl
  increasing := .nil
  forwarded_lt _ h := absurd h List.not_mem_nil
  answers_lt _ h := absurd h List.not_mem_nil
  hits_answered _ h := absurd h List.not_mem_nil
  answered _ h := absurd h List.not_mem_nil

/-- One more answer keeps a list of answers in order iff none of them is younger. -/
theorem pairwise_concat_iff {l : List Nat} {i : Nat} :
    (l ++ [i]).Pairwise (· ≤ ·) ↔ l.Pairwise (· ≤ ·) ∧ ∀ a ∈ l, a ≤ i := by
  simp [List.pairwise_append]

variable {context} {s : Session σ} {t : Labels}

/-- **A hit** is the answer to the youngest request. -/
theorem Invariant.hit (hi : Invariant s t) {s' : Session σ}
    (hrelay : s'.conn.relayReadingChunks = false) :
    Invariant s' ⟨t.arrived + 1, t.forwarded, t.hits ++ [t.arrived], t.answers ++ [t.arrived]⟩ ∧
      ((t.answers ++ [t.arrived]).Pairwise (· ≤ ·) ↔ t.answers.Pairwise (· ≤ ·)) := by
  refine ⟨⟨hrelay, hi.increasing, fun i h => Nat.lt_succ_of_lt (hi.forwarded_lt i h), ?_, ?_, ?_⟩,
    pairwise_concat_iff.trans (and_iff_left fun a ha => Nat.le_of_lt (hi.answers_lt a ha))⟩
  · intro a ha
    rcases List.mem_append.mp ha with ha | ha
    · exact Nat.lt_succ_of_lt (hi.answers_lt a ha)
    · rw [List.mem_singleton.mp ha]
      exact Nat.lt_succ_self _
  · intro j hj
    rcases List.mem_append.mp hj with hj | hj
    · exact List.mem_append_left _ (hi.hits_answered j hj)
    · exact List.mem_append_right _ hj
  · intro a ha
    rcases List.mem_append.mp ha with ha | ha
    · exact (hi.answered a ha).imp_left (List.mem_append_left _)
    · exact .inl (List.mem_append_right _ ha)

/-- **A miss** waits behind those before it. -/
theorem Invariant.miss (hi : Invariant s t) {s' : Session σ}
    (hrelay : s'.conn.relayReadingChunks = false) :
    Invariant s' { t with arrived := t.arrived + 1, forwarded := t.forwarded ++ [t.arrived] } := by
  refine ⟨hrelay, ?_, ?_, fun a ha => Nat.lt_succ_of_lt (hi.answers_lt a ha), hi.hits_answered, ?_⟩
  · refine List.pairwise_append.mpr ⟨hi.increasing, List.pairwise_singleton _ _, fun i h j hj => ?_⟩
    rw [List.mem_singleton.mp hj]
    exact hi.forwarded_lt i h
  · intro i h
    rcases List.mem_append.mp h with h | h
    · exact Nat.lt_succ_of_lt (hi.forwarded_lt i h)
    · rw [List.mem_singleton.mp h]
      exact Nat.lt_succ_self _
  · intro a ha
    refine (hi.answered a ha).imp_right fun hle i h => ?_
    rcases List.mem_append.mp h with h | h
    · exact hle i h
    · rw [List.mem_singleton.mp h]
      exact Nat.le_of_lt (hi.answers_lt a ha)

/-- A message whose handler threw is neither answered nor passed on. -/
theorem Invariant.thrown (hi : Invariant s t) {s' : Session σ}
    (hrelay : s'.conn.relayReadingChunks = false) :
    Invariant s' { t with arrived := t.arrived + 1 } :=
  ⟨hrelay, hi.increasing, fun i h => Nat.lt_succ_of_lt (hi.forwarded_lt i h),
    fun a ha => Nat.lt_succ_of_lt (hi.answers_lt a ha), hi.hits_answered, hi.answered⟩

/-- **A response of the remote server** is in order iff no later request has hit a stub. -/
theorem Invariant.response (hi : Invariant s t) {s' : Session σ}
    (hrelay : s'.conn.relayReadingChunks = false) {i : Nat} {rest waiting : List Nat}
    (ht : t.forwarded = i :: rest) (hwaiting : waiting = i :: rest ∨ waiting = rest) :
    Invariant s' { t with forwarded := waiting, answers := t.answers ++ [i] } ∧
      ((t.answers ++ [i]).Pairwise (· ≤ ·) ↔
        t.answers.Pairwise (· ≤ ·) ∧ ∀ j ∈ t.hits, j ≤ i) := by
  have hsub : ∀ x ∈ waiting, x ∈ t.forwarded := by
    intro x hx
    rw [ht]
    rcases hwaiting with rfl | rfl
    · exact hx
    · exact List.mem_cons_of_mem i hx
  have hinc := hi.increasing
  rw [ht] at hinc
  have hfirst : ∀ x ∈ waiting, i ≤ x := by
    intro x hx
    rcases List.mem_cons.mp (ht ▸ hsub x hx) with rfl | hx
    · exact Nat.le_refl _
    · exact Nat.le_of_lt ((List.pairwise_cons.mp hinc).1 x hx)
  refine ⟨⟨hrelay, ?_, fun x hx => hi.forwarded_lt x (hsub x hx), ?_,
    fun j hj => List.mem_append_left _ (hi.hits_answered j hj), ?_⟩, ?_⟩
  · rcases hwaiting with rfl | rfl
    · exact hinc
    · exact hinc.of_cons
  · intro a ha
    rcases List.mem_append.mp ha with ha | ha
    · exact hi.answers_lt a ha
    · rw [List.mem_singleton.mp ha]
      exact hi.forwarded_lt i (ht ▸ List.mem_cons_self)
  · intro a ha
    rcases List.mem_append.mp ha with ha | ha
    · exact (hi.answered a ha).imp_right fun hle x hx => hle x (hsub x hx)
    · rw [List.mem_singleton.mp ha]
      exact .inr hfirst
  · rw [pairwise_concat_iff]
    refine and_congr_right fun _ => ⟨fun h j hj => h j (hi.hits_answered j hj), fun h a ha => ?_⟩
    rcases hi.answered a ha with hhit | hle
    · exact h a hhit
    · exact hle i (ht ▸ List.mem_cons_self)

variable (context)

/-! ## Runs -/

/-- **A step** keeps the invariant, and keeps the answers in order exactly when it is punctual. -/
theorem step_invariant {e : Event} (hi : Invariant s t) (he : Serves t e) :
    Invariant ((HttpStubServerHandler context).step e s)
        (t.step s ((HttpStubServerHandler context).step e s) e) ∧
      ((t.step s ((HttpStubServerHandler context).step e s) e).answers.Pairwise (· ≤ ·) ↔
        t.answers.Pairwise (· ≤ ·) ∧ Punctual t e) := by
  cases e with
  | client m w =>
    obtain ⟨s', hstep, -, hrelay, hcase⟩ := step_client context m w s
    have hrelay' := hrelay.trans hi.relay
    rw [hstep]
    unfold Labels.step Punctual
    rcases hcase with ⟨_, _, -, -, hclient, hremote⟩ | ⟨_, -, -, hclient, hremote⟩ |
      ⟨_, _, -, -, hclient, hremote⟩
    · simp only [hclient, List.length_append, List.length_singleton, Nat.lt_succ_self, if_true,
        and_true]
      exact hi.hit hrelay'
    · simp only [hclient, hremote, List.length_append, List.length_singleton, Nat.lt_irrefl,
        Nat.lt_succ_self, if_true, if_false, and_true]
      exact hi.miss hrelay'
    · simp only [hclient, hremote, Nat.lt_irrefl, if_false, and_true]
      exact hi.thrown hrelay'
  | remote m w =>
    cases m with
    | request q => exact he.elim
    | chunk c => exact he.elim
    | response r =>
      obtain ⟨hr, hne⟩ := he
      obtain ⟨i, rest, ht⟩ := List.exists_cons_of_ne_nil hne
      obtain ⟨s', hstep, -, hrelay, -, hclient⟩ := step_response context hi.relay hr w
      rw [hstep]
      unfold Labels.step Punctual
      have hwaiting : (if r.interim then i :: rest else rest) = i :: rest ∨
          (if r.interim then i :: rest else rest) = rest := by
        cases r.interim with
        | true => exact .inl rfl
        | false => exact .inr rfl
      simp only [ht, hclient, List.length_append, List.length_singleton, Nat.lt_succ_self, if_true,
        List.head?_cons, Option.some.injEq, forall_eq']
      exact hi.response hrelay ht hwaiting

/-- The run form of `step_invariant`. -/
theorem run_ordered_iff (es : List Event) : ∀ {s : Session σ} {t : Labels}, Invariant s t →
    AllServed context es s t →
    ((observe context es s t).answers.Pairwise (· ≤ ·) ↔
      t.answers.Pairwise (· ≤ ·) ∧ AllPunctual context es s t) := by
  induction es with
  | nil =>
    intro s t _ _
    exact (and_iff_left trivial).symm
  | cons e es ih =>
    intro s t hi hes
    obtain ⟨hi', hiff⟩ := step_invariant context hi hes.1
    rw [observe, AllPunctual, ih hi' hes.2, hiff, and_assoc]

/-- **The order of the responses** on a connection in STUB mode. Nothing holds a hit back until the
misses before it are answered. -/
theorem answers_ordered_iff (w : World σ) {es : List Event}
    (hes : AllServed context es ⟨w, .opened⟩ .start) :
    (observe context es ⟨w, .opened⟩ .start).answers.Pairwise (· ≤ ·) ↔
      AllPunctual context es ⟨w, .opened⟩ .start := by
  rw [run_ordered_iff context es (invariant_start w) hes]
  exact and_iff_right .nil

/-- A cache with a stub for `/b`. -/
def stubForB : World CacheStorage :=
  ⟨⟨[]⟩, ⟨[], [⟨0, some .and, some [⟨some (lit "URI"), some (lit "/b")⟩], some (lit "b")⟩]⟩⟩

def get (uri : String) : Event := .client (.request (.get uri)) true

def answer : Event := .remote (.response (.ok .EMPTY_BUFFER)) true

theorem answered_before_hit :
    (observe plainContext [get "/a", answer, get "/b"] ⟨stubForB, .opened⟩ .start).answers.Pairwise
      (· ≤ ·) :=
  (answers_ordered_iff plainContext stubForB
      (show AllServed plainContext [get "/a", answer, get "/b"] ⟨stubForB, .opened⟩ .start from
        ⟨trivial, ⟨rfl, by decide⟩, trivial, trivial⟩)).mpr
    ⟨trivial, fun _ _ _ h => absurd h List.not_mem_nil, trivial, trivial⟩

/-- `/a` is passed on, `/b` hits its stub, and then `/a` is answered. -/
theorem hit_overtakes_miss :
    AllServed plainContext [get "/a", get "/b", answer] ⟨stubForB, .opened⟩ .start ∧
    ¬ (observe plainContext [get "/a", get "/b", answer] ⟨stubForB, .opened⟩
        .start).answers.Pairwise (· ≤ ·) :=
  ⟨⟨trivial, trivial, ⟨rfl, by decide⟩, trivial⟩, by decide⟩

end Terminator.Server.StubOrder
