import Mathlib.Data.List.TakeWhile
import Terminator.Java.MergeRuns

/-!
# `Collections.sort`

The sort of the JDK, `TimSort` (as in Java 7), with a comparator that may throw. A list
shorter than `MIN_MERGE` is sorted by its leading run, reversed when it is strictly descending, and
a binary insertion of the rest. A longer one is cut into such runs, which are merged as they are
found (`MergeRuns`).

The comparator need not be an order.

* **`perm_of_sort`**: what a sort returns is the list in another order;
* **`sort_of_leading`** says what comes out of a short list when a comparator is negative iff its
  *left* argument is a leading element: the leading elements in reverse, then the others as they
  stood.
-/

namespace Terminator.Java.TimSort

variable {α : Type}

/-- `MIN_MERGE`. -/
def MIN_MERGE : Nat := 32

section Algorithm

variable (compare : α → α → Except Throwable Int)

/-- How many elements after `prev` continue its run: each is negative against the one before it
in a descending run, not negative in an ascending one. -/
def runLength (descending : Bool) : α → List α → Except Throwable Nat
  | _, [] => .ok 0
  | prev, a :: rest => do
    let v ← compare a prev
    if decide (v < 0) = descending then
      let n ← runLength descending a rest
      pure (n + 1)
    else pure 0

/-- `countRunAndMakeAscending`: the leading run, ascending, and the rest. -/
def countRunAndMakeAscending : List α → Except Throwable (List α × List α)
  | [] => .ok ([], [])
  | [a] => .ok ([a], [])
  | a0 :: a1 :: rest => do
    let v ← compare a1 a0
    let descending := decide (v < 0)
    let n ← runLength compare descending a1 rest
    let run := a0 :: a1 :: rest.take n
    pure (if descending then run.reverse else run, rest.drop n)

/-- The binary search of `binarySort`; the interval shrinks, so its length is fuel enough. -/
def binarySearch (pivot : α) (sorted : List α) : Nat → Nat → Nat → Except Throwable Nat
  | 0, left, _ => .ok left
  | fuel + 1, left, right =>
    if left < right then do
      let mid := (left + right) / 2
      let v ← compare pivot (← load sorted mid)
      if v < 0 then binarySearch pivot sorted fuel left mid
      else binarySearch pivot sorted fuel (mid + 1) right
    else .ok left

/-- `binarySort`: insert the elements of `rest` into the sorted prefix, one by one. -/
def binarySort : List α → List α → Except Throwable (List α)
  | sorted, [] => .ok sorted
  | sorted, pivot :: rest => do
    let left ← binarySearch compare pivot sorted sorted.length 0 sorted.length
    binarySort (sorted.take left ++ pivot :: sorted.drop left) rest

/-- `minRunLength`: the length, halved until it is short, with the bits that fell out in `r`. -/
def minRunLength (r n : Nat) : Nat :=
  if MIN_MERGE ≤ n then minRunLength (r ||| n % 2) (n / 2) else n + r
termination_by n
decreasing_by
  simp only [MIN_MERGE] at *
  omega

/-- The next run, made as long as `minRun` if there is enough, and the rest. -/
def nextRun (minRun : Nat) (a : List α) : Except Throwable (List α × List α) := do
  let (run, rest) ← countRunAndMakeAscending compare a
  if run.length < minRun then do
    let force := if a.length ≤ minRun then a.length else minRun
    let sorted ← binarySort compare run (rest.take (force - run.length))
    pure (sorted, rest.drop (force - run.length))
  else pure (run, rest)

/-- Two neighbours on the stack of runs: the last two, or the two below the last. -/
inductive Neighbours where
  | last
  | below

/-- What `mergeCollapse` merges, if anything. The last run comes first. -/
def collapseAt : List (List α) → Option Neighbours
  | run2 :: run1 :: run0 :: _ =>
    if run0.length ≤ run1.length + run2.length then
      some (if run0.length < run2.length then .below else .last)
    else if run1.length ≤ run2.length then some .last
    else none
  | [run1, run0] => if run0.length ≤ run1.length then some .last else none
  | _ => none

/-- What `mergeForceCollapse` merges. -/
def forceCollapseAt : List (List α) → Option Neighbours
  | run2 :: _ :: run0 :: _ => some (if run0.length < run2.length then .below else .last)
  | [_, _] => some .last
  | _ => none

/-- `mergeAt` on the stack; with `minGallop`. -/
def mergeStack : Neighbours → List (List α) → Nat → Except Throwable (List (List α) × Nat)
  | .last, run1 :: run0 :: stack, minGallop => do
    let (merged, minGallop) ← mergeAt compare run0 run1 minGallop
    pure (merged :: stack, minGallop)
  | .below, run2 :: run1 :: run0 :: stack, minGallop => do
    let (merged, minGallop) ← mergeAt compare run0 run1 minGallop
    pure (run2 :: merged :: stack, minGallop)
  | _, _, _ => .error .indexOutOfBounds

variable {compare}

/-- How `mergeStack` can end. -/
inductive Merges (compare : α → α → Except Throwable Int) (minGallop : Nat) :
    List (List α) → List (List α) × Nat → Prop where
  | mk {above stack : List (List α)} {run0 run1 merged : List α} {minGallop' : Nat}
      (h : mergeAt compare run0 run1 minGallop = .ok (merged, minGallop')) :
      Merges compare minGallop (above ++ run1 :: run0 :: stack)
        (above ++ merged :: stack, minGallop')

theorem mergeStack_merges {neighbours : Neighbours} {stack : List (List α)} {minGallop : Nat}
    {s' : List (List α) × Nat} (h : mergeStack compare neighbours stack minGallop = .ok s') :
    Merges compare minGallop stack s' := by
  unfold mergeStack at h
  split at h
  · obtain ⟨⟨merged, minGallop'⟩, hmerged, h⟩ := bind_eq_ok_iff.mp h
    cases h
    exact @Merges.mk _ compare minGallop [] _ _ _ _ _ hmerged
  · obtain ⟨⟨merged, minGallop'⟩, hmerged, h⟩ := bind_eq_ok_iff.mp h
    cases h
    exact @Merges.mk _ compare minGallop [_] _ _ _ _ _ hmerged
  · cases h

theorem Merges.length {minGallop : Nat} {stack : List (List α)} {s' : List (List α) × Nat}
    (h : Merges compare minGallop stack s') : s'.1.length + 1 = stack.length := by
  cases h with
  | mk h =>
    simp only [List.length_append, List.length_cons]
    omega

/-- The loop over the stack. -/
def collapse (compare : α → α → Except Throwable Int)
    (choose : List (List α) → Option Neighbours) :
    Loop (List (List α) × Nat) (List (List α) × Nat) where
  body s :=
    match choose s.1 with
    | none => pure (.done s)
    | some neighbours => do
      let s' ← mergeStack compare neighbours s.1 s.2
      pure (.next s')
  measure s := s.1.length
  decreases {s s'} h := by
    split at h
    · cases h
    · obtain ⟨s'', hmerged, h⟩ := bind_eq_ok_iff.mp h
      cases h
      have hlength := (mergeStack_merges hmerged).length
      omega

/-- `mergeCollapse`. -/
def mergeCollapse (compare : α → α → Except Throwable Int) (stack : List (List α))
    (minGallop : Nat) : Except Throwable (List (List α) × Nat) :=
  (collapse compare collapseAt).run (stack, minGallop)

/-- `mergeForceCollapse`. -/
def mergeForceCollapse (compare : α → α → Except Throwable Int) (stack : List (List α))
    (minGallop : Nat) : Except Throwable (List (List α) × Nat) :=
  (collapse compare forceCollapseAt).run (stack, minGallop)

end Algorithm

/-! ## What is sorted stays -/

section Perm

variable {compare : α → α → Except Throwable Int} {a out : List α}

theorem perm_of_countRun {run rest : List α}
    (h : countRunAndMakeAscending compare a = .ok (run, rest)) : (run ++ rest).Perm a := by
  match a with
  | [] =>
    cases h
    exact .nil
  | [x] =>
    cases h
    exact List.Perm.refl _
  | a0 :: a1 :: tail =>
    simp only [countRunAndMakeAscending] at h
    cases hv : compare a1 a0 with
    | error e =>
      rw [hv] at h
      cases h
    | ok v =>
      cases hn : runLength compare (decide (v < 0)) a1 tail with
      | error e =>
        simp only [hv, bind, Except.bind, hn] at h
        cases h
      | ok n =>
        simp only [hv, bind, Except.bind, hn, pure, Except.pure, Except.ok.injEq,
          Prod.mk.injEq] at h
        obtain ⟨rfl, rfl⟩ := h
        have hwhole : a0 :: a1 :: tail = a0 :: a1 :: tail.take n ++ tail.drop n := by simp
        rw [hwhole]
        refine List.Perm.append_right _ ?_
        by_cases hdescending : decide (v < 0) = true
        · rw [if_pos hdescending]
          exact List.reverse_perm _
        · rw [if_neg hdescending]

theorem perm_of_binarySort {sorted rest : List α} (h : binarySort compare sorted rest = .ok out) :
    out.Perm (sorted ++ rest) := by
  induction rest generalizing sorted with
  | nil =>
    cases h
    rw [List.append_nil]
  | cons pivot rest ih =>
    unfold binarySort at h
    cases hpos : binarySearch compare pivot sorted sorted.length 0 sorted.length with
    | error e =>
      rw [hpos] at h
      cases h
    | ok left =>
      rw [hpos] at h
      have hinserted :
          (sorted.take left ++ pivot :: sorted.drop left).Perm (sorted ++ [pivot]) := by
        refine List.perm_middle.trans ?_
        rw [List.take_append_drop]
        exact (List.perm_append_singleton pivot sorted).symm
      refine (ih h).trans ((hinserted.append_right rest).trans ?_)
      rw [List.append_assoc, List.singleton_append]

/-- A run is found where there is something. -/
theorem run_ne_nil_of_countRun {run rest : List α}
    (h : countRunAndMakeAscending compare a = .ok (run, rest)) (ha : a ≠ []) : run ≠ [] := by
  match a with
  | [] => exact absurd rfl ha
  | [x] =>
    cases h
    exact List.cons_ne_nil x []
  | a0 :: a1 :: tail =>
    obtain ⟨v, -, h⟩ := bind_eq_ok_iff.mp h
    obtain ⟨n, -, h⟩ := bind_eq_ok_iff.mp h
    cases h
    split
    · simp
    · simp

/-- How `nextRun` can end. -/
theorem nextRun_spec {minRun : Nat} {run rest : List α}
    (h : nextRun compare minRun a = .ok (run, rest)) :
    ∃ run0 rest0, countRunAndMakeAscending compare a = .ok (run0, rest0) ∧
      (run = run0 ∧ rest = rest0 ∨ ∃ n, binarySort compare run0 (rest0.take n) = .ok run ∧
        rest = rest0.drop n) := by
  obtain ⟨⟨run0, rest0⟩, hrun, h⟩ := bind_eq_ok_iff.mp h
  refine ⟨run0, rest0, hrun, ?_⟩
  dsimp only at h
  split at h
  · obtain ⟨sorted, hsorted, h⟩ := bind_eq_ok_iff.mp h
    cases h
    exact .inr ⟨_, hsorted, rfl⟩
  · cases h
    exact .inl ⟨rfl, rfl⟩

theorem perm_of_nextRun {minRun : Nat} {run rest : List α}
    (h : nextRun compare minRun a = .ok (run, rest)) : (run ++ rest).Perm a := by
  obtain ⟨run0, rest0, hrun, ⟨rfl, rfl⟩ | ⟨n, hsorted, rfl⟩⟩ := nextRun_spec h
  · exact perm_of_countRun hrun
  · refine ((perm_of_binarySort hsorted).append_right _).trans ?_
    rw [List.append_assoc, List.take_append_drop]
    exact perm_of_countRun hrun

/-- Less is left after a run. -/
theorem length_lt_of_nextRun {minRun : Nat} {run rest : List α} (ha : a ≠ [])
    (h : nextRun compare minRun a = .ok (run, rest)) : rest.length < a.length := by
  obtain ⟨run0, rest0, hrun, hrest⟩ := nextRun_spec h
  have hlength := (perm_of_countRun hrun).length_eq
  have hpos := List.length_pos_iff.mpr (run_ne_nil_of_countRun hrun ha)
  rw [List.length_append] at hlength
  rcases hrest with ⟨rfl, rfl⟩ | ⟨n, -, rfl⟩
  · omega
  · rw [List.length_drop]
    omega

/-! ## The sort -/

/-- The loop over the runs: what is left, the stack, and `minGallop`. -/
def runs (compare : α → α → Except Throwable Int) (minRun : Nat) :
    Loop (List α × List (List α) × Nat) (List (List α) × Nat) where
  body s := do
    let parts ← nextRun compare minRun s.1
    let stack ← mergeCollapse compare (parts.1 :: s.2.1) s.2.2
    pure (if parts.2.length = 0 then .done stack else .next (parts.2, stack))
  measure s := s.1.length
  decreases {s s'} h := by
    obtain ⟨⟨run, rest⟩, hparts, h⟩ := bind_eq_ok_iff.mp h
    obtain ⟨stack, -, h⟩ := bind_eq_ok_iff.mp h
    have h := Except.ok.inj h
    dsimp only at h
    split at h
    · cases h
    · next hne =>
      cases h
      refine length_lt_of_nextRun (fun hnil => ?_) hparts
      have hlength := (perm_of_nextRun hparts).length_eq
      rw [hnil, List.length_append, List.length_nil] at hlength
      omega

/-- `sort(a, c)`. -/
def sort (compare : α → α → Except Throwable Int) (a : List α) : Except Throwable (List α) :=
  if a.length < 2 then .ok a
  else if a.length < MIN_MERGE then do
    let (run, rest) ← countRunAndMakeAscending compare a
    binarySort compare run rest
  else do
    let (stack, minGallop) ← (runs compare (minRunLength 0 a.length)).run (a, [], MIN_GALLOP)
    let (stack, _) ← mergeForceCollapse compare stack minGallop
    pure stack.reverse.flatten

theorem Merges.perm {minGallop : Nat} {stack : List (List α)} {s' : List (List α) × Nat}
    (h : Merges compare minGallop stack s') : s'.1.flatten.Perm stack.flatten := by
  cases h with
  | @mk above stack run0 run1 merged minGallop' h =>
    simp only [List.flatten_append, List.flatten_cons]
    rw [← List.append_assoc run1]
    exact (((elements_of_mergeAt h).trans List.perm_append_comm).append_right _).append_left _

/-- **What each merge keeps** is kept by `mergeCollapse` and `mergeForceCollapse`, which stop when
there is nothing to merge. -/
theorem collapse_of_invariant {I : List (List α) → Prop}
    (hmerge : ∀ {stack minGallop s'}, I stack → Merges compare minGallop stack s' → I s'.1)
    {choose : List (List α) → Option Neighbours} {s s' : List (List α) × Nat} (hs : I s.1)
    (h : (collapse compare choose).run s = .ok s') : I s'.1 ∧ choose s'.1 = none := by
  refine Loop.post_of_invariant (I := fun s : List (List α) × Nat => I s.1)
    (Q := fun s : List (List α) × Nat => I s.1 ∧ choose s.1 = none)
    (fun s1 s2 h1 hbody => ?_) (fun s1 s2 h1 hbody => ?_) hs h
  · simp only [collapse] at hbody
    split at hbody
    · cases hbody
    · obtain ⟨s3, hmerged, hbody⟩ := bind_eq_ok_iff.mp hbody
      cases hbody
      exact hmerge h1 (mergeStack_merges hmerged)
  · simp only [collapse] at hbody
    split at hbody
    · next hnone =>
      cases hbody
      exact ⟨h1, hnone⟩
    · obtain ⟨s3, -, hbody⟩ := bind_eq_ok_iff.mp hbody
      cases hbody

/-- **What each run keeps**, with the merges after it, is kept by the loop over the runs. -/
theorem runs_of_invariant {minRun : Nat} {I : List α → List (List α) → Prop}
    (hpush : ∀ {a run rest stack minGallop s'}, I a stack →
      nextRun compare minRun a = .ok (run, rest) →
      mergeCollapse compare (run :: stack) minGallop = .ok s' → I rest s'.1)
    {s : List α × List (List α) × Nat} {s' : List (List α) × Nat} (hs : I s.1 s.2.1)
    (h : (runs compare minRun).run s = .ok s') : I [] s'.1 := by
  refine Loop.post_of_invariant (I := fun s : List α × List (List α) × Nat => I s.1 s.2.1)
    (Q := fun s : List (List α) × Nat => I [] s.1)
    (fun s1 s2 h1 hbody => ?_) (fun s1 s2 h1 hbody => ?_) hs h
  · obtain ⟨⟨run, rest⟩, hrun, hbody⟩ := bind_eq_ok_iff.mp hbody
    obtain ⟨stack, hstack, hbody⟩ := bind_eq_ok_iff.mp hbody
    have hbody := Except.ok.inj hbody
    dsimp only at hbody
    split at hbody
    · cases hbody
    · cases hbody
      exact hpush h1 hrun hstack
  · obtain ⟨⟨run, rest⟩, hrun, hbody⟩ := bind_eq_ok_iff.mp hbody
    obtain ⟨stack, hstack, hbody⟩ := bind_eq_ok_iff.mp hbody
    have hbody := Except.ok.inj hbody
    dsimp only at hbody
    split at hbody
    · next hlen =>
      cases hbody
      have hrest := hpush h1 hrun hstack
      rwa [List.length_eq_zero_iff.mp hlen] at hrest
    · cases hbody

theorem perm_of_collapse {choose : List (List α) → Option Neighbours}
    {s s' : List (List α) × Nat} (h : (collapse compare choose).run s = .ok s') :
    s'.1.flatten.Perm s.1.flatten :=
  (collapse_of_invariant (I := fun stack => stack.flatten.Perm s.1.flatten)
    (fun hperm hmerges => hmerges.perm.trans hperm) (List.Perm.refl _) h).1

theorem perm_of_runs {minRun : Nat} {s : List α × List (List α) × Nat}
    {s' : List (List α) × Nat} (h : (runs compare minRun).run s = .ok s') :
    s'.1.flatten.Perm (s.2.1.flatten ++ s.1) := by
  have hperm : (s'.1.flatten ++ []).Perm (s.2.1.flatten ++ s.1) := by
    refine runs_of_invariant
      (I := fun a stack => (stack.flatten ++ a).Perm (s.2.1.flatten ++ s.1))
      (fun {a run rest stack minGallop s'} hperm hrun hstack => ?_) (List.Perm.refl _) h
    refine (((perm_of_collapse hstack).append_right rest).trans ?_).trans hperm
    rw [List.flatten_cons]
    refine (List.perm_append_comm.append_right rest).trans ?_
    rw [List.append_assoc]
    exact (perm_of_nextRun hrun).append_left _
  rwa [List.append_nil] at hperm

/-- **What `sort` returns** is the list in another order. -/
theorem perm_of_sort (h : sort compare a = .ok out) : out.Perm a := by
  unfold sort at h
  split at h
  · cases h
    exact List.Perm.refl _
  · split at h
    · obtain ⟨⟨run, rest⟩, hrun, h⟩ := bind_eq_ok_iff.mp h
      exact (perm_of_binarySort h).trans (perm_of_countRun hrun)
    · obtain ⟨⟨stack, minGallop⟩, hruns, h⟩ := bind_eq_ok_iff.mp h
      obtain ⟨⟨stack', minGallop'⟩, hforce, h⟩ := bind_eq_ok_iff.mp h
      cases h
      exact stack'.reverse_perm.flatten.trans
        ((perm_of_collapse hforce).trans (perm_of_runs hruns))

/-- A long list that is one run is sorted. -/
theorem sort_of_countRun {run : List α} (hlen : ¬ a.length < MIN_MERGE)
    (h : countRunAndMakeAscending compare a = .ok (run, [])) : sort compare a = .ok run := by
  have hrun (minRun : Nat) : nextRun compare minRun a = .ok (run, []) := by
    unfold nextRun
    rw [h, bind_ok]
    dsimp only
    split
    · rw [List.take_nil, List.drop_nil]
      rfl
    · rfl
  have hstack (minGallop : Nat) : mergeCollapse compare [run] minGallop = .ok ([run], minGallop) :=
    Loop.run_of_done rfl
  have hforce (minGallop : Nat) :
      mergeForceCollapse compare [run] minGallop = .ok ([run], minGallop) := Loop.run_of_done rfl
  have hruns (minRun : Nat) :
      (runs compare minRun).run (a, [], MIN_GALLOP) = .ok ([run], MIN_GALLOP) := by
    refine Loop.run_of_done ?_
    unfold runs
    dsimp only
    rw [hrun, bind_ok, hstack]
    rfl
  unfold sort
  rw [if_neg (fun hshort => hlen (Nat.lt_of_lt_of_le hshort (by decide))), if_neg hlen, hruns,
    bind_ok]
  dsimp only
  rw [hforce, bind_ok]
  simp [pure, Except.pure]

end Perm

/-! ## A comparator that looks at its left argument only -/

/-- Among the elements with `ok`, `compare` never throws and is negative iff its left argument is
a leading element. -/
def Leading (compare : α → α → Except Throwable Int) (ok : α → Prop) (leads : α → Bool) : Prop :=
  ∀ x y, ok x → ok y → ∃ v, compare x y = .ok v ∧ decide (v < 0) = leads x

/-- The leading elements, the last one first, then the others. -/
def leadFirst (leads : α → Bool) (a : List α) : List α :=
  (a.filter leads).reverse ++ a.filter fun x => !leads x

section Leading

variable {compare : α → α → Except Throwable Int} {ok : α → Prop} {leads : α → Bool}

@[simp] theorem mem_leadFirst {x : α} {a : List α} : x ∈ leadFirst leads a ↔ x ∈ a := by
  unfold leadFirst
  rw [List.mem_append, List.mem_reverse, List.mem_filter, List.mem_filter]
  cases leads x <;> simp

theorem perm_leadFirst (leads : α → Bool) (a : List α) : (leadFirst leads a).Perm a :=
  ((List.reverse_perm _).append_right _).trans (List.filter_append_perm leads a)

theorem filter_leadFirst (leads : α → Bool) (a : List α) :
    (leadFirst leads a).filter leads = (a.filter leads).reverse ∧
      ((leadFirst leads a).filter fun x => !leads x) = a.filter fun x => !leads x := by
  unfold leadFirst
  simp [List.filter_append, List.filter_reverse, List.filter_filter]

theorem leadFirst_concat_of_leads {x : α} (hx : leads x = true) (a : List α) :
    leadFirst leads (a ++ [x]) = x :: leadFirst leads a := by
  simp [leadFirst, hx]

/-- What does not lead stays behind. -/
theorem leadFirst_append_of_not_leads {a rest : List α} (hrest : ∀ x ∈ rest, leads x = false) :
    leadFirst leads (a ++ rest) = leadFirst leads a ++ rest := by
  have hlead : rest.filter leads = [] := List.filter_eq_nil_iff.mpr fun y hy => by simp [hrest y hy]
  have hothers : rest.filter (fun y => !leads y) = rest := List.filter_eq_self.mpr fun y hy => by
    simp [hrest y hy]
  simp [leadFirst, hlead, hothers]

/-- A list without a leading element after its first is left as it is. -/
theorem leadFirst_of_tail {x : α} {a : List α} (ha : ∀ y ∈ a, leads y = false) :
    leadFirst leads (x :: a) = x :: a := by
  rw [← List.singleton_append, leadFirst_append_of_not_leads ha]
  cases hx : leads x with
  | true => simp [leadFirst, hx]
  | false => simp [leadFirst, hx]

/-- **What `leadFirst` leaves as it is**: of distinct elements, those without a leading one after
the first. -/
theorem leadFirst_eq_self_iff {a : List α} (hnodup : a.Nodup) :
    leadFirst leads a = a ↔ ∀ x ∈ a.tail, leads x = false := by
  constructor
  · intro heq
    have hreverse : (a.filter leads).reverse = a.filter leads := by
      conv_rhs => rw [← heq, leadFirst, List.filter_append, ← List.filter_reverse,
        List.filter_filter]
      simp [List.filter_reverse]
    cases hlead : a.filter leads with
    | nil =>
      have hnone := List.filter_eq_nil_iff.mp hlead
      exact fun x hx => by simpa using hnone x (List.mem_of_mem_tail hx)
    | cons y rest =>
      cases rest with
      | nil =>
        rw [leadFirst, hlead, List.reverse_singleton, List.singleton_append] at heq
        rw [← heq, List.tail_cons]
        exact fun x hx => by simpa using (List.mem_filter.mp hx).2
      | cons z rest =>
        -- the first of several leading elements would be the last as well
        have hnodup' := hnodup.filter leads
        rw [hlead] at hreverse hnodup'
        have hlast : y ∈ z :: rest := by
          rw [← List.dropLast_append_getLast (List.cons_ne_nil z rest)] at hreverse ⊢
          rw [List.reverse_cons, List.reverse_append, List.reverse_singleton] at hreverse
          have hhead : (z :: rest).getLast (List.cons_ne_nil z rest) = y :=
            (List.cons.inj hreverse).1
          rw [hhead]
          exact List.mem_append_right _ List.mem_cons_self
        exact absurd hlast (List.nodup_cons.mp hnodup').1
  · intro htail
    cases a with
    | nil => rfl
    | cons x a => exact leadFirst_of_tail htail

/-- A first element followed by leading ones is reversed. -/
theorem leadFirst_of_leads {x : α} {a : List α} (ha : ∀ y ∈ a, leads y = true) :
    leadFirst leads (x :: a) = (x :: a).reverse := by
  have hlead : a.filter leads = a := List.filter_eq_self.mpr ha
  have hrest : a.filter (fun y => !leads y) = [] := List.filter_eq_nil_iff.mpr fun y hy => by
    simp [ha y hy]
  cases hx : leads x with
  | true => simp [leadFirst, hx, hlead, hrest]
  | false => simp [leadFirst, hx, hlead, hrest]

/-- The run ends at the first element of the other kind. -/
theorem runLength_of_leading (hc : Leading compare ok leads) (descending : Bool) {prev : α}
    {a : List α} (hprev : ok prev) (ha : ∀ x ∈ a, ok x) :
    runLength compare descending prev a
      = .ok (a.takeWhile fun x => leads x == descending).length := by
  induction a generalizing prev with
  | nil => rfl
  | cons x a ih =>
    have hx := ha x List.mem_cons_self
    obtain ⟨v, hv, hneg⟩ := hc x prev hx hprev
    rw [runLength, hv]
    simp only [bind, Except.bind]
    rw [hneg]
    by_cases hd : leads x = descending
    · rw [if_pos hd, ih hx fun y hy => ha y (List.mem_cons_of_mem x hy)]
      simp [hd, pure, Except.pure]
    · rw [if_neg hd]
      simp [hd, pure, Except.pure]

/-- The leading run comes out as `leadFirst` of what it covers. It goes on to the first element of
another kind than the second one. -/
theorem countRun_of_leading (hc : Leading compare ok leads) {a0 a1 : α} {rest : List α}
    (ha : ∀ x ∈ a0 :: a1 :: rest, ok x) :
    ∃ n, (∀ x, (rest.drop n).head? = some x → leads x ≠ leads a1) ∧
      countRunAndMakeAscending compare (a0 :: a1 :: rest)
        = .ok (leadFirst leads (a0 :: a1 :: rest.take n), rest.drop n) := by
  have h0 := ha a0 List.mem_cons_self
  have h1 := ha a1 (by simp)
  obtain ⟨v, hv, hneg⟩ := hc a1 a0 h1 h0
  have hrest : ∀ x ∈ rest, ok x := fun x hx => ha x (by simp [hx])
  have hrun := runLength_of_leading hc (leads a1) h1 hrest
  let n := (rest.takeWhile fun x => leads x == leads a1).length
  have htake : rest.take n = rest.takeWhile fun x => leads x == leads a1 :=
    (List.prefix_iff_eq_take.mp (List.takeWhile_prefix _)).symm
  have hsplit : rest.take n ++ rest.drop n
      = rest.take n ++ rest.dropWhile fun x => leads x == leads a1 := by
    rw [List.take_append_drop, htake, List.takeWhile_append_dropWhile]
  have hkind : ∀ x ∈ a1 :: rest.take n, leads x = leads a1 := by
    intro x hx
    rcases List.mem_cons.mp hx with rfl | hx
    · rfl
    · rw [htake] at hx
      simpa using List.mem_takeWhile_imp hx
  refine ⟨n, fun x hx => ?_, ?_⟩
  · rw [List.append_cancel_left hsplit] at hx
    have hnot := List.head?_dropWhile_not (fun x => leads x == leads a1) rest
    rw [hx] at hnot
    simpa using hnot
  · simp only [countRunAndMakeAscending, hv, bind, Except.bind, hneg, hrun, pure, Except.pure]
    cases h1 : leads a1 with
    | true =>
      rw [h1] at hkind
      rw [leadFirst_of_leads hkind]
      simp only [n, h1, if_true]
    | false =>
      rw [h1] at hkind
      rw [leadFirst_of_tail hkind]
      simp only [n, h1, Bool.false_eq_true, if_false]

/-- A leading pivot goes in front of everything, any other one behind. -/
theorem binarySearch_of_leading (hc : Leading compare ok leads) {pivot : α} {sorted : List α}
    (hpivot : ok pivot) (hsorted : ∀ x ∈ sorted, ok x) :
    ∀ fuel left right, right ≤ sorted.length → left ≤ right → right ≤ fuel + left →
      binarySearch compare pivot sorted fuel left right
        = .ok (if leads pivot then left else right) := by
  intro fuel
  induction fuel with
  | zero =>
    intro left right _ hle hfuel
    have : left = right := by omega
    simp [binarySearch, this]
  | succ fuel ih =>
    intro left right hlen hle hfuel
    rw [binarySearch]
    by_cases hlt : left < right
    · have hmid : (left + right) / 2 < sorted.length := by omega
      obtain ⟨v, hv, hneg⟩ := hc pivot _ hpivot (hsorted _ (List.getElem_mem hmid))
      rw [if_pos hlt]
      simp only [load_of_lt hmid, bind, Except.bind, hv]
      cases hp : leads pivot with
      | true =>
        rw [hp, decide_eq_true_eq] at hneg
        rw [if_pos hneg, ih left _ (by omega) (by omega) (by omega), hp]
        rfl
      | false =>
        rw [hp, decide_eq_false_iff_not] at hneg
        rw [if_neg hneg, ih _ right hlen (by omega) (by omega), hp]
        rfl
    · have : left = right := by omega
      simp [this]

/-- **The insertion phase** keeps the sorted prefix the `leadFirst` of what it has consumed. -/
theorem binarySort_of_leading (hc : Leading compare ok leads) (rest : List α) :
    ∀ done : List α, (∀ x ∈ done ++ rest, ok x) →
      binarySort compare (leadFirst leads done) rest = .ok (leadFirst leads (done ++ rest)) := by
  induction rest with
  | nil =>
    intro done _
    rw [List.append_nil]
    rfl
  | cons pivot rest ih =>
    intro done hok
    have hpos := binarySearch_of_leading hc (hok pivot (by simp))
      (fun x hx => hok x (List.mem_append_left _ (mem_leadFirst.mp hx)))
      (leadFirst leads done).length 0 _ (Nat.le_refl _) (Nat.zero_le _) (Nat.le_refl _)
    have hnext := ih (done ++ [pivot]) (by simpa using hok)
    rw [binarySort, hpos]
    simp only [bind, Except.bind]
    cases hp : leads pivot with
    | true =>
      rw [leadFirst_concat_of_leads hp] at hnext
      rw [if_pos rfl, List.take_zero, List.drop_zero, List.nil_append, hnext, List.append_assoc,
        List.singleton_append]
    | false =>
      rw [leadFirst_append_of_not_leads fun x hx => List.mem_singleton.mp hx ▸ hp] at hnext
      rw [if_neg Bool.false_ne_true, List.take_length, List.drop_length, hnext, List.append_assoc,
        List.singleton_append]

/-- **A short list, or one without a leading element after its first**, comes out as the leading
elements in reverse, then the others. -/
theorem sort_of_leading (hc : Leading compare ok leads) {a : List α} (hok : ∀ x ∈ a, ok x)
    (ha : a.length < MIN_MERGE ∨ ∀ x ∈ a.tail, leads x = false) :
    sort compare a = .ok (leadFirst leads a) := by
  match a with
  | [] => rfl
  | [x] =>
    unfold sort
    rw [if_pos (by simp), leadFirst_of_tail (by simp)]
  | a0 :: a1 :: rest =>
    obtain ⟨n, hend, hrun⟩ := countRun_of_leading hc hok
    have hsplit : a0 :: a1 :: rest = a0 :: a1 :: rest.take n ++ rest.drop n := by simp
    by_cases hlen : (a0 :: a1 :: rest).length < MIN_MERGE
    · unfold sort
      rw [if_neg (by simp), if_pos hlen, hrun, bind_ok]
      dsimp only
      rw [binarySort_of_leading hc _ _ (hsplit ▸ hok), ← hsplit]
    · -- The leading run of a long list is everything: no element after the first leads.
      have hnone : ∀ x ∈ a1 :: rest, leads x = false := ha.resolve_left hlen
      have hnil : rest.drop n = [] := by
        cases hdrop : rest.drop n with
        | nil => rfl
        | cons x left =>
          have hx : x ∈ rest := List.mem_of_mem_drop (hdrop ▸ List.mem_cons_self)
          refine absurd ?_ (hend x (by rw [hdrop]; rfl))
          rw [hnone x (List.mem_cons_of_mem _ hx), hnone a1 List.mem_cons_self]
      rw [hnil, List.append_nil] at hsplit
      rw [hnil, ← hsplit] at hrun
      exact sort_of_countRun hlen hrun

end Leading

end Terminator.Java.TimSort
