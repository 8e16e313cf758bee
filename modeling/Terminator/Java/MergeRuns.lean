import Mathlib.Algebra.Order.Group.Multiset
import Mathlib.Logic.Relation
import Terminator.Java.Loop

/-!
# Merging two runs

The half of `TimSort` that merges two adjacent runs, each of which the comparator left as it is:
`gallopLeft` and `gallopRight`, and `mergeLo` and `mergeHi`, which work from the left and from the
right. The comparator need not be an order, and may throw; a merge that runs out of the wrong run
throws an `IllegalArgumentException`.

* **`gallop_splits`**: where a gallop ends, whatever the comparator says of the other elements;
* **`elements_of_mergeLo`**, **`elements_of_mergeHi`**: a merge loses nothing.
-/

namespace Terminator.Java.TimSort

variable {α : Type}

/-! ## The model -/

/-- `MIN_GALLOP`. -/
def MIN_GALLOP : Nat := 7

section Gallop

/-- `lastOfs` and `ofs`, which doubles while the element at `ofs` is on the same side. -/
def offsets (test : Nat → Except Throwable Bool) (maxOfs : Nat) : Loop (Nat × Nat) (Nat × Nat) where
  body s :=
    if s.2 < maxOfs then do
      let isSame ← test s.2
      pure (if isSame then .next (s.2, 2 * s.2 + 1) else .done s)
    else pure (.done s)
  measure s := maxOfs - s.2
  decreases {s s'} h := by
    split at h
    · obtain ⟨isSame, -, h⟩ := bind_eq_ok_iff.mp h
      cases isSame with
      | false => cases h
      | true =>
        cases h
        dsimp only
        omega
    · cases h

/-- The binary search between them. -/
def search (before : α → Except Throwable Bool) (run : List α) : Loop (Nat × Nat) Nat where
  body s :=
    if s.1 < s.2 then do
      let m := s.1 + (s.2 - s.1) / 2
      let isBefore ← before (← load run m)
      pure (.next (if isBefore then (m + 1, s.2) else (s.1, m)))
    else pure (.done s.2)
  measure s := s.2 - s.1
  decreases {s s'} h := by
    split at h
    · obtain ⟨x, -, h⟩ := bind_eq_ok_iff.mp h
      obtain ⟨isBefore, -, h⟩ := bind_eq_ok_iff.mp h
      cases isBefore with
      | false =>
        cases h
        simp only [Bool.false_eq_true, if_false]
        omega
      | true =>
        cases h
        simp only [if_true]
        omega
    · cases h

/-- How many elements of the run stand before the key, looking from the one at `hint`. -/
def gallop (before : α → Except Throwable Bool) (run : List α) (hint : Nat) :
    Except Throwable Nat := do
  let isBefore ← before (← load run hint)
  if isBefore then
    let maxOfs := run.length - hint
    let (lastOfs, ofs) ← (offsets (fun ofs => load run (hint + ofs) >>= before) maxOfs).run (0, 1)
    (search before run).run (hint + lastOfs + 1, hint + min ofs maxOfs)
  else
    let maxOfs := hint + 1
    let (lastOfs, ofs) ←
      (offsets (fun ofs => (! ·) <$> (load run (hint - ofs) >>= before)) maxOfs).run (0, 1)
    (search before run).run (hint + 1 - min ofs maxOfs, hint - lastOfs)

variable (compare : α → α → Except Throwable Int)

/-- `gallopLeft`: the elements before the key are less than it. -/
def gallopLeft (key : α) : List α → Nat → Except Throwable Nat :=
  gallop fun x => (fun v => decide (0 < v)) <$> compare key x

/-- `gallopRight`: the key is not less than the elements before it. -/
def gallopRight (key : α) : List α → Nat → Except Throwable Nat :=
  gallop fun x => (fun v => decide (0 ≤ v)) <$> compare key x

end Gallop

/-- Where a merge works from: `mergeLo` from the left, `mergeHi` from the right. -/
inductive Direction where
  | lo
  | hi

namespace Direction

/-- The next element of a run. -/
def index (run : List α) : Direction → Nat
  | lo => 0
  | hi => run.length - 1

/-- The next `n` elements of a run. -/
def taken (n : Nat) (run : List α) : Direction → List α
  | lo => run.take n
  | hi => run.drop (run.length - n)

/-- The other ones. -/
def rest (n : Nat) (run : List α) : Direction → List α
  | lo => run.drop n
  | hi => run.take (run.length - n)

/-- What is merged next joins what is merged already. -/
def join (next merged : List α) : Direction → List α
  | lo => merged ++ next
  | hi => next ++ merged

/-- What a gallop that ended at `k` passes over. -/
def count (run : List α) (k : Nat) : Direction → Nat
  | lo => k
  | hi => run.length - k

/-- So much of the first run ends the merge. -/
def limit1 : Direction → Nat
  | lo => 1
  | hi => 0

/-- So much of the second run ends the merge. -/
def limit2 : Direction → Nat
  | lo => 0
  | hi => 1

/-- The second run is next, after a comparison of its next element with that of the first. -/
def isSecond (v : Int) : Direction → Bool
  | lo => decide (v < 0)
  | hi => !decide (v < 0)

end Direction

/-- A merge that is under way: what is left of the runs, what is merged, how often in a row each run
has won, and `minGallop`. -/
structure Merging (α : Type) where
  run1 : List α
  run2 : List α
  merged : List α
  count1 : Nat
  count2 : Nat
  minGallop : Nat
  galloping : Bool

namespace Merging

def take1 (d : Direction) (n : Nat) (s : Merging α) : Merging α :=
  { s with run1 := d.rest n s.run1, merged := d.join (d.taken n s.run1) s.merged }

def take2 (d : Direction) (n : Nat) (s : Merging α) : Merging α :=
  { s with run2 := d.rest n s.run2, merged := d.join (d.taken n s.run2) s.merged }

/-- One element of the first run won. -/
def win1 (d : Direction) (s : Merging α) : Merging α :=
  { s.take1 d 1 with count1 := s.count1 + 1, count2 := 0 }

def win2 (d : Direction) (s : Merging α) : Merging α :=
  { s.take2 d 1 with count1 := 0, count2 := s.count2 + 1 }

/-- `while ((count1 | count2) < minGallop)`. -/
def turn (s : Merging α) : Merging α :=
  { s with galloping := decide (s.minGallop ≤ s.count1 ||| s.count2) }

/-- `while (count1 >= MIN_GALLOP | count2 >= MIN_GALLOP)`, and what leaving the loop costs. -/
def stay (count1 count2 : Nat) (s : Merging α) : Merging α :=
  if MIN_GALLOP ≤ count1 ∨ MIN_GALLOP ≤ count2 then { s with minGallop := s.minGallop - 1 }
  else { s with
    minGallop := s.minGallop - 1 + 2
    galloping := false
    count1 := 0
    count2 := 0 }

end Merging

section Merge

variable (compare : α → α → Except Throwable Int)

/-- The first of the inner loops: one element at a time. -/
def onePair (d : Direction) (s : Merging α) :
    Except Throwable (Pass (Merging α) (Merging α)) := do
  let x1 ← load s.run1 (d.index s.run1)
  let x2 ← load s.run2 (d.index s.run2)
  let v ← compare x2 x1
  if d.isSecond v then
    pure (if (s.win2 d).run2.length ≤ d.limit2 then .done (s.win2 d) else .next (s.win2 d).turn)
  else
    pure (if (s.win1 d).run1.length ≤ d.limit1 then .done (s.win1 d) else .next (s.win1 d).turn)

/-- The second half of a pass of the galloping loop. -/
def gallop2 (d : Direction) (count1 : Nat) (s : Merging α) :
    Except Throwable (Pass (Merging α) (Merging α)) := do
  let x1 ← load s.run1 (d.index s.run1)
  let k ← gallopLeft compare x1 s.run2 (d.index s.run2)
  let count2 := d.count s.run2 k
  let s := s.take2 d count2
  if count2 ≠ 0 ∧ s.run2.length ≤ d.limit2 then pure (.done s)
  else
    let s := s.take1 d 1
    pure (if s.run1.length ≤ d.limit1 then .done s else .next (s.stay count1 count2))

/-- The other inner loop: it looks for how much of a run stands before the next element of the
other. -/
def gallop1 (d : Direction) (s : Merging α) :
    Except Throwable (Pass (Merging α) (Merging α)) := do
  let x2 ← load s.run2 (d.index s.run2)
  let k ← gallopRight compare x2 s.run1 (d.index s.run1)
  let count1 := d.count s.run1 k
  let s := s.take1 d count1
  if count1 ≠ 0 ∧ s.run1.length ≤ d.limit1 then pure (.done s)
  else
    let s := s.take2 d 1
    if s.run2.length ≤ d.limit2 then pure (.done s) else gallop2 compare d count1 s

/-- One pass of the inner loop the merge is in. -/
def pass (d : Direction) (s : Merging α) : Except Throwable (Pass (Merging α) (Merging α)) :=
  if s.galloping then gallop1 compare d s else onePair compare d s

end Merge

/-! ## What a pass can do -/

section Moves

variable (compare : α → α → Except Throwable Int) (d : Direction)

/-- What a merge takes at once: one element after a comparison, or what a gallop passes over, with
the element it looked for or without. -/
inductive Move (s : Merging α) : Merging α → Prop where
  | win1 {x1 x2 : α} {v : Int} (h1 : load s.run1 (d.index s.run1) = .ok x1)
      (h2 : load s.run2 (d.index s.run2) = .ok x2) (hv : compare x2 x1 = .ok v)
      (hsecond : d.isSecond v = false) : Move s (s.win1 d)
  | win2 {x1 x2 : α} {v : Int} (h1 : load s.run1 (d.index s.run1) = .ok x1)
      (h2 : load s.run2 (d.index s.run2) = .ok x2) (hv : compare x2 x1 = .ok v)
      (hsecond : d.isSecond v = true) : Move s (s.win2 d)
  | passed1 {x2 : α} {k : Nat} (h2 : load s.run2 (d.index s.run2) = .ok x2)
      (hk : gallopRight compare x2 s.run1 (d.index s.run1) = .ok k) :
      Move s (s.take1 d (d.count s.run1 k))
  | found2 {x2 : α} {k : Nat} (h2 : load s.run2 (d.index s.run2) = .ok x2)
      (hk : gallopRight compare x2 s.run1 (d.index s.run1) = .ok k) :
      Move s ((s.take1 d (d.count s.run1 k)).take2 d 1)
  | passed2 {x1 : α} {k : Nat} (h1 : load s.run1 (d.index s.run1) = .ok x1)
      (hk : gallopLeft compare x1 s.run2 (d.index s.run2) = .ok k) :
      Move s (s.take2 d (d.count s.run2 k))
  | found1 {x1 : α} {k : Nat} (h1 : load s.run1 (d.index s.run1) = .ok x1)
      (hk : gallopLeft compare x1 s.run2 (d.index s.run2) = .ok k) :
      Move s ((s.take2 d (d.count s.run2 k)).take1 d 1)

/-- So little is left of one of the runs that the merge ends. -/
def Merging.Spent (s : Merging α) : Prop :=
  s.run1.length ≤ d.limit1 ∨ s.run2.length ≤ d.limit2

/-- How much is left to merge. -/
def Merging.left (s : Merging α) : Nat := s.run1.length + s.run2.length

/-- But for the counters the states are the same. -/
structure Merging.Like (s s' : Merging α) : Prop where
  run1 : s'.run1 = s.run1
  run2 : s'.run2 = s.run2
  merged : s'.merged = s.merged

/-- How a pass can end. -/
inductive Passes (s : Merging α) : Pass (Merging α) (Merging α) → Prop where
  | done {s' : Merging α} (hmoves : Relation.TransGen (Move compare d) s s')
      (hspent : s'.Spent d) : Passes s (.done s')
  | next {s' s'' : Merging α} (hmoves : Relation.TransGen (Move compare d) s s')
      (hlike : s'.Like s'') (hleft : s'.left < s.left) : Passes s (.next s'')

variable {compare d} {s s' : Merging α}

@[simp] theorem Direction.length_rest (d : Direction) (n : Nat) (run : List α) :
    (d.rest n run).length = run.length - n := by
  cases d with
  | lo => exact List.length_drop
  | hi =>
    rw [Direction.rest, List.length_take]
    omega

theorem length_pos_of_load {run : List α} {i : Nat} {x : α} (h : load run i = .ok x) :
    0 < run.length :=
  Nat.lt_of_le_of_lt (Nat.zero_le i) (List.getElem?_eq_some_iff.mp (load_eq_ok_iff.mp h)).1

theorem Merging.like_turn (s : Merging α) : s.Like s.turn := ⟨rfl, rfl, rfl⟩

theorem Merging.like_stay (count1 count2 : Nat) (s : Merging α) :
    s.Like (s.stay count1 count2) := by
  unfold Merging.stay
  split
  · exact ⟨rfl, rfl, rfl⟩
  · exact ⟨rfl, rfl, rfl⟩

theorem Merging.Like.left (h : s.Like s') : s'.left = s.left := by
  unfold Merging.left
  rw [h.run1, h.run2]

theorem onePair_passes {p : Pass (Merging α) (Merging α)} (h : onePair compare d s = .ok p) :
    Passes compare d s p := by
  obtain ⟨x1, h1, h⟩ := bind_eq_ok_iff.mp h
  obtain ⟨x2, h2, h⟩ := bind_eq_ok_iff.mp h
  obtain ⟨v, hv, h⟩ := bind_eq_ok_iff.mp h
  split at h
  · next hsecond =>
    have hmoves : Relation.TransGen (Move compare d) s (s.win2 d) :=
      .single (.win2 h1 h2 hv hsecond)
    split at h
    · next hspent =>
      cases h
      exact .done hmoves (.inr hspent)
    · cases h
      refine .next hmoves (Merging.like_turn _) ?_
      have hpos := length_pos_of_load h2
      simp only [Merging.left, Merging.win2, Merging.take2, Direction.length_rest]
      omega
  · next hsecond =>
    have hmoves : Relation.TransGen (Move compare d) s (s.win1 d) :=
      .single (.win1 h1 h2 hv (Bool.eq_false_iff.mpr hsecond))
    split at h
    · next hspent =>
      cases h
      exact .done hmoves (.inl hspent)
    · cases h
      refine .next hmoves (Merging.like_turn _) ?_
      have hpos := length_pos_of_load h1
      simp only [Merging.left, Merging.win1, Merging.take1, Direction.length_rest]
      omega

theorem gallop2_passes {count1 : Nat} {p : Pass (Merging α) (Merging α)} {s0 : Merging α}
    (hmove : Move compare d s0 s) (hleft : s.left < s0.left)
    (h : gallop2 compare d count1 s = .ok p) : Passes compare d s0 p := by
  obtain ⟨x1, h1, h⟩ := bind_eq_ok_iff.mp h
  obtain ⟨k, hk, h⟩ := bind_eq_ok_iff.mp h
  dsimp only at h
  split at h
  · next hspent =>
    cases h
    exact .done (.tail (.single hmove) (.passed2 h1 hk)) (.inr hspent.2)
  · have hmoves : Relation.TransGen (Move compare d) s0 _ := .tail (.single hmove) (.found1 h1 hk)
    split at h
    · next hspent =>
      cases h
      exact .done hmoves (.inl hspent)
    · cases h
      refine .next hmoves (Merging.like_stay _ _ _) (Nat.lt_of_le_of_lt ?_ hleft)
      simp only [Merging.left, Merging.take1, Merging.take2, Direction.length_rest]
      omega

theorem gallop1_passes {p : Pass (Merging α) (Merging α)} (h : gallop1 compare d s = .ok p) :
    Passes compare d s p := by
  obtain ⟨x2, h2, h⟩ := bind_eq_ok_iff.mp h
  obtain ⟨k, hk, h⟩ := bind_eq_ok_iff.mp h
  dsimp only at h
  split at h
  · next hspent =>
    cases h
    exact .done (.single (.passed1 h2 hk)) (.inl hspent.2)
  · have hmove : Move compare d s _ := .found2 h2 hk
    split at h
    · next hspent =>
      cases h
      exact .done (.single hmove) (.inr hspent)
    · refine gallop2_passes hmove ?_ h
      have hpos := length_pos_of_load h2
      simp only [Merging.left, Merging.take1, Merging.take2, Direction.length_rest]
      omega

/-- **What a pass can do**: a few moves, and then the merge ends or goes on with less. -/
theorem pass_passes {p : Pass (Merging α) (Merging α)} (h : pass compare d s = .ok p) :
    Passes compare d s p := by
  unfold pass at h
  split at h
  · exact gallop1_passes h
  · exact onePair_passes h

end Moves

/-! ## The merge -/

section Merge

variable (compare : α → α → Except Throwable Int)

/-- `outer`. -/
def outer (d : Direction) : Loop (Merging α) (Merging α) where
  body := pass compare d
  measure := Merging.left
  decreases h := by
    cases pass_passes h with
    | next _ hlike hleft => exact hlike.left.trans_lt hleft

/-- The end of `mergeLo`. -/
def Merging.finishLo (s : Merging α) : Except Throwable (List α × Nat) :=
  if s.run1.length = 1 then .ok (s.merged ++ (s.run2 ++ s.run1), max 1 s.minGallop)
  else if s.run1.length = 0 then .error .illegalArgument
  else .ok (s.merged ++ s.run1, max 1 s.minGallop)

/-- The end of `mergeHi`. -/
def Merging.finishHi (s : Merging α) : Except Throwable (List α × Nat) :=
  if s.run2.length = 1 then .ok (s.run2 ++ s.run1 ++ s.merged, max 1 s.minGallop)
  else if s.run2.length = 0 then .error .illegalArgument
  else .ok (s.run2 ++ s.merged, max 1 s.minGallop)

/-- `mergeLo`: the first element of the second run is the least. -/
def mergeLo (run1 run2 : List α) (minGallop : Nat) : Except Throwable (List α × Nat) :=
  let s := (Merging.mk run1 run2 [] 0 0 minGallop false).take2 .lo 1
  if s.run2.length = 0 then .ok (s.merged ++ s.run1, minGallop)
  else if s.run1.length = 1 then .ok (s.merged ++ (s.run2 ++ s.run1), minGallop)
  else (outer compare .lo).run s >>= Merging.finishLo

/-- `mergeHi`: the last element of the first run is the greatest. -/
def mergeHi (run1 run2 : List α) (minGallop : Nat) : Except Throwable (List α × Nat) :=
  let s := (Merging.mk run1 run2 [] 0 0 minGallop false).take1 .hi 1
  if s.run1.length = 0 then .ok (s.run2 ++ s.merged, minGallop)
  else if s.run2.length = 1 then .ok (s.run2 ++ s.run1 ++ s.merged, minGallop)
  else (outer compare .hi).run s >>= Merging.finishHi

/-- `mergeAt`: what stands where it belongs is not merged. -/
def mergeAt (run1 run2 : List α) (minGallop : Nat) : Except Throwable (List α × Nat) := do
  let k1 ← gallopRight compare (← load run2 0) run1 0
  let left := run1.drop k1
  if left.length = 0 then pure (run1 ++ run2, minGallop)
  else do
    let k2 ← gallopLeft compare (← load left (left.length - 1)) run2 (run2.length - 1)
    if k2 = 0 then pure (run1 ++ run2, minGallop)
    else do
      let right := run2.take k2
      let result ←
        if left.length ≤ right.length then mergeLo compare left right minGallop
        else mergeHi compare left right minGallop
      pure (run1.take k1 ++ (result.1 ++ run2.drop k2), result.2)

end Merge

/-! ## Nothing is lost -/

section Elements

variable {compare : α → α → Except Throwable Int} {d : Direction} {s s' : Merging α}
  {run1 run2 : List α} {minGallop : Nat} {result : List α × Nat}

/-- The elements of the runs and of what is merged. -/
def Merging.elements (s : Merging α) : Multiset α := s.run1 + s.run2 + s.merged

theorem coe_rest_add_taken (d : Direction) (n : Nat) (run : List α) :
    (d.rest n run : Multiset α) + d.taken n run = run := by
  cases d with
  | lo =>
    rw [add_comm, Multiset.coe_add, Direction.rest, Direction.taken, List.take_append_drop]
  | hi => rw [Multiset.coe_add, Direction.rest, Direction.taken, List.take_append_drop]

theorem coe_join (d : Direction) (next merged : List α) :
    (d.join next merged : Multiset α) = next + merged := by
  cases d with
  | lo => rw [Direction.join, ← Multiset.coe_add, add_comm]
  | hi => rw [Direction.join, ← Multiset.coe_add]

@[simp] theorem elements_take1 (d : Direction) (n : Nat) (s : Merging α) :
    (s.take1 d n).elements = s.elements := by
  unfold Merging.elements Merging.take1
  dsimp only
  rw [coe_join, ← coe_rest_add_taken d n s.run1]
  ac_rfl

@[simp] theorem elements_take2 (d : Direction) (n : Nat) (s : Merging α) :
    (s.take2 d n).elements = s.elements := by
  unfold Merging.elements Merging.take2
  dsimp only
  rw [coe_join, ← coe_rest_add_taken d n s.run2]
  ac_rfl

theorem Move.elements (h : Move compare d s s') : s'.elements = s.elements := by
  cases h with
  | win1 => exact elements_take1 d 1 s
  | win2 => exact elements_take2 d 1 s
  | passed1 => exact elements_take1 d _ s
  | found2 => rw [elements_take2, elements_take1]
  | passed2 => exact elements_take2 d _ s
  | found1 => rw [elements_take1, elements_take2]

theorem Merging.Like.elements (h : s.Like s') : s'.elements = s.elements := by
  unfold Merging.elements
  rw [h.run1, h.run2, h.merged]

theorem elements_of_moves (h : Relation.TransGen (Move compare d) s s') :
    s'.elements = s.elements := by
  induction h with
  | single hmove => exact hmove.elements
  | tail _ hmove ih => exact hmove.elements.trans ih

/-- **The loop** keeps the elements, and ends when one of the runs is spent. -/
theorem elements_of_outer (h : (outer compare d).run s = .ok s') :
    s'.elements = s.elements ∧ s'.Spent d := by
  refine Loop.post_of_invariant (I := fun s' => s'.elements = s.elements)
    (Q := fun s' => s'.elements = s.elements ∧ s'.Spent d) (fun s1 s2 h1 hpass => ?_)
    (fun s1 s2 h1 hpass => ?_) rfl h
  · cases pass_passes hpass with
    | next hmoves hlike => exact hlike.elements.trans ((elements_of_moves hmoves).trans h1)
  · cases pass_passes hpass with
    | done hmoves hspent => exact ⟨(elements_of_moves hmoves).trans h1, hspent⟩

theorem elements_of_finishLo (hspent : s.Spent .lo) (h : s.finishLo = .ok result) :
    (result.1 : Multiset α) = s.elements := by
  unfold Merging.finishLo at h
  unfold Merging.elements
  split at h
  · cases h
    rw [← Multiset.coe_add, ← Multiset.coe_add]
    ac_rfl
  · split at h
    · cases h
    · cases h
      have hlen : s.run2.length = 0 := by
        simp only [Merging.Spent, Direction.limit1, Direction.limit2] at hspent
        omega
      rw [List.length_eq_zero_iff.mp hlen, ← Multiset.coe_add, Multiset.coe_nil, add_zero]
      ac_rfl

theorem elements_of_finishHi (hspent : s.Spent .hi) (h : s.finishHi = .ok result) :
    (result.1 : Multiset α) = s.elements := by
  unfold Merging.finishHi at h
  unfold Merging.elements
  split at h
  · cases h
    rw [← Multiset.coe_add, ← Multiset.coe_add]
    ac_rfl
  · split at h
    · cases h
    · cases h
      have hlen : s.run1.length = 0 := by
        simp only [Merging.Spent, Direction.limit1, Direction.limit2] at hspent
        omega
      rw [List.length_eq_zero_iff.mp hlen, ← Multiset.coe_add, Multiset.coe_nil, zero_add]

/-- **What `mergeLo` returns** are the elements of the two runs. -/
theorem elements_of_mergeLo (h : mergeLo compare run1 run2 minGallop = .ok result) :
    (result.1 : Multiset α) = run1 + run2 := by
  have helements : ((Merging.mk run1 run2 [] 0 0 minGallop false).take2 .lo 1).elements =
      run1 + run2 := (elements_take2 _ _ _).trans (add_zero _)
  rw [← helements]
  unfold mergeLo at h
  generalize (Merging.mk run1 run2 [] 0 0 minGallop false).take2 .lo 1 = s at h
  dsimp only at h
  split at h
  · next hlen =>
    cases h
    unfold Merging.elements
    rw [List.length_eq_zero_iff.mp hlen, ← Multiset.coe_add, Multiset.coe_nil, add_zero, add_comm]
  · split at h
    · cases h
      unfold Merging.elements
      rw [← Multiset.coe_add, ← Multiset.coe_add]
      ac_rfl
    · obtain ⟨s', houter, hfinish⟩ := bind_eq_ok_iff.mp h
      obtain ⟨helements, hspent⟩ := elements_of_outer houter
      rw [elements_of_finishLo hspent hfinish, helements]

/-- **What `mergeHi` returns** are the elements of the two runs. -/
theorem elements_of_mergeHi (h : mergeHi compare run1 run2 minGallop = .ok result) :
    (result.1 : Multiset α) = run1 + run2 := by
  have helements : ((Merging.mk run1 run2 [] 0 0 minGallop false).take1 .hi 1).elements =
      run1 + run2 := (elements_take1 _ _ _).trans (add_zero _)
  rw [← helements]
  unfold mergeHi at h
  generalize (Merging.mk run1 run2 [] 0 0 minGallop false).take1 .hi 1 = s at h
  dsimp only at h
  split at h
  · next hlen =>
    cases h
    unfold Merging.elements
    rw [List.length_eq_zero_iff.mp hlen, ← Multiset.coe_add, Multiset.coe_nil, zero_add]
  · split at h
    · cases h
      unfold Merging.elements
      rw [← Multiset.coe_add, ← Multiset.coe_add]
      ac_rfl
    · obtain ⟨s', houter, hfinish⟩ := bind_eq_ok_iff.mp h
      obtain ⟨helements, hspent⟩ := elements_of_outer houter
      rw [elements_of_finishHi hspent hfinish, helements]

/-- How `mergeAt` can end: the runs stand as they are, or what overlaps is merged. -/
inductive MergesAt (compare : α → α → Except Throwable Int) (run1 run2 : List α) (minGallop : Nat) :
    List α × Nat → Prop where
  | before {x2 : α} {k1 : Nat} (h2 : load run2 0 = .ok x2)
      (hk1 : gallopRight compare x2 run1 0 = .ok k1) (hlen : run1.drop k1 = []) :
      MergesAt compare run1 run2 minGallop (run1 ++ run2, minGallop)
  | behind {x1 : α} (h1 : load run1 (run1.length - 1) = .ok x1)
      (hk2 : gallopLeft compare x1 run2 (run2.length - 1) = .ok 0) :
      MergesAt compare run1 run2 minGallop (run1 ++ run2, minGallop)
  | merged {x1 x2 : α} {k1 k2 : Nat} {result : List α × Nat} (h2 : load run2 0 = .ok x2)
      (hk1 : gallopRight compare x2 run1 0 = .ok k1) (hlen : run1.drop k1 ≠ [])
      (h1 : load run1 (run1.length - 1) = .ok x1)
      (hk2 : gallopLeft compare x1 run2 (run2.length - 1) = .ok k2) (hpos : 0 < k2)
      (hresult : mergeLo compare (run1.drop k1) (run2.take k2) minGallop = .ok result ∨
        mergeHi compare (run1.drop k1) (run2.take k2) minGallop = .ok result) :
      MergesAt compare run1 run2 minGallop
        (run1.take k1 ++ (result.1 ++ run2.drop k2), result.2)

/-- The last element of the run is the last of what is left of it. -/
theorem load_last_drop {run : List α} {k : Nat} {x : α} (hne : run.drop k ≠ [])
    (h : load (run.drop k) ((run.drop k).length - 1) = .ok x) :
    load run (run.length - 1) = .ok x := by
  have hlt : k < run.length := by
    by_contra hlt
    exact hne (List.drop_eq_nil_of_le (Nat.le_of_not_lt hlt))
  rw [load_eq_ok_iff, List.getElem?_drop, List.length_drop] at h
  rw [load_eq_ok_iff, ← h]
  congr 1
  omega

theorem mergeAt_mergesAt (h : mergeAt compare run1 run2 minGallop = .ok result) :
    MergesAt compare run1 run2 minGallop result := by
  obtain ⟨x2, h2, h⟩ := bind_eq_ok_iff.mp h
  obtain ⟨k1, hk1, h⟩ := bind_eq_ok_iff.mp h
  dsimp only at h
  split at h
  · next hlen =>
    cases h
    exact .before h2 hk1 (List.length_eq_zero_iff.mp hlen)
  · next hlen =>
    obtain ⟨x1, h1, h⟩ := bind_eq_ok_iff.mp h
    obtain ⟨k2, hk2, h⟩ := bind_eq_ok_iff.mp h
    have hlen := mt List.length_eq_zero_iff.mpr hlen
    have h1 := load_last_drop hlen h1
    split at h
    · next hzero =>
      cases h
      rw [hzero] at hk2
      exact .behind h1 hk2
    · next hzero =>
      have hpos := Nat.pos_of_ne_zero hzero
      split at h
      · obtain ⟨result, hresult, h⟩ := bind_eq_ok_iff.mp h
        cases h
        exact .merged h2 hk1 hlen h1 hk2 hpos (.inl hresult)
      · obtain ⟨result, hresult, h⟩ := bind_eq_ok_iff.mp h
        cases h
        exact .merged h2 hk1 hlen h1 hk2 hpos (.inr hresult)

/-- **What `mergeAt` returns** are the elements of the two runs. -/
theorem elements_of_mergeAt (h : mergeAt compare run1 run2 minGallop = .ok result) :
    result.1.Perm (run1 ++ run2) := by
  rw [← Multiset.coe_eq_coe]
  cases mergeAt_mergesAt h with
  | before => rfl
  | behind => rfl
  | @merged x1 x2 k1 k2 result h2 hk1 hlen h1 hk2 hpos hresult =>
    have hmerged : (result.1 : Multiset α) = run1.drop k1 + run2.take k2 :=
      hresult.elim elements_of_mergeLo elements_of_mergeHi
    conv_rhs => rw [← List.take_append_drop k1 run1, ← List.take_append_drop k2 run2]
    simp only [← Multiset.coe_add, hmerged]
    ac_rfl

end Elements

/-! ## Where a gallop ends -/

section Splits

variable {before : α → Except Throwable Bool} {run : List α} {k : Nat}

/-- The run may be split at `k`: the last element of the first part stands before the key, and the
first one of the second part does not. -/
structure Splits (before : α → Except Throwable Bool) (run : List α) (k : Nat) : Prop where
  le : k ≤ run.length
  left : ∀ i x, i + 1 = k → run[i]? = some x → before x = .ok true
  right : ∀ x, run[k]? = some x → before x = .ok false

theorem search_splits {lastOfs ofs : Nat} (hle : lastOfs ≤ ofs) (hofs : ofs ≤ run.length)
    (hleft : ∀ i x, i + 1 = lastOfs → run[i]? = some x → before x = .ok true)
    (hright : ∀ x, run[ofs]? = some x → before x = .ok false)
    (h : (search before run).run (lastOfs, ofs) = .ok k) : Splits before run k := by
  refine Loop.post_of_invariant (Q := Splits before run)
    (I := fun s => s.1 ≤ s.2 ∧ s.2 ≤ run.length ∧
      (∀ i x, i + 1 = s.1 → run[i]? = some x → before x = .ok true) ∧
      ∀ x, run[s.2]? = some x → before x = .ok false)
    (fun s s' hs hbody => ?_) (fun s k hs hbody => ?_) ⟨hle, hofs, hleft, hright⟩ h
  · obtain ⟨hle, hofs, hleft, hright⟩ := hs
    simp only [search] at hbody
    split at hbody
    · obtain ⟨x, hx, hbody⟩ := bind_eq_ok_iff.mp hbody
      obtain ⟨isBefore, hbefore, hbody⟩ := bind_eq_ok_iff.mp hbody
      rw [load_eq_ok_iff] at hx
      cases isBefore with
      | true =>
        cases hbody
        simp only [if_true]
        refine ⟨by omega, hofs, fun i y hi hy => ?_, hright⟩
        obtain rfl := Nat.succ.inj hi
        rw [hx] at hy
        exact Option.some.inj hy ▸ hbefore
      | false =>
        cases hbody
        simp only [Bool.false_eq_true, if_false]
        refine ⟨by omega, by omega, hleft, fun y hy => ?_⟩
        rw [hx] at hy
        exact Option.some.inj hy ▸ hbefore
    · cases hbody
  · obtain ⟨hle, hofs, hleft, hright⟩ := hs
    simp only [search] at hbody
    split at hbody
    · obtain ⟨x, -, hbody⟩ := bind_eq_ok_iff.mp hbody
      obtain ⟨isBefore, -, hbody⟩ := bind_eq_ok_iff.mp hbody
      cases hbody
    · next hlt =>
      cases hbody
      have heq : s.1 = s.2 := by omega
      exact ⟨hofs, heq ▸ hleft, hright⟩

/-- The test held at `lastOfs`, and not at `ofs`. -/
theorem offsets_spec {test : Nat → Except Throwable Bool} {maxOfs : Nat} {s : Nat × Nat}
    (h : (offsets test maxOfs).run (0, 1) = .ok s) :
    s.1 < s.2 ∧ (s.1 = 0 ∨ s.1 < maxOfs ∧ test s.1 = .ok true) ∧
      (s.2 < maxOfs → test s.2 = .ok false) := by
  refine Loop.post_of_invariant
    (Q := fun s : Nat × Nat => s.1 < s.2 ∧ (s.1 = 0 ∨ s.1 < maxOfs ∧ test s.1 = .ok true) ∧
      (s.2 < maxOfs → test s.2 = .ok false))
    (I := fun s => s.1 < s.2 ∧ (s.1 = 0 ∨ s.1 < maxOfs ∧ test s.1 = .ok true))
    (fun s s' hs hbody => ?_) (fun s s' hs hbody => ?_) ⟨Nat.zero_lt_one, .inl rfl⟩ h
  · simp only [offsets] at hbody
    split at hbody
    · next hlt =>
      obtain ⟨isSame, hsame, hbody⟩ := bind_eq_ok_iff.mp hbody
      cases isSame with
      | true =>
        cases hbody
        exact ⟨by dsimp only; omega, .inr ⟨hlt, hsame⟩⟩
      | false => cases hbody
    · cases hbody
  · simp only [offsets] at hbody
    split at hbody
    · obtain ⟨isSame, hsame, hbody⟩ := bind_eq_ok_iff.mp hbody
      cases isSame with
      | true => cases hbody
      | false =>
        cases hbody
        exact ⟨hs.1, hs.2, fun _ => hsame⟩
    · next hlt =>
      cases hbody
      exact ⟨hs.1, hs.2, fun h => absurd h hlt⟩

/-- What the test at an offset says of the element there. -/
theorem before_of_load {i : Nat} {x : α} {isBefore : Bool} (hx : run[i]? = some x)
    (h : (load run i >>= before) = .ok isBefore) : before x = .ok isBefore := by
  obtain ⟨y, hy, h⟩ := bind_eq_ok_iff.mp h
  rw [load_eq_ok_iff, hx] at hy
  exact Option.some.inj hy ▸ h

theorem before_of_not_load {i : Nat} {x : α} {isBefore : Bool} (hx : run[i]? = some x)
    (h : (! ·) <$> (load run i >>= before) = .ok isBefore) : before x = .ok !isBefore := by
  cases hload : (load run i >>= before : Except Throwable Bool) with
  | error e =>
    rw [hload] at h
    cases h
  | ok b =>
    rw [hload] at h
    have hb : (!b) = isBefore := Except.ok.inj h
    rw [before_of_load hx hload, ← hb, Bool.not_not]

/-- **Where a gallop ends**, the run is split. -/
theorem gallop_splits {hint : Nat} (h : gallop before run hint = .ok k) : Splits before run k := by
  obtain ⟨pivot, hpivot, h⟩ := bind_eq_ok_iff.mp h
  obtain ⟨isBefore, hbefore, h⟩ := bind_eq_ok_iff.mp h
  rw [load_eq_ok_iff] at hpivot
  have hhint := (List.getElem?_eq_some_iff.mp hpivot).1
  split at h
  · next htrue =>
    obtain ⟨⟨lastOfs, ofs⟩, hoffsets, h⟩ := bind_eq_ok_iff.mp h
    obtain ⟨hlt, hlast, hofs⟩ := offsets_spec hoffsets
    dsimp only at hlt hlast hofs h
    refine search_splits (by omega) (by omega) (fun i x hi hx => ?_) (fun x hx => ?_) h
    · obtain rfl := Nat.succ.inj hi
      rcases hlast with rfl | ⟨-, hlast⟩
      · rw [Nat.add_zero, hpivot] at hx
        exact Option.some.inj hx ▸ htrue ▸ hbefore
      · exact before_of_load hx hlast
    · have hlen := (List.getElem?_eq_some_iff.mp hx).1
      rw [Nat.min_eq_left (by omega)] at hx
      exact before_of_load hx (hofs (by omega))
  · next hfalse =>
    obtain ⟨⟨lastOfs, ofs⟩, hoffsets, h⟩ := bind_eq_ok_iff.mp h
    obtain ⟨hlt, hlast, hofs⟩ := offsets_spec hoffsets
    dsimp only at hlt hlast hofs h
    refine search_splits (by omega) (by omega) (fun i x hi hx => ?_) (fun x hx => ?_) h
    · have hindex : i = hint - ofs := by omega
      rw [hindex] at hx
      exact before_of_not_load hx (hofs (by omega))
    · rcases hlast with rfl | ⟨-, hlast⟩
      · rw [Nat.sub_zero, hpivot] at hx
        exact Option.some.inj hx ▸ Bool.eq_false_iff.mpr hfalse ▸ hbefore
      · exact before_of_not_load hx hlast

end Splits

end Terminator.Java.TimSort
