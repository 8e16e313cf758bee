import Terminator.Java.TimSort

/-!
# A long list of leading and other elements

What the merges of `TimSort` make of a comparator that is negative iff its left argument leads, and
positive for another one against a leading one. It is no order: two leading elements are each less
than the other, and the other ones may be told apart at will. So a merge may throw, and what it
makes of the order of the leading elements, and of the others, depends on where the runs lie.

**`leadsFirst_of_sort`**: but if the sort returns, the leading elements come first. So it leaves no
list with a leading element after the first one as it is (**`sort_eq_self_iff`**).
-/

namespace Terminator.Java.TimSort

variable {α : Type}

/-- No leading element stands behind another one. -/
def LeadsFirst (leads : α → Bool) (l : List α) : Prop :=
  l.Pairwise fun x y => leads y = true → leads x = true

/-- The comparator is positive for another element against a leading one. -/
def Tells (compare : α → α → Except Throwable Int) (ok : α → Prop) (leads : α → Bool) : Prop :=
  ∀ x y v, ok x → ok y → compare x y = .ok v → leads x = false → leads y = true → 0 < v

/-- The first list may stand in front of the second one. -/
def InFront (leads : α → Bool) (l l' : List α) : Prop :=
  ∀ x ∈ l, ∀ y ∈ l', leads y = true → leads x = true

section Lists

variable {leads : α → Bool} {l l' : List α} {x : α} {i k : Nat}

theorem leadsFirst_append :
    LeadsFirst leads (l ++ l') ↔ LeadsFirst leads l ∧ LeadsFirst leads l' ∧ InFront leads l l' :=
  List.pairwise_append

theorem inFront_of_leads (h : ∀ x ∈ l, leads x = true) : InFront leads l l' :=
  fun x hx _ _ _ => h x hx

theorem inFront_of_not_leads (h : ∀ y ∈ l', leads y = false) : InFront leads l l' :=
  fun _ _ y hy hlead => by rw [h y hy] at hlead; cases hlead

theorem leadsFirst_of_not_leads (h : ∀ y ∈ l, leads y = false) : LeadsFirst leads l :=
  List.pairwise_of_forall_mem_list fun _ _ y hy hlead =>
    absurd hlead (Bool.eq_false_iff.mp (h y hy))

/-- Behind another element there is no leading one. -/
theorem LeadsFirst.not_leads_drop (h : LeadsFirst leads l)
    (hx : ∀ x, l[k]? = some x → leads x = false) : ∀ y ∈ l.drop k, leads y = false := by
  intro y hy
  cases hdrop : l.drop k with
  | nil =>
    rw [hdrop] at hy
    cases hy
  | cons x rest =>
    have hk : l[k]? = some x := by
      rw [← Nat.add_zero k, ← List.getElem?_drop, hdrop]
      rfl
    have hfirst := List.Pairwise.sublist (List.drop_sublist k l) h
    rw [hdrop] at hfirst hy
    rcases List.mem_cons.mp hy with rfl | hy
    · exact hx y hk
    · by_contra hlead
      have := (List.pairwise_cons.mp hfirst).1 y hy (Bool.eq_true_of_not_eq_false hlead)
      rw [hx x hk] at this
      cases this

/-- In front of a leading element all are. -/
theorem LeadsFirst.leads_of_last (h : LeadsFirst leads l) (hx : l[l.length - 1]? = some x)
    (hlead : leads x = true) : ∀ y ∈ l, leads y = true := by
  intro y hy
  have hne : l ≠ [] := List.ne_nil_of_mem hy
  have hlast : l.getLast hne = x := by
    rw [← List.getLast?_eq_getElem?, List.getLast?_eq_some_getLast hne] at hx
    exact Option.some.inj hx
  rw [← List.dropLast_append_getLast hne, hlast] at h hy
  rcases List.mem_append.mp hy with hy | hy
  · exact (leadsFirst_append.mp h).2.2 y hy x (List.mem_singleton.mpr rfl) hlead
  · rw [List.mem_singleton.mp hy]
    exact hlead

theorem leadsFirst_leadFirst (leads : α → Bool) (a : List α) :
    LeadsFirst leads (leadFirst leads a) := by
  have hleads : ∀ x ∈ (a.filter leads).reverse, leads x = true := fun x hx =>
    (List.mem_filter.mp (List.mem_reverse.mp hx)).2
  have hothers : ∀ x ∈ a.filter (fun x => !leads x), leads x = false := fun x hx => by
    simpa using (List.mem_filter.mp hx).2
  exact leadsFirst_append.mpr ⟨List.pairwise_of_forall_mem_list fun x hx _ _ _ => hleads x hx,
    leadsFirst_of_not_leads hothers, inFront_of_leads hleads⟩

/-- Such a list is its leading elements, and then the others. -/
theorem LeadsFirst.filter_append_filter (h : LeadsFirst leads l) :
    l.filter leads ++ l.filter (fun x => !leads x) = l := by
  induction l with
  | nil => rfl
  | cons x l ih =>
    obtain ⟨hx, h⟩ := List.pairwise_cons.mp h
    cases hlead : leads x with
    | true => simp [hlead, ih h]
    | false =>
      have hnone : ∀ y ∈ l, leads y = false := fun y hy => by
        by_contra hy'
        have := hx y hy (Bool.eq_true_of_not_eq_false hy')
        rw [hlead] at this
        cases this
      have hleads : l.filter leads = [] := List.filter_eq_nil_iff.mpr fun y hy => by
        simp [hnone y hy]
      have hothers : l.filter (fun y => !leads y) = l := List.filter_eq_self.mpr fun y hy => by
        simp [hnone y hy]
      simp [hlead, hleads, hothers]

end Lists

/-! ## Where a gallop ends -/

section Gallop

variable {compare : α → α → Except Throwable Int} {ok : α → Prop} {leads : α → Bool}
  {key : α} {run : List α} {hint k : Nat}

/-- `gallopRight` passes over an element iff its key does not lead. -/
theorem gallopRight_before (hc : Leading compare ok leads) (hkey : ok key) {x : α} (hx : ok x) :
    (fun v => decide (0 ≤ v)) <$> compare key x = Except.ok (!leads key) := by
  obtain ⟨v, hv, hneg⟩ := hc key x hkey hx
  rw [hv, ← hneg]
  change Except.ok (decide (0 ≤ v)) = Except.ok (!decide (v < 0))
  congr 1
  by_cases hv : v < 0
  · simp [hv]
  · simp [hv, Int.not_lt.mp hv]

theorem gallopRight_of_leads (hc : Leading compare ok leads) (hkey : ok key)
    (hrun : ∀ x ∈ run, ok x) (hlead : leads key = true)
    (h : gallopRight compare key run hint = .ok k) : k = 0 := by
  have hsplits := gallop_splits h
  by_contra hk
  obtain ⟨i, rfl⟩ := Nat.exists_eq_succ_of_ne_zero hk
  have hi : i < run.length := hsplits.le
  have hleft := hsplits.left i run[i] rfl (List.getElem?_eq_getElem hi)
  rw [gallopRight_before hc hkey (hrun _ (List.getElem_mem hi)), hlead] at hleft
  cases hleft

theorem gallopRight_of_not_leads (hc : Leading compare ok leads) (hkey : ok key)
    (hrun : ∀ x ∈ run, ok x) (hlead : leads key = false)
    (h : gallopRight compare key run hint = .ok k) : k = run.length := by
  have hsplits := gallop_splits h
  by_contra hk
  have hlt : k < run.length := Nat.lt_of_le_of_ne hsplits.le hk
  have hright := hsplits.right run[k] (List.getElem?_eq_getElem hlt)
  rw [gallopRight_before hc hkey (hrun _ (List.getElem_mem hlt)), hlead] at hright
  cases hright

/-- `gallopLeft` passes over nothing for a leading key. -/
theorem gallopLeft_of_leads (hc : Leading compare ok leads) (hkey : ok key)
    (hrun : ∀ x ∈ run, ok x) (hlead : leads key = true)
    (h : gallopLeft compare key run hint = .ok k) : k = 0 := by
  have hsplits := gallop_splits h
  by_contra hk
  obtain ⟨i, rfl⟩ := Nat.exists_eq_succ_of_ne_zero hk
  have hi : i < run.length := hsplits.le
  obtain ⟨v, hv, hneg⟩ := hc key run[i] hkey (hrun _ (List.getElem_mem hi))
  have hleft := hsplits.left i run[i] rfl (List.getElem?_eq_getElem hi)
  rw [hlead, decide_eq_true_eq] at hneg
  rw [hv] at hleft
  have hpos : decide (0 < v) = true := Except.ok.inj hleft
  rw [decide_eq_true_eq] at hpos
  omega

/-- For another key it passes over all the leading elements. -/
theorem gallopLeft_of_not_leads (hc : Leading compare ok leads) (ht : Tells compare ok leads)
    (hkey : ok key) (hrun : ∀ x ∈ run, ok x) (hfirst : LeadsFirst leads run)
    (hlead : leads key = false) (h : gallopLeft compare key run hint = .ok k) :
    ∀ y ∈ run.drop k, leads y = false := by
  refine hfirst.not_leads_drop fun x hx => ?_
  have hok := hrun x (List.mem_of_getElem? hx)
  obtain ⟨v, hv, -⟩ := hc key x hkey hok
  have hright := (gallop_splits h).right x hx
  rw [hv] at hright
  have hpos : decide (0 < v) = false := Except.ok.inj hright
  by_contra hx'
  have := ht key x v hkey hok hv hlead (Bool.eq_true_of_not_eq_false hx')
  simp [this] at hpos

end Gallop

/-! ## The moves of a merge -/

section Moves

variable {compare : α → α → Except Throwable Int} {ok : α → Prop} {leads : α → Bool}
  {d : Direction} {s s' : Merging α} {run other merged : List α} {x : α} {n : Nat}

/-- The next list to be merged may stand beside the other one. -/
def Direction.Beside (leads : α → Bool) (next other : List α) : Direction → Prop
  | lo => InFront leads next other
  | hi => InFront leads other next

/-- An element that keeps its run waiting: from the left another one, else a leading one. -/
def Direction.Waits (leads : α → Bool) (x : α) : Direction → Prop
  | lo => leads x = false
  | hi => leads x = true

theorem join_rest_join_taken (d : Direction) (n : Nat) (run merged : List α) :
    d.join (d.rest n run) (d.join (d.taken n run) merged) = d.join run merged := by
  cases d with
  | lo =>
    simp only [Direction.join, Direction.rest, Direction.taken]
    rw [List.append_assoc, List.take_append_drop]
  | hi =>
    simp only [Direction.join, Direction.rest, Direction.taken]
    rw [← List.append_assoc, List.take_append_drop]

theorem taken_sublist (d : Direction) (n : Nat) (run : List α) : (d.taken n run).Sublist run := by
  cases d with
  | lo => exact List.take_sublist n run
  | hi => exact List.drop_sublist _ run

theorem rest_sublist (d : Direction) (n : Nat) (run : List α) : (d.rest n run).Sublist run := by
  cases d with
  | lo => exact List.drop_sublist n run
  | hi => exact List.take_sublist _ run

/-- What is merged may go on with what may stand beside the other run. -/
theorem leadsFirst_join_taken (hrun : LeadsFirst leads (d.join run merged))
    (hother : LeadsFirst leads (d.join other merged))
    (hbeside : d.Beside leads (d.taken n run) other) :
    LeadsFirst leads (d.join other (d.join (d.taken n run) merged)) := by
  have htaken := taken_sublist d n run
  cases d with
  | lo =>
    simp only [Direction.join] at hrun hother ⊢
    obtain ⟨hmerged, hrun, hfront⟩ := leadsFirst_append.mp hrun
    obtain ⟨-, hother, hfront'⟩ := leadsFirst_append.mp hother
    refine leadsFirst_append.mpr ⟨leadsFirst_append.mpr ⟨hmerged, hrun.sublist htaken, ?_⟩, hother,
      fun x hx y hy => ?_⟩
    · exact fun x hx y hy => hfront x hx y (htaken.subset hy)
    · exact (List.mem_append.mp hx).elim (hfront' x · y hy) (hbeside x · y hy)
  | hi =>
    simp only [Direction.join] at hrun hother ⊢
    obtain ⟨hrun, hmerged, hfront⟩ := leadsFirst_append.mp hrun
    obtain ⟨hother, -, hfront'⟩ := leadsFirst_append.mp hother
    refine leadsFirst_append.mpr ⟨hother, leadsFirst_append.mpr ⟨hrun.sublist htaken, hmerged, ?_⟩,
      fun x hx y hy => ?_⟩
    · exact fun x hx y hy => hfront x (htaken.subset hx) y hy
    · exact (List.mem_append.mp hy).elim (hbeside x hx y ·) (hfront' x hx y ·)

/-- Beside a run whose next element waits anything may be merged. -/
theorem beside_of_waits (hfirst : LeadsFirst leads run) (hx : load run (d.index run) = .ok x)
    (hwaits : d.Waits leads x) (next : List α) : d.Beside leads next run := by
  rw [load_eq_ok_iff] at hx
  cases d with
  | lo =>
    refine inFront_of_not_leads (hfirst.not_leads_drop (k := 0) fun y hy => ?_)
    rw [Direction.index] at hx
    rw [hx] at hy
    exact Option.some.inj hy ▸ hwaits
  | hi => exact inFront_of_leads (hfirst.leads_of_last hx hwaits)

/-- An element that does not wait may be merged beside anything. -/
theorem beside_of_not_waits (hx : load run (d.index run) = .ok x) (hwaits : ¬ d.Waits leads x)
    (other : List α) : d.Beside leads (d.taken 1 run) other := by
  rw [load_eq_ok_iff] at hx
  have htaken : d.taken 1 run = [x] := by
    cases d with
    | lo =>
      cases run with
      | nil => cases hx
      | cons y run =>
        cases hx
        rfl
    | hi =>
      have hlt := (List.getElem?_eq_some_iff.mp hx).1
      simp only [Direction.taken, Direction.index] at hx hlt ⊢
      rw [List.drop_eq_getElem_cons hlt, List.drop_eq_nil_of_le (by omega)]
      rw [List.getElem?_eq_getElem hlt] at hx
      rw [Option.some.inj hx]
  rw [htaken]
  cases d with
  | lo =>
    refine inFront_of_leads fun y hy => ?_
    rw [List.mem_singleton.mp hy]
    exact Bool.eq_true_of_not_eq_false hwaits
  | hi =>
    refine inFront_of_not_leads fun y hy => ?_
    rw [List.mem_singleton.mp hy]
    exact Bool.eq_false_iff.mpr hwaits

/-- Nothing may be merged beside anything, and anything beside nothing. -/
theorem beside_nil_left (other : List α) : d.Beside leads [] other := by
  cases d with
  | lo => exact fun x hx => absurd hx List.not_mem_nil
  | hi => exact fun _ _ y hy => absurd hy List.not_mem_nil

theorem beside_nil_right (next : List α) : d.Beside leads next [] := by
  cases d with
  | lo => exact fun _ _ y hy => absurd hy List.not_mem_nil
  | hi => exact fun x hx => absurd hx List.not_mem_nil

/-- Both runs may follow what is merged. The run that was copied ends as it must: the first one with
another element, the second one begins with a leading one. -/
structure MergingOk (ok : α → Prop) (leads : α → Bool) (d : Direction) (s : Merging α) : Prop where
  ok1 : ∀ x ∈ s.run1, ok x
  ok2 : ∀ x ∈ s.run2, ok x
  first1 : LeadsFirst leads (d.join s.run1 s.merged)
  first2 : LeadsFirst leads (d.join s.run2 s.merged)
  last1 : d = .lo → ∀ x, s.run1.getLast? = some x → leads x = false
  head2 : d = .hi → ∀ x, s.run2.head? = some x → leads x = true

theorem leadsFirst_of_join (h : LeadsFirst leads (d.join run merged)) : LeadsFirst leads run := by
  cases d with
  | lo => exact (leadsFirst_append.mp h).2.1
  | hi => exact (leadsFirst_append.mp h).1

theorem MergingOk.like (h : MergingOk ok leads d s) (hlike : s.Like s') :
    MergingOk ok leads d s' := by
  obtain ⟨h1, h2, h3⟩ := hlike
  exact ⟨h1 ▸ h.ok1, h2 ▸ h.ok2, h1 ▸ h3 ▸ h.first1, h2 ▸ h3 ▸ h.first2, h1 ▸ h.last1,
    h2 ▸ h.head2⟩

theorem MergingOk.take1 (h : MergingOk ok leads d s)
    (hbeside : d.Beside leads (d.taken n s.run1) s.run2) : MergingOk ok leads d (s.take1 d n) where
  ok1 x hx := h.ok1 x ((rest_sublist d n s.run1).subset hx)
  ok2 := h.ok2
  first1 := (join_rest_join_taken d n s.run1 s.merged).symm ▸ h.first1
  first2 := leadsFirst_join_taken h.first1 h.first2 hbeside
  last1 hd x hx := by
    subst hd
    change (s.run1.drop n).getLast? = some x at hx
    rw [List.getLast?_drop] at hx
    split at hx
    · cases hx
    · exact h.last1 rfl x hx
  head2 := h.head2

theorem MergingOk.take2 (h : MergingOk ok leads d s)
    (hbeside : d.Beside leads (d.taken n s.run2) s.run1) : MergingOk ok leads d (s.take2 d n) where
  ok1 := h.ok1
  ok2 x hx := h.ok2 x ((rest_sublist d n s.run2).subset hx)
  first1 := leadsFirst_join_taken h.first2 h.first1 hbeside
  first2 := (join_rest_join_taken d n s.run2 s.merged).symm ▸ h.first2
  last1 := h.last1
  head2 hd x hx := by
    subst hd
    change (s.run2.take (s.run2.length - n)).head? = some x at hx
    rw [List.head?_take] at hx
    split at hx
    · cases hx
    · exact h.head2 rfl x hx

/-- What `gallopRight` passes over may be merged; then the element it looked for may be, or the
first run is empty. -/
theorem MergingOk.gallop1 (h : MergingOk ok leads d s) (hc : Leading compare ok leads) {k : Nat}
    (hx : load s.run2 (d.index s.run2) = .ok x)
    (hk : gallopRight compare x s.run1 (d.index s.run1) = .ok k) :
    MergingOk ok leads d (s.take1 d (d.count s.run1 k)) ∧
      (d.Waits leads x → (s.take1 d (d.count s.run1 k)).run1 = []) := by
  have hokx := h.ok2 x (List.mem_of_getElem? (load_eq_ok_iff.mp hx))
  have hleads : leads x = true → k = 0 := fun hlead =>
    gallopRight_of_leads hc hokx h.ok1 hlead hk
  have hothers : leads x = false → k = s.run1.length := fun hlead =>
    gallopRight_of_not_leads hc hokx h.ok1 hlead hk
  have hnone : ¬ d.Waits leads x → d.taken (d.count s.run1 k) s.run1 = [] := by
    intro hwaits
    cases d with
    | lo =>
      rw [hleads (Bool.eq_true_of_not_eq_false hwaits)]
      rfl
    | hi =>
      rw [hothers (Bool.eq_false_iff.mpr hwaits), Direction.count, Nat.sub_self]
      exact List.drop_length
  have hall : d.Waits leads x → (s.take1 d (d.count s.run1 k)).run1 = [] := by
    intro hwaits
    refine List.length_eq_zero_iff.mp ((Direction.length_rest d _ s.run1).trans ?_)
    cases d with
    | lo => rw [hothers hwaits, Direction.count, Nat.sub_self]
    | hi => rw [hleads hwaits, Direction.count, Nat.sub_zero, Nat.sub_self]
  refine ⟨h.take1 ?_, hall⟩
  by_cases hwaits : d.Waits leads x
  · exact beside_of_waits (leadsFirst_of_join h.first2) hx hwaits _
  · rw [hnone hwaits]
    exact beside_nil_left _

/-- What `gallopLeft` passes over may be merged, and then anything of the first run, or the element
it looked for. -/
theorem MergingOk.gallop2 (h : MergingOk ok leads d s) (hc : Leading compare ok leads)
    (ht : Tells compare ok leads) {k : Nat} (hx : load s.run1 (d.index s.run1) = .ok x)
    (hk : gallopLeft compare x s.run2 (d.index s.run2) = .ok k) :
    MergingOk ok leads d (s.take2 d (d.count s.run2 k)) ∧
      (d.Waits leads x →
        d.Beside leads (d.taken 1 s.run1) (s.take2 d (d.count s.run2 k)).run2) := by
  have hokx := h.ok1 x (List.mem_of_getElem? (load_eq_ok_iff.mp hx))
  have hfirst := leadsFirst_of_join h.first2
  have hleads : leads x = true → k = 0 := fun hlead =>
    gallopLeft_of_leads hc hokx h.ok2 hlead hk
  have hothers : leads x = false → ∀ y ∈ s.run2.drop k, leads y = false := fun hlead =>
    gallopLeft_of_not_leads hc ht hokx h.ok2 hfirst hlead hk
  refine ⟨h.take2 ?_, fun hwaits => ?_⟩
  · by_cases hwaits : d.Waits leads x
    · exact beside_of_waits (leadsFirst_of_join h.first1) hx hwaits _
    · cases d with
      | lo =>
        rw [hleads (Bool.eq_true_of_not_eq_false hwaits)]
        exact beside_nil_left _
      | hi =>
        refine inFront_of_not_leads fun y hy => hothers (Bool.eq_false_iff.mpr hwaits) y ?_
        change y ∈ s.run2.drop (s.run2.length - (s.run2.length - k)) at hy
        rwa [Nat.sub_sub_self (gallop_splits hk).le] at hy
  · cases d with
    | lo => exact inFront_of_not_leads (hothers hwaits)
    | hi =>
      have hnil : (s.take2 .hi (Direction.hi.count s.run2 k)).run2 = [] := by
        refine List.length_eq_zero_iff.mp ((Direction.length_rest .hi _ s.run2).trans ?_)
        rw [hleads hwaits, Direction.count, Nat.sub_zero, Nat.sub_self]
      rw [hnil]
      exact beside_nil_right _

/-- **A move** keeps the leading elements in front. -/
theorem MergingOk.move (h : MergingOk ok leads d s) (hc : Leading compare ok leads)
    (ht : Tells compare ok leads) (hmove : Move compare d s s') : MergingOk ok leads d s' := by
  have hsecond : ∀ {x1 x2 v}, load s.run1 (d.index s.run1) = .ok x1 →
      load s.run2 (d.index s.run2) = .ok x2 → compare x2 x1 = .ok v →
      (d.isSecond v = false ↔ d.Waits leads x2) := by
    intro x1 x2 v h1 h2 hv
    obtain ⟨v', hv', hneg⟩ := hc x2 x1 (h.ok2 x2 (List.mem_of_getElem? (load_eq_ok_iff.mp h2)))
      (h.ok1 x1 (List.mem_of_getElem? (load_eq_ok_iff.mp h1)))
    obtain rfl := Except.ok.inj (hv.symm.trans hv')
    cases d with
    | lo => rw [Direction.isSecond, hneg, Direction.Waits]
    | hi => rw [Direction.isSecond, hneg, Direction.Waits, Bool.not_eq_false']
  cases hmove with
  | win1 h1 h2 hv hv' =>
    have hbeside := beside_of_waits (leadsFirst_of_join h.first2) h2 ((hsecond h1 h2 hv).mp hv')
    exact (h.take1 (hbeside _)).like ⟨rfl, rfl, rfl⟩
  | win2 h1 h2 hv hv' =>
    refine (h.take2 (beside_of_not_waits h2 (fun hwaits => ?_) _)).like ⟨rfl, rfl, rfl⟩
    rw [(hsecond h1 h2 hv).mpr hwaits] at hv'
    cases hv'
  | passed1 h2 hk => exact (h.gallop1 hc h2 hk).1
  | @found2 x2 k h2 hk =>
    obtain ⟨hpassed, hempty⟩ := h.gallop1 hc h2 hk
    refine hpassed.take2 ?_
    by_cases hwaits : d.Waits leads x2
    · rw [hempty hwaits]
      exact beside_nil_right _
    · exact beside_of_not_waits h2 hwaits _
  | passed2 h1 hk => exact (h.gallop2 hc ht h1 hk).1
  | @found1 x1 k h1 hk =>
    obtain ⟨hpassed, hbeside⟩ := h.gallop2 hc ht h1 hk
    refine hpassed.take1 ?_
    by_cases hwaits : d.Waits leads x1
    · exact hbeside hwaits
    · exact beside_of_not_waits h1 hwaits _

theorem MergingOk.outer (hc : Leading compare ok leads) (ht : Tells compare ok leads)
    (h : MergingOk ok leads d s) (hrun : (outer compare d).run s = .ok s') :
    MergingOk ok leads d s' := by
  have hmoves : ∀ {s s'}, MergingOk ok leads d s → Relation.TransGen (Move compare d) s s' →
      MergingOk ok leads d s' := by
    intro s s' h hmoves
    induction hmoves with
    | single hmove => exact h.move hc ht hmove
    | tail _ hmove ih => exact ih.move hc ht hmove
  refine Loop.post_of_invariant (I := MergingOk ok leads d) (Q := MergingOk ok leads d)
    (fun s1 s2 h1 hpass => ?_) (fun s1 s2 h1 hpass => ?_) h hrun
  · cases pass_passes hpass with
    | next hmoved hlike => exact (hmoves h1 hmoved).like hlike
  · cases pass_passes hpass with
    | done hmoved => exact hmoves h1 hmoved

end Moves

/-! ## A merge -/

section Merge

variable {compare : α → α → Except Throwable Int} {ok : α → Prop} {leads : α → Bool}
  {s : Merging α} {run1 run2 : List α} {minGallop : Nat} {result : List α × Nat}

/-- The end of a run that is left over in `mergeLo` may stand behind everything. -/
theorem MergingOk.leadsFirst_lo (h : MergingOk ok leads .lo s) (hlen : s.run1.length = 1) :
    LeadsFirst leads (s.merged ++ (s.run2 ++ s.run1)) := by
  obtain ⟨x, hx⟩ := List.length_eq_one_iff.mp hlen
  have hlast := h.last1 rfl x (by rw [hx]; rfl)
  have h1 := leadsFirst_append.mp h.first1
  have h2 := leadsFirst_append.mp h.first2
  refine leadsFirst_append.mpr ⟨h1.1, leadsFirst_append.mpr ⟨h2.2.1, h1.2.1, ?_⟩,
    fun y hy z hz => (List.mem_append.mp hz).elim (h2.2.2 y hy z) (h1.2.2 y hy z)⟩
  refine inFront_of_not_leads fun y hy => ?_
  rw [hx, List.mem_singleton] at hy
  exact hy ▸ hlast

/-- The beginning of a run that is left over in `mergeHi` may stand in front of everything. -/
theorem MergingOk.leadsFirst_hi (h : MergingOk ok leads .hi s) (hlen : s.run2.length = 1) :
    LeadsFirst leads (s.run2 ++ s.run1 ++ s.merged) := by
  obtain ⟨x, hx⟩ := List.length_eq_one_iff.mp hlen
  have hhead := h.head2 rfl x (by rw [hx]; rfl)
  have h1 := leadsFirst_append.mp h.first1
  have h2 := leadsFirst_append.mp h.first2
  have hlead : ∀ y ∈ s.run2, leads y = true := fun y hy => by
    rw [hx, List.mem_singleton] at hy
    exact hy ▸ hhead
  rw [List.append_assoc]
  exact leadsFirst_append.mpr ⟨h2.1, h.first1, inFront_of_leads hlead⟩

/-- The state a merge of two runs starts from. -/
theorem mergingOk_start (d : Direction) (hok1 : ∀ x ∈ run1, ok x) (hok2 : ∀ x ∈ run2, ok x)
    (h1 : LeadsFirst leads run1) (h2 : LeadsFirst leads run2)
    (hlast : ∀ x, run1.getLast? = some x → leads x = false)
    (hhead : ∀ x, run2.head? = some x → leads x = true) :
    MergingOk ok leads d ⟨run1, run2, [], 0, 0, minGallop, false⟩ where
  ok1 := hok1
  ok2 := hok2
  first1 := by
    cases d with
    | lo => exact h1
    | hi =>
      change LeadsFirst leads (run1 ++ [])
      rw [List.append_nil]
      exact h1
  first2 := by
    cases d with
    | lo => exact h2
    | hi =>
      change LeadsFirst leads (run2 ++ [])
      rw [List.append_nil]
      exact h2
  last1 _ := hlast
  head2 _ := hhead

theorem leadsFirst_of_mergeLo (hc : Leading compare ok leads) (ht : Tells compare ok leads)
    (hok1 : ∀ x ∈ run1, ok x) (hok2 : ∀ x ∈ run2, ok x) (h1 : LeadsFirst leads run1)
    (h2 : LeadsFirst leads run2) (hlast : ∀ x, run1.getLast? = some x → leads x = false)
    (hhead : ∀ x, run2.head? = some x → leads x = true)
    (h : mergeLo compare run1 run2 minGallop = .ok result) : LeadsFirst leads result.1 := by
  have hstart : MergingOk ok leads .lo
      ((Merging.mk run1 run2 [] 0 0 minGallop false).take2 .lo 1) := by
    refine (mergingOk_start .lo hok1 hok2 h1 h2 hlast hhead).take2 (inFront_of_leads fun x hx => ?_)
    change x ∈ run2.take 1 at hx
    cases run2 with
    | nil => cases hx
    | cons y run2 =>
      rw [List.take_succ_cons, List.take_zero, List.mem_singleton] at hx
      exact hx ▸ hhead y rfl
  unfold mergeLo at h
  generalize (Merging.mk run1 run2 [] 0 0 minGallop false).take2 .lo 1 = s at h hstart
  dsimp only at h
  split at h
  · cases h
    exact hstart.first1
  · split at h
    · next hlen =>
      cases h
      exact hstart.leadsFirst_lo hlen
    · obtain ⟨s', houter, h⟩ := bind_eq_ok_iff.mp h
      have hend := hstart.outer hc ht houter
      unfold Merging.finishLo at h
      split at h
      · next hlen =>
        cases h
        exact hend.leadsFirst_lo hlen
      · split at h
        · cases h
        · cases h
          exact hend.first1

theorem leadsFirst_of_mergeHi (hc : Leading compare ok leads) (ht : Tells compare ok leads)
    (hok1 : ∀ x ∈ run1, ok x) (hok2 : ∀ x ∈ run2, ok x) (h1 : LeadsFirst leads run1)
    (h2 : LeadsFirst leads run2) (hlast : ∀ x, run1.getLast? = some x → leads x = false)
    (hhead : ∀ x, run2.head? = some x → leads x = true)
    (h : mergeHi compare run1 run2 minGallop = .ok result) : LeadsFirst leads result.1 := by
  have hstart : MergingOk ok leads .hi
      ((Merging.mk run1 run2 [] 0 0 minGallop false).take1 .hi 1) := by
    refine (mergingOk_start .hi hok1 hok2 h1 h2 hlast hhead).take1
      (inFront_of_not_leads fun x hx => ?_)
    change x ∈ run1.drop (run1.length - 1) at hx
    have hne : run1 ≠ [] := by
      rintro rfl
      cases hx
    rw [List.drop_length_sub_one hne, List.mem_singleton] at hx
    exact hlast x (hx ▸ List.getLast?_eq_some_getLast hne)
  unfold mergeHi at h
  generalize (Merging.mk run1 run2 [] 0 0 minGallop false).take1 .hi 1 = s at h hstart
  dsimp only at h
  split at h
  · cases h
    exact hstart.first2
  · split at h
    · next hlen =>
      cases h
      exact hstart.leadsFirst_hi hlen
    · obtain ⟨s', houter, h⟩ := bind_eq_ok_iff.mp h
      have hend := hstart.outer hc ht houter
      unfold Merging.finishHi at h
      split at h
      · next hlen =>
        cases h
        exact hend.leadsFirst_hi hlen
      · split at h
        · cases h
        · cases h
          exact hend.first2

/-- **Two neighbouring runs** are merged with the leading elements in front. -/
theorem leadsFirst_of_mergeAt (hc : Leading compare ok leads) (ht : Tells compare ok leads)
    (hok1 : ∀ x ∈ run1, ok x) (hok2 : ∀ x ∈ run2, ok x) (h1 : LeadsFirst leads run1)
    (h2 : LeadsFirst leads run2) (h : mergeAt compare run1 run2 minGallop = .ok result) :
    LeadsFirst leads result.1 := by
  cases mergeAt_mergesAt h with
  | @before x2 k1 hx2 hk1 hlen =>
    rw [load_eq_ok_iff] at hx2
    refine leadsFirst_append.mpr ⟨h1, h2, ?_⟩
    cases hlead : leads x2 with
    | true =>
      obtain rfl := gallopRight_of_leads hc (hok2 _ (List.mem_of_getElem? hx2)) hok1 hlead hk1
      obtain rfl : run1 = [] := hlen
      exact fun x hx => absurd hx List.not_mem_nil
    | false =>
      refine inFront_of_not_leads (h2.not_leads_drop (k := 0) fun y hy => ?_)
      rw [hx2] at hy
      exact Option.some.inj hy ▸ hlead
  | @behind x1 hx1 hk2 =>
    rw [load_eq_ok_iff] at hx1
    refine leadsFirst_append.mpr ⟨h1, h2, ?_⟩
    cases hlead : leads x1 with
    | true => exact inFront_of_leads (h1.leads_of_last hx1 hlead)
    | false =>
      exact inFront_of_not_leads (gallopLeft_of_not_leads hc ht
        (hok1 _ (List.mem_of_getElem? hx1)) hok2 h2 hlead hk2)
  | @merged x1 x2 k1 k2 result hx2 hk1 hlen hx1 hk2 hpos hresult =>
    rw [load_eq_ok_iff] at hx1 hx2
    have hokx1 := hok1 _ (List.mem_of_getElem? hx1)
    have hokx2 := hok2 _ (List.mem_of_getElem? hx2)
    -- the second run begins with a leading element, and the first one ends with another
    have hlead2 : leads x2 = true := by
      by_contra hlead
      refine hlen ?_
      rw [gallopRight_of_not_leads hc hokx2 hok1 (Bool.eq_false_iff.mpr hlead) hk1,
        List.drop_length]
    have hlead1 : leads x1 = false := by
      by_contra hlead
      have := gallopLeft_of_leads hc hokx1 hok2 (Bool.eq_true_of_not_eq_false hlead) hk2
      omega
    obtain rfl := gallopRight_of_leads hc hokx2 hok1 hlead2 hk1
    have hothers := gallopLeft_of_not_leads hc ht hokx1 hok2 h2 hlead1 hk2
    have hlast : ∀ x, run1.getLast? = some x → leads x = false := fun x hx => by
      rw [List.getLast?_eq_getElem?, hx1] at hx
      exact Option.some.inj hx ▸ hlead1
    have hhead : ∀ x, (run2.take k2).head? = some x → leads x = true := fun x hx => by
      rw [List.head?_take, if_neg (Nat.pos_iff_ne_zero.mp hpos), List.head?_eq_getElem?, hx2] at hx
      exact Option.some.inj hx ▸ hlead2
    have hok2' : ∀ x ∈ run2.take k2, ok x := fun x hx => hok2 x (List.mem_of_mem_take hx)
    have h2' : LeadsFirst leads (run2.take k2) := h2.sublist (List.take_sublist k2 run2)
    rw [List.take_zero, List.nil_append]
    rw [List.drop_zero] at hresult
    refine leadsFirst_append.mpr ⟨hresult.elim
      (leadsFirst_of_mergeLo hc ht hok1 hok2' h1 h2' hlast hhead)
      (leadsFirst_of_mergeHi hc ht hok1 hok2' h1 h2' hlast hhead),
      h2.sublist (List.drop_sublist k2 run2), inFront_of_not_leads hothers⟩

end Merge

/-! ## The sort -/

section Whole

variable {compare : α → α → Except Throwable Int} {ok : α → Prop} {leads : α → Bool}
  {a out : List α}

/-- Every run has its leading elements in front. -/
def RunsOk (ok : α → Prop) (leads : α → Bool) (stack : List (List α)) : Prop :=
  ∀ run ∈ stack, (∀ x ∈ run, ok x) ∧ LeadsFirst leads run

theorem RunsOk.merges (hc : Leading compare ok leads) (ht : Tells compare ok leads)
    {stack : List (List α)} {minGallop : Nat} {s' : List (List α) × Nat}
    (h : RunsOk ok leads stack) (hmerges : Merges compare minGallop stack s') :
    RunsOk ok leads s'.1 := by
  cases hmerges with
  | @mk above below run0 run1 merged minGallop' hmerge =>
    obtain ⟨hok0, hfirst0⟩ := h run0 (by simp)
    obtain ⟨hok1, hfirst1⟩ := h run1 (by simp)
    intro run hrun
    rcases List.mem_append.mp hrun with hrun | hrun
    · exact h run (List.mem_append_left _ hrun)
    · rcases List.mem_cons.mp hrun with rfl | hrun
      · refine ⟨fun x hx => ?_, leadsFirst_of_mergeAt hc ht hok0 hok1 hfirst0 hfirst1 hmerge⟩
        exact (List.mem_append.mp ((elements_of_mergeAt hmerge).subset hx)).elim (hok0 x) (hok1 x)
      · exact h run (by simp [hrun])

/-- **A run** is `leadFirst` of what it covers. If no leading element stands behind another one, it
covers all of them. -/
theorem nextRun_of_leading (hc : Leading compare ok leads) {minRun : Nat} {run rest : List α}
    (hok : ∀ x ∈ a, ok x) (h : nextRun compare minRun a = .ok (run, rest)) :
    ∃ done, a = done ++ rest ∧ run = leadFirst leads done ∧
      (LeadsFirst leads a → ∀ x ∈ rest, leads x = false) := by
  obtain ⟨run0, rest0, hrun, hnext⟩ := nextRun_spec h
  obtain ⟨done, hdone, hrun0, hothers⟩ : ∃ done, a = done ++ rest0 ∧ run0 = leadFirst leads done ∧
      (LeadsFirst leads a → ∀ x ∈ rest0, leads x = false) := by
    match a with
    | [] =>
      cases hrun
      exact ⟨[], rfl, rfl, fun _ x hx => absurd hx List.not_mem_nil⟩
    | [x] =>
      cases hrun
      exact ⟨[x], rfl, (leadFirst_of_tail (by simp)).symm, fun _ x hx => absurd hx List.not_mem_nil⟩
    | a0 :: a1 :: tail =>
      obtain ⟨n, hend, hrun'⟩ := countRun_of_leading hc hok
      rw [hrun'] at hrun
      cases hrun
      refine ⟨a0 :: a1 :: tail.take n, by simp, rfl, fun hfirst => ?_⟩
      obtain ⟨h1, hfirst⟩ := List.pairwise_cons.mp (List.pairwise_cons.mp hfirst).2
      cases hlead : leads a1 with
      | true =>
        refine LeadsFirst.not_leads_drop hfirst fun x hx => Bool.eq_false_iff.mpr ?_
        rw [hlead] at hend
        exact hend x (by rw [List.head?_drop, hx])
      | false =>
        intro x hx
        by_contra hx'
        have := h1 x (List.mem_of_mem_drop hx) (Bool.eq_true_of_not_eq_false hx')
        rw [hlead] at this
        cases this
  rcases hnext with ⟨rfl, rfl⟩ | ⟨n, hsorted, rfl⟩
  · exact ⟨done, hdone, hrun0, hothers⟩
  · have hsplit : a = done ++ rest0.take n ++ rest0.drop n := by
      rw [List.append_assoc, List.take_append_drop, hdone]
    have hok' : ∀ x ∈ done ++ rest0.take n, ok x := fun x hx =>
      hok x (hsplit ▸ List.mem_append_left _ hx)
    rw [hrun0, binarySort_of_leading hc _ done hok'] at hsorted
    exact ⟨_, hsplit, (Except.ok.inj hsorted).symm,
      fun hfirst x hx => hothers hfirst x (List.mem_of_mem_drop hx)⟩

/-- `mergeForceCollapse` leaves one run. -/
theorem forceCollapseAt_eq_none {stack : List (List α)} (h : forceCollapseAt stack = none) :
    stack = [] ∨ ∃ run, stack = [run] := by
  match stack with
  | [] => exact .inl rfl
  | [run] => exact .inr ⟨run, rfl⟩
  | [_, _] => cases h
  | _ :: _ :: _ :: _ => cases h

theorem RunsOk.push (hc : Leading compare ok leads) (ht : Tells compare ok leads)
    {minRun minGallop : Nat} {run rest : List α} {stack : List (List α)}
    {s' : List (List α) × Nat} (hok : ∀ x ∈ a, ok x) (h : RunsOk ok leads stack)
    (hnext : nextRun compare minRun a = .ok (run, rest))
    (hstack : mergeCollapse compare (run :: stack) minGallop = .ok s') :
    (∀ x ∈ rest, ok x) ∧ RunsOk ok leads s'.1 := by
  have hparts : ∀ x ∈ run ++ rest, ok x := fun x hx => hok x ((perm_of_nextRun hnext).subset hx)
  refine ⟨fun x hx => hparts x (List.mem_append_right _ hx),
    (collapse_of_invariant (RunsOk.merges hc ht) (fun run' hrun' => ?_) hstack).1⟩
  rcases List.mem_cons.mp hrun' with rfl | hrun'
  · obtain ⟨done, -, hdone, -⟩ := nextRun_of_leading hc hok hnext
    exact ⟨fun x hx => hparts x (List.mem_append_left _ hx),
      hdone ▸ leadsFirst_leadFirst leads done⟩
  · exact h run' hrun'

/-- **What a sort returns**, of whatever length, has the leading elements in front. -/
theorem leadsFirst_of_sort (hc : Leading compare ok leads) (ht : Tells compare ok leads)
    (hok : ∀ x ∈ a, ok x) (h : sort compare a = .ok out) : LeadsFirst leads out := by
  by_cases hlen : a.length < MIN_MERGE
  · rw [sort_of_leading hc hok (.inl hlen)] at h
    exact Except.ok.inj h ▸ leadsFirst_leadFirst leads a
  · unfold sort at h
    rw [if_neg (fun hshort => hlen (Nat.lt_of_lt_of_le hshort (by decide))), if_neg hlen] at h
    obtain ⟨⟨stack, minGallop⟩, hruns, h⟩ := bind_eq_ok_iff.mp h
    obtain ⟨⟨stack', minGallop'⟩, hforce, h⟩ := bind_eq_ok_iff.mp h
    cases h
    obtain ⟨-, hstack⟩ := runs_of_invariant
      (I := fun a stack => (∀ x ∈ a, ok x) ∧ RunsOk ok leads stack)
      (fun h hnext hstack => RunsOk.push hc ht h.1 h.2 hnext hstack)
      ⟨hok, fun _ hrun => absurd hrun List.not_mem_nil⟩ hruns
    obtain ⟨hstack', hone⟩ := collapse_of_invariant (RunsOk.merges hc ht) hstack hforce
    rcases forceCollapseAt_eq_none hone with hnil | ⟨run, hrun⟩
    · dsimp only at hnil
      rw [hnil]
      exact .nil
    · dsimp only at hrun
      rw [hrun, List.reverse_singleton, List.flatten_singleton]
      exact (hstack' run (by rw [hrun]; exact List.mem_singleton.mpr rfl)).2

/-! ## A list whose leading elements are in front -/

/-- Only the first run, which is the bottom of the stack, has leading elements. -/
def OthersAbove (leads : α → Bool) (stack : List (List α)) : Prop :=
  ∀ run ∈ stack.dropLast, ∀ x ∈ run, leads x = false

/-- A run without leading elements is left behind the other one. -/
theorem mergeAt_of_others (hc : Leading compare ok leads) {run1 run2 : List α} {minGallop : Nat}
    {result : List α × Nat} (hok1 : ∀ x ∈ run1, ok x) (hok2 : ∀ x ∈ run2, ok x)
    (hothers : ∀ x ∈ run2, leads x = false)
    (h : mergeAt compare run1 run2 minGallop = .ok result) : result.1 = run1 ++ run2 := by
  cases mergeAt_mergesAt h with
  | before => rfl
  | behind => rfl
  | merged h2 hk1 hlen =>
    have hx2 := List.mem_of_getElem? (load_eq_ok_iff.mp h2)
    refine absurd ?_ hlen
    rw [gallopRight_of_not_leads hc (hok2 _ hx2) hok1 (hothers _ hx2) hk1, List.drop_length]

/-- So a merge on the stack changes nothing but where a run ends. -/
theorem Merges.of_othersAbove (hc : Leading compare ok leads) {minGallop : Nat}
    {stack : List (List α)} {s' : List (List α) × Nat} (hok : ∀ x ∈ stack.reverse.flatten, ok x)
    (hothers : OthersAbove leads stack) (h : Merges compare minGallop stack s') :
    s'.1.reverse.flatten = stack.reverse.flatten ∧ OthersAbove leads s'.1 := by
  cases h with
  | @mk above below run0 run1 merged minGallop' hmerge =>
    unfold OthersAbove at hothers ⊢
    rw [List.dropLast_append_of_ne_nil (List.cons_ne_nil _ _), List.dropLast_cons_cons] at hothers
    have hothers1 : ∀ x ∈ run1, leads x = false := hothers run1 (by simp)
    have hmerged : merged = run0 ++ run1 :=
      mergeAt_of_others hc (fun x hx => hok x (by simp [hx])) (fun x hx => hok x (by simp [hx]))
        hothers1 hmerge
    refine ⟨by simp [hmerged], fun run hrun => ?_⟩
    rw [List.dropLast_append_of_ne_nil (List.cons_ne_nil _ _)] at hrun
    rcases List.mem_append.mp hrun with hrun | hrun
    · exact hothers run (List.mem_append_left _ hrun)
    · cases below with
      | nil => cases hrun
      | cons run' below =>
        rw [List.dropLast_cons_cons] at hrun hothers
        rcases List.mem_cons.mp hrun with rfl | hrun
        · intro x hx
          rw [hmerged] at hx
          exact (List.mem_append.mp hx).elim (hothers run0 (by simp) x) (hothers1 x)
        · exact hothers run (by simp [hrun])

theorem OthersAbove.collapse (hc : Leading compare ok leads)
    {choose : List (List α) → Option Neighbours} {s s' : List (List α) × Nat}
    (hok : ∀ x ∈ s.1.reverse.flatten, ok x) (h : OthersAbove leads s.1)
    (hrun : (collapse compare choose).run s = .ok s') :
    s'.1.reverse.flatten = s.1.reverse.flatten ∧ OthersAbove leads s'.1 := by
  refine (collapse_of_invariant
    (I := fun stack => stack.reverse.flatten = s.1.reverse.flatten ∧ OthersAbove leads stack)
    (fun {stack minGallop s'} h hmerges => ?_) ⟨rfl, h⟩ hrun).1
  obtain ⟨hflatten, hothers⟩ := hmerges.of_othersAbove hc (h.1.symm ▸ hok) h.2
  exact ⟨hflatten.trans h.1, hothers⟩

/-- What the stack has, and `leadFirst` of what is left, is `leadFirst` of the list. -/
structure LeadFirstSoFar (leads : α → Bool) (a rest : List α) (stack : List (List α)) : Prop where
  whole : stack.reverse.flatten ++ leadFirst leads rest = leadFirst leads a
  first : LeadsFirst leads rest
  above : OthersAbove leads stack
  others : stack ≠ [] → ∀ x ∈ rest, leads x = false

theorem LeadFirstSoFar.mem {rest : List α} {stack : List (List α)} {x : α}
    (h : LeadFirstSoFar leads a rest stack) (hx : x ∈ stack.reverse.flatten ∨ x ∈ rest) :
    x ∈ a := by
  refine (@mem_leadFirst _ leads x a).mp ?_
  rw [← h.whole]
  exact hx.elim (List.mem_append_left _) fun hx => List.mem_append_right _ (mem_leadFirst.mpr hx)

/-- The first run takes all the leading elements. -/
theorem LeadFirstSoFar.push (hc : Leading compare ok leads) (hok : ∀ x ∈ a, ok x)
    {minRun minGallop : Nat} {rest run rest' : List α} {stack : List (List α)}
    {s' : List (List α) × Nat} (h : LeadFirstSoFar leads a rest stack)
    (hnext : nextRun compare minRun rest = .ok (run, rest'))
    (hstack : mergeCollapse compare (run :: stack) minGallop = .ok s') :
    LeadFirstSoFar leads a rest' s'.1 := by
  obtain ⟨done, hsplit, hrun, hothers⟩ :=
    nextRun_of_leading hc (fun x hx => hok x (h.mem (.inr hx))) hnext
  have hnone := hothers h.first
  have hleft : leadFirst leads rest = run ++ rest' := by
    rw [hsplit, leadFirst_append_of_not_leads hnone, hrun]
  have hok' : ∀ x ∈ (run :: stack).reverse.flatten, ok x := by
    intro x hx
    rw [List.reverse_cons, List.flatten_append, List.flatten_singleton] at hx
    refine hok x (h.mem ((List.mem_append.mp hx).imp_right fun hx => ?_))
    exact mem_leadFirst.mp (hleft ▸ List.mem_append_left _ hx)
  have habove : OthersAbove leads (run :: stack) := by
    cases stack with
    | nil => exact fun run hrun => absurd hrun List.not_mem_nil
    | cons run' stack =>
      intro run'' hrun'' x hx
      rw [List.dropLast_cons_cons] at hrun''
      rcases List.mem_cons.mp hrun'' with rfl | hrun''
      · refine h.others (List.cons_ne_nil _ _) x ?_
        exact mem_leadFirst.mp (hleft ▸ List.mem_append_left _ hx)
      · exact h.above run'' hrun'' x hx
  obtain ⟨hflatten, habove'⟩ := habove.collapse hc hok' hstack
  have hrest' : leadFirst leads rest' = rest' := leadFirst_append_of_not_leads (a := []) hnone
  refine ⟨?_, leadsFirst_of_not_leads hnone, habove', fun _ => hnone⟩
  rw [hflatten, hrest', ← h.whole, hleft]
  simp

/-- **A list whose leading elements are in front** comes out with these in reverse, if the sort
returns. -/
theorem sort_of_leadsFirst (hc : Leading compare ok leads) (hfirst : LeadsFirst leads a)
    (hok : ∀ x ∈ a, ok x) (h : sort compare a = .ok out) : out = leadFirst leads a := by
  by_cases hlen : a.length < MIN_MERGE
  · exact Except.ok.inj (h.symm.trans (sort_of_leading hc hok (.inl hlen)))
  · unfold sort at h
    rw [if_neg (fun hshort => hlen (Nat.lt_of_lt_of_le hshort (by decide))), if_neg hlen] at h
    obtain ⟨⟨stack, minGallop⟩, hruns, h⟩ := bind_eq_ok_iff.mp h
    obtain ⟨⟨stack', minGallop'⟩, hforce, h⟩ := bind_eq_ok_iff.mp h
    cases h
    have hsofar : LeadFirstSoFar leads a [] stack :=
      runs_of_invariant (LeadFirstSoFar.push hc hok)
        ⟨rfl, hfirst, fun _ hrun => absurd hrun List.not_mem_nil, fun hne => absurd rfl hne⟩ hruns
    have hwhole := (hsofar.above.collapse hc (fun x hx => hok x (hsofar.mem (.inl hx))) hforce).1
    rw [hwhole, ← hsofar.whole]
    exact (List.append_nil _).symm

/-- **What the sort leaves as it is**: of distinct elements, those without a leading one after the
first. -/
theorem sort_eq_self_iff (hc : Leading compare ok leads) (ht : Tells compare ok leads)
    (hok : ∀ x ∈ a, ok x) (hnodup : a.Nodup) :
    sort compare a = .ok a ↔ ∀ x ∈ a.tail, leads x = false := by
  constructor
  · intro h
    have hsorted := sort_of_leadsFirst hc (leadsFirst_of_sort hc ht hok h) hok h
    exact (leadFirst_eq_self_iff hnodup).mp hsorted.symm
  · intro h
    rw [sort_of_leading hc hok (.inr h), (leadFirst_eq_self_iff hnodup).mpr h]

end Whole

end Terminator.Java.TimSort
