import Mathlib.Data.List.Perm.Subperm
import Mathlib.Logic.Function.Basic
import Terminator.Java.Heap

/-!
# Linked structures

Cells that refer to each other through mutable fields, over any type of references. A field is the
function from a cell to what it refers to, an assignment is `Function.update`.

* `Chain next l rs`: from the link `l`, the field `next` passes exactly the cells `rs` and ends;
* `Linked after before a rs b`: the fields lead from `a` through `rs` to `b`, and back;
* `Ring`: a circular list closed by a head cell;
* `Heap.field`: a field of the objects on a heap, with what an assignment through a reference and an
  allocation do to it.

The rules say what an assignment does to the list of cells: `Chain.skip` takes a cell out of a
chain, **`Ring.push`** and **`Ring.unlink`** are the two updates of a ring. `walk` is the loop along
a ring; it ends at its head after as many steps as there are cells (`Ring.walk_eq`).
-/

namespace Terminator.Java

open Function (update)

variable {ι : Type}

/-! ## Chains -/

/-- The cells from a link to the end of its chain. -/
def Chain (next : ι → Option ι) : Option ι → List ι → Prop
  | l, [] => l = none
  | l, r :: rs => l = some r ∧ Chain next (next r) rs

section Chains

variable {next next' : ι → Option ι} {l : Option ι} {r : ι} {rs xs ys : List ι}

@[simp] theorem chain_nil : Chain next l [] ↔ l = none := Iff.rfl

@[simp] theorem chain_cons : Chain next l (r :: rs) ↔ l = some r ∧ Chain next (next r) rs := Iff.rfl

/-- A chain reads the field of its own cells only. -/
theorem chain_congr (h : ∀ u ∈ rs, next u = next' u) : Chain next l rs ↔ Chain next' l rs := by
  induction rs generalizing l with
  | nil => exact Iff.rfl
  | cons r rs ih =>
    rw [chain_cons, chain_cons, ← h r List.mem_cons_self]
    exact and_congr_right fun _ => ih fun _ hr' => h _ (List.mem_cons_of_mem _ hr')

/-- The chain behind one of its cells. -/
theorem Chain.behind (h : Chain next l (xs ++ r :: ys)) : Chain next (next r) ys := by
  induction xs generalizing l with
  | nil => exact h.2
  | cons x xs ih => exact ih h.2

variable [DecidableEq ι]

/-- An assignment outside a chain. -/
theorem Chain.update_of_notMem {n : Option ι} (h : Chain next l rs) (hr : r ∉ rs) :
    Chain (update next r n) l rs :=
  (chain_congr fun _ hu =>
    (Function.update_of_ne (ne_of_mem_of_not_mem hu hr) n next).symm).mp h

/-- **Taking a cell out of a chain**: its predecessor skips it. -/
theorem Chain.skip {p : ι} (h : Chain next l (xs ++ p :: r :: ys))
    (hnd : (xs ++ p :: r :: ys).Nodup) :
    Chain (update next p (next r)) l (xs ++ p :: ys) := by
  induction xs generalizing l with
  | nil =>
    obtain ⟨hl, hp, hys⟩ := h
    have hpys : p ∉ ys := by simp_all
    refine ⟨hl, ?_⟩
    rw [Function.update_self]
    exact Chain.update_of_notMem hys hpys
  | cons x xs ih =>
    obtain ⟨hl, hx⟩ := h
    rw [List.cons_append, List.nodup_cons] at hnd
    have hxp : x ≠ p := fun he => hnd.1 (by simp [he])
    refine ⟨hl, ?_⟩
    rw [Function.update_of_ne hxp]
    exact ih hx hnd.2

end Chains

/-! ## Doubly linked lists -/

/-- The two fields agree on the cells from `a` to `b`. -/
def Linked (after before : ι → ι) : ι → List ι → ι → Prop
  | a, [], b => after a = b ∧ before b = a
  | a, r :: rs, b => after a = r ∧ before r = a ∧ Linked after before r rs b

section LinkedCells

variable {after before after' before' : ι → ι} {a b r : ι} {rs xs ys : List ι}

@[simp] theorem linked_nil : Linked after before a [] b ↔ after a = b ∧ before b = a := Iff.rfl

@[simp] theorem linked_cons :
    Linked after before a (r :: rs) b ↔ after a = r ∧ before r = a ∧ Linked after before r rs b :=
  Iff.rfl

/-- A cell in the middle splits the list. -/
theorem linked_append_cons :
    Linked after before a (xs ++ r :: ys) b ↔
      Linked after before a xs r ∧ Linked after before r ys b := by
  induction xs generalizing a with
  | nil => exact and_assoc.symm
  | cons x xs ih => simp only [List.cons_append, linked_cons, ih, and_assoc]

/-- The field forward is read of every cell but the last, the field back of every cell but the
first. -/
theorem linked_congr (ha : ∀ r ∈ a :: rs, after r = after' r)
    (hb : ∀ r ∈ rs ++ [b], before r = before' r) :
    Linked after before a rs b ↔ Linked after' before' a rs b := by
  induction rs generalizing a with
  | nil =>
    rw [linked_nil, linked_nil, ha a List.mem_cons_self, hb b (by simp)]
  | cons r rs ih =>
    rw [linked_cons, linked_cons, ha a List.mem_cons_self, hb r (by simp)]
    have ha' := fun r' hr' => ha r' (List.mem_cons_of_mem a hr')
    have hb' := fun r' hr' => hb r' (List.mem_cons_of_mem r hr')
    exact and_congr_right fun _ => and_congr_right fun _ => ih ha' hb'

/-- The first cell is the one after `a`. -/
theorem Linked.after_mem (h : Linked after before a rs b) : after a ∈ rs ++ [b] := by
  cases rs with
  | nil => simpa using h.1
  | cons r rs => simp [h.1]

/-- The last cell is the one before `b`. -/
theorem Linked.before_mem (h : Linked after before a rs b) : before b ∈ a :: rs := by
  induction rs generalizing a with
  | nil => simpa using h.2
  | cons r rs ih => exact List.mem_cons_of_mem a (ih h.2.2)

variable [DecidableEq ι]

/-- A new cell in front of `b`. -/
theorem Linked.push (h : Linked after before a rs b) (ha : (a :: rs).Nodup) (hb : b ∉ rs)
    (hr : r ∉ a :: rs) (hrb : r ≠ b) :
    Linked (update (update after r b) (before b) r) (update (update before r (before b)) b r)
      a (rs ++ [r]) b := by
  have hback : before b ≠ r := ne_of_mem_of_not_mem h.before_mem hr
  rw [linked_append_cons, linked_nil]
  refine ⟨?_, ?_, Function.update_self ..⟩
  · induction rs generalizing a with
    | nil =>
      have hab : before b = a := h.2
      rw [linked_nil, hab, Function.update_self, Function.update_of_ne hrb, Function.update_self]
      exact ⟨rfl, rfl⟩
    | cons x rs ih =>
      obtain ⟨hax, hxa, htail⟩ := h
      rw [List.nodup_cons] at ha
      simp only [List.mem_cons, not_or] at hb hr
      have hlast : a ≠ before b := fun he => ha.1 (he ▸ htail.before_mem)
      refine ⟨?_, ?_, ih htail ha.2 hb.2 (by simp [hr.2.1, hr.2.2])⟩
      · rw [Function.update_of_ne hlast, Function.update_of_ne (Ne.symm hr.1), hax]
      · rw [Function.update_of_ne (Ne.symm hb.1), Function.update_of_ne (Ne.symm hr.2.1), hxa]
  · rw [Function.update_of_ne (Ne.symm hback), Function.update_self]

/-- The neighbours of a cell linked to each other. -/
theorem Linked.unlink (h : Linked after before a (xs ++ r :: ys) b)
    (ha : (a :: (xs ++ r :: ys)).Nodup) (hb : b ∉ xs ++ r :: ys) :
    Linked (update after (before r) (after r)) (update before (after r) (before r))
      a (xs ++ ys) b := by
  induction xs generalizing a with
  | nil =>
    obtain ⟨-, hra, htail⟩ := h
    simp only [List.nil_append, List.nodup_cons, List.mem_cons, not_or] at ha hb
    rw [List.nil_append, hra]
    cases ys with
    | nil =>
      obtain ⟨hrb, -⟩ := htail
      rw [linked_nil, hrb, Function.update_self, Function.update_self]
      exact ⟨rfl, rfl⟩
    | cons y ys =>
      obtain ⟨hry, -, hys⟩ := htail
      rw [linked_cons, hry, Function.update_self, Function.update_self]
      refine ⟨rfl, rfl, (linked_congr (fun u hu => ?_) fun u hu => ?_).mp hys⟩
      · exact (Function.update_of_ne (ne_of_mem_of_not_mem hu (by simpa using ha.1.2)) ..).symm
      · have hne : u ≠ y := by
          rintro rfl
          rcases List.mem_append.mp hu with hu | hu
          · exact (List.nodup_cons.mp ha.2.2).1 hu
          · exact hb.2 (by simp_all)
        exact (Function.update_of_ne hne ..).symm
  | cons x xs ih =>
    obtain ⟨hax, hxa, htail⟩ := h
    rw [List.cons_append, List.nodup_cons] at ha
    simp only [List.cons_append, List.mem_cons, not_or] at hb
    obtain ⟨hl, hr⟩ := linked_append_cons.mp htail
    have hprev : a ≠ before r := fun he => ha.1 (he ▸ by
      have := hl.before_mem
      simp only [List.mem_cons, List.mem_append] at this ⊢
      tauto)
    have hnext : x ≠ after r := by
      intro he
      have hmem := hr.after_mem
      rw [← he] at hmem
      rcases List.mem_append.mp hmem with hmem | hmem
      · exact (List.nodup_cons.mp ha.2).1 (by simp [hmem])
      · exact hb.1 (List.mem_singleton.mp hmem).symm
    refine ⟨?_, ?_, ih htail ha.2 hb.2⟩
    · rw [Function.update_of_ne hprev, hax]
    · rw [Function.update_of_ne hnext, hxa]

end LinkedCells

/-! ## Rings -/

/-- A circular list: the cells from the head round to the head, no cell twice. -/
structure Ring (after before : ι → ι) (head : ι) (rs : List ι) : Prop where
  linked : Linked after before head rs head
  nodup : (head :: rs).Nodup

/-- The cells a loop along `after` passes on its way to `stop`; `none` when it is not there after
`fuel` cells. -/
def walk [DecidableEq ι] (after : ι → ι) (stop : ι) : Nat → ι → Option (List ι)
  | 0, e => if e = stop then some [] else none
  | fuel + 1, e =>
    if e = stop then some [] else (walk after stop fuel (after e)).map (e :: ·)

namespace Ring

variable {after before after' before' : ι → ι} {head r : ι} {rs xs ys : List ι}

/-- A head that refers to itself. -/
theorem nil (ha : after head = head) (hb : before head = head) : Ring after before head [] :=
  ⟨⟨ha, hb⟩, by simp⟩

/-- A ring reads the fields of its own cells only. -/
theorem congr (h : Ring after before head rs) (ha : ∀ r ∈ head :: rs, after r = after' r)
    (hb : ∀ r ∈ head :: rs, before r = before' r) : Ring after' before' head rs := by
  refine ⟨(linked_congr ha fun r hr => hb r ?_).mp h.linked, h.nodup⟩
  simpa [or_comm] using hr

theorem head_notMem (h : Ring after before head rs) : head ∉ rs := (List.nodup_cons.mp h.nodup).1

theorem nodup_tail (h : Ring after before head rs) : rs.Nodup := (List.nodup_cons.mp h.nodup).2

/-- The cell before a cell. -/
theorem before_mem (h : Ring after before head (xs ++ r :: ys)) : before r ∈ head :: xs :=
  (linked_append_cons.mp h.linked).1.before_mem

/-- The cell after a cell. -/
theorem after_mem (h : Ring after before head (xs ++ r :: ys)) : after r ∈ ys ++ [head] :=
  (linked_append_cons.mp h.linked).2.after_mem

variable [DecidableEq ι]

/-- **A new cell in front of the head**, which is the end of the list. -/
theorem push (h : Ring after before head rs) (hr : r ∉ head :: rs) :
    Ring (update (update after r head) (before head) r)
      (update (update before r (before head)) head r) head (rs ++ [r]) := by
  have hrh : r ≠ head := fun he => hr (by simp [he])
  refine ⟨h.linked.push h.nodup h.head_notMem hr hrh, ?_⟩
  rw [← List.cons_append, List.nodup_append]
  exact ⟨h.nodup, by simp, fun u hu v hv => by
    rw [List.mem_singleton.mp hv]
    exact ne_of_mem_of_not_mem hu hr⟩

/-- **The neighbours of a cell linked to each other**: the cell is out of the list. -/
theorem unlink (h : Ring after before head (xs ++ r :: ys)) :
    Ring (update after (before r) (after r)) (update before (after r) (before r))
      head (xs ++ ys) := by
  refine ⟨h.linked.unlink h.nodup h.head_notMem, h.nodup.sublist ?_⟩
  exact (List.Sublist.append_left (List.sublist_cons_self r ys) xs).cons_cons head

/-- **The loop round a ring** passes its cells in their order. -/
theorem walk_eq (h : Ring after before head rs) {fuel : Nat} (hfuel : rs.length ≤ fuel) :
    walk after head fuel (after head) = some rs := by
  have hwalk : ∀ (rs : List ι) (a : ι) (fuel : Nat), Linked after before a rs head → head ∉ rs →
      rs.length ≤ fuel → walk after head fuel (after a) = some rs := by
    intro rs
    induction rs with
    | nil =>
      intro a fuel hl _ _
      cases fuel <;> exact if_pos hl.1
    | cons r rs ih =>
      intro a fuel hl hnot hle
      have hne : ¬ after a = head := fun he => hnot (by rw [← he, hl.1]; exact List.mem_cons_self)
      obtain ⟨n, rfl⟩ : ∃ n, fuel = n + 1 := ⟨fuel - 1, by simp at hle; omega⟩
      have htail := ih r n hl.2.2 (fun hm => hnot (List.mem_cons_of_mem r hm)) (by simpa using hle)
      rw [walk, if_neg hne, hl.1]
      simp only [htail, Option.map_some]
  exact hwalk rs head fuel h.linked h.head_notMem hfuel

end Ring

/-! ## Objects on a heap -/

namespace Heap

variable {α β : Type} [Inhabited α]

/-- A field of the objects on a heap. -/
def field (p : α → β) (h : Heap α) : Ref → β := fun r => p (h.get r)

@[simp] theorem field_apply (p : α → β) (h : Heap α) (r : Ref) : h.field p r = p (h.get r) := rfl

/-- An object that is the same has the same fields. -/
theorem field_congr {h h' : Heap α} {r : Ref} (hr : h.get r = h'.get r) (p : α → β) :
    h.field p r = h'.field p r := congrArg p hr

theorem field_set_of_lt {h : Heap α} {r : Ref} (hr : r < h.size) (p : α → β) (a : α) :
    (h.set r a).field p = update (h.field p) r (p a) := by
  funext u
  by_cases hu : u = r
  · rw [hu, field_apply, get_set_self hr, Function.update_self]
  · rw [field_apply, get_set_ne (Ne.symm hu), Function.update_of_ne hu, field_apply]

/-- An assignment to another field. -/
theorem field_set_of_eq {h : Heap α} {r : Ref} {p : α → β} {a : α} (ha : p a = p (h.get r)) :
    (h.set r a).field p = h.field p := by
  funext u
  rcases get_set_or h r u a with hu | ⟨rfl, hu⟩
  · rw [field_apply, hu, field_apply]
  · rw [field_apply, hu, ha, field_apply]

end Heap

/-- Cells of a heap of `n` cells, each at most once: no more than `n` of them. -/
theorem length_le_of_nodup {n : Nat} {rs : List Nat} (h : rs.Nodup) (hlt : ∀ r ∈ rs, r < n) :
    rs.length ≤ n := by
  have hsub : rs ⊆ List.range n := fun r hr => List.mem_range.mpr (hlt r hr)
  simpa using (h.subperm hsub).length_le

end Terminator.Java
