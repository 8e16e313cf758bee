import Mathlib.Data.List.Basic

/-!
# Lists cut into blocks

A list that is worked on block by block: all blocks have the same size but the last one, which may
be shorter and is not empty (`Cut`).

* `exists_cut`: every list but the empty one is cut so;
* `Cut.length_flatten`: how long the list is, by the number of blocks;
* `Cut.front`: the block in front and what is behind it, by the length of the list.
-/

namespace Terminator.Java.Blocks

variable {α : Type}

/-- Blocks of size `n`, the last one of at most that size. -/
def Cut (n : Nat) : List (List α) → Prop
  | [] => False
  | [b] => b ≠ [] ∧ b.length ≤ n
  | b :: b' :: bs => b.length = n ∧ Cut n (b' :: bs)

variable {n : Nat} {b : List α} {bs : List (List α)}

theorem Cut.ne_nil (h : Cut n bs) : bs ≠ [] := by
  rintro rfl
  exact h

theorem cut_cons_iff (hbs : bs ≠ []) : Cut n (b :: bs) ↔ b.length = n ∧ Cut n bs := by
  cases bs with
  | nil => exact absurd rfl hbs
  | cons b' bs => exact Iff.rfl

theorem Cut.flatten_ne_nil (h : Cut n bs) : bs.flatten ≠ [] := by
  induction bs with
  | nil => exact absurd h id
  | cons b bs ih =>
    intro hnil
    rw [List.flatten_cons, List.append_eq_nil_iff] at hnil
    cases bs with
    | nil => exact h.1 hnil.1
    | cons b' bs => exact ih h.2 hnil.2

/-- **Every list is cut** into blocks, if there is anything to cut. -/
theorem exists_cut (hn : 0 < n) (l : List α) (hl : l ≠ []) : ∃ bs, Cut n bs ∧ bs.flatten = l := by
  by_cases hshort : l.length ≤ n
  · exact ⟨[l], ⟨hl, hshort⟩, by simp⟩
  · have hrest : l.drop n ≠ [] := by
      rw [← List.length_pos_iff, List.length_drop]
      omega
    obtain ⟨bs, hcut, hflat⟩ := exists_cut hn (l.drop n) hrest
    refine ⟨l.take n :: bs, (cut_cons_iff hcut.ne_nil).mpr ⟨?_, hcut⟩, ?_⟩
    · rw [List.length_take]
      omega
    · rw [List.flatten_cons, hflat, List.take_append_drop]
termination_by l.length
decreasing_by
  rw [List.length_drop]
  omega

/-- Blocks of one size are a cut. -/
theorem cut_of_forall (hn : 0 < n) (hbs : bs ≠ []) (h : ∀ b ∈ bs, b.length = n) : Cut n bs := by
  induction bs with
  | nil => exact absurd rfl hbs
  | cons b bs ih =>
    have hb := h b List.mem_cons_self
    cases bs with
    | nil => exact ⟨List.length_pos_iff.mp (hb ▸ hn), Nat.le_of_eq hb⟩
    | cons b' bs =>
      exact ⟨hb, ih (List.cons_ne_nil _ _) fun c hc => h c (List.mem_cons_of_mem _ hc)⟩

theorem Cut.length_le (h : Cut n bs) : ∀ b ∈ bs, b.length ≤ n := by
  induction bs with
  | nil => exact fun _ hb => absurd hb List.not_mem_nil
  | cons b bs ih =>
    cases bs with
    | nil =>
      rintro c hc
      rw [List.mem_singleton.mp hc]
      exact h.2
    | cons b' bs =>
      rintro c hc
      rcases List.mem_cons.mp hc with rfl | hc
      · exact Nat.le_of_eq h.1
      · exact ih h.2 c hc

/-- **The length** of what is cut: the last block has something, and no more than its size. -/
theorem Cut.length_flatten (h : Cut n bs) :
    n * bs.length < bs.flatten.length + n ∧ bs.flatten.length ≤ n * bs.length := by
  induction bs with
  | nil => exact absurd h id
  | cons b bs ih =>
    rw [List.flatten_cons, List.length_append, List.length_cons, Nat.mul_succ]
    cases bs with
    | nil =>
      have hb := List.length_pos_iff.mpr h.1
      have hle := h.2
      simp only [List.length_nil, List.flatten_nil]
      omega
    | cons b' bs =>
      have hb := h.1
      have hrest := ih h.2
      omega

/-- **The block in front** of a list that is longer than a block. -/
theorem Cut.front (h : Cut n (b :: bs)) : if n < (b :: bs).flatten.length then
      bs ≠ [] ∧ Cut n bs ∧ (b :: bs).flatten.take n = b ∧ (b :: bs).flatten.drop n = bs.flatten
    else bs = [] := by
  rw [List.flatten_cons]
  cases bs with
  | nil =>
    rw [List.flatten_nil, List.append_nil, if_neg (Nat.not_lt.mpr h.2)]
  | cons b' bs =>
    have hpos := List.length_pos_iff.mpr (Cut.flatten_ne_nil h.2)
    obtain ⟨rfl, hcut⟩ := h
    rw [if_pos (by rw [List.length_append]; omega)]
    exact ⟨List.cons_ne_nil _ _, hcut, List.take_left, List.drop_left⟩

end Terminator.Java.Blocks
