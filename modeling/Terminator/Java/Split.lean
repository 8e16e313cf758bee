import Mathlib.Data.List.DropRight
import Terminator.Java.Exec
import Terminator.Java.Text

/-!
# What `String.split` keeps

`split` cuts a string at every separator and drops the empty pieces at the end, so what stands at
an index of its result depends on what follows. Here that result is put in terms of the first
separator: `before` it, and `behind` it.

* **`load_split_zero`**, **`load_split_one`**: when the first and the second entry exist, and what
  they are;
* `split_of_ne_nil`: the entries are the pieces up to the last one that is not empty.
-/

namespace Terminator.Java

/-- `s` up to the first `sep`. -/
def before (sep : JChar) (s : JString) : JString := s.takeWhile (· != sep)

/-- `s` after the first `sep`; nothing when there is none. -/
def behind (sep : JChar) (s : JString) : JString := (s.dropWhile (· != sep)).drop 1

section Cut

variable {sep c : JChar} {s : JString}

@[simp] theorem before_nil : before sep [] = [] := rfl

@[simp] theorem behind_nil : behind sep [] = [] := rfl

@[simp] theorem before_cons_self : before sep (sep :: s) = [] := by simp [before]

@[simp] theorem behind_cons_self : behind sep (sep :: s) = s := by simp [behind]

@[simp] theorem before_cons_of_ne (h : c ≠ sep) : before sep (c :: s) = c :: before sep s := by
  simp [before, h]

@[simp] theorem behind_cons_of_ne (h : c ≠ sep) : behind sep (c :: s) = behind sep s := by
  simp [behind, h]

theorem not_mem_before : sep ∉ before sep s := by
  induction s with
  | nil => simp
  | cons c s ih =>
    by_cases hc : c = sep
    · simp [hc]
    · simp [hc, ih, Ne.symm hc]

theorem before_of_not_mem (h : sep ∉ s) : before sep s = s := by
  induction s with
  | nil => rfl
  | cons c s ih =>
    rw [List.mem_cons, not_or] at h
    rw [before_cons_of_ne (Ne.symm h.1), ih h.2]

theorem behind_of_not_mem (h : sep ∉ s) : behind sep s = [] := by
  induction s with
  | nil => rfl
  | cons c s ih =>
    rw [List.mem_cons, not_or] at h
    rw [behind_cons_of_ne (Ne.symm h.1), ih h.2]

/-- The two parts, put together again. -/
theorem before_append_behind (h : sep ∈ s) : before sep s ++ sep :: behind sep s = s := by
  induction s with
  | nil => simp at h
  | cons c s ih =>
    by_cases hc : c = sep
    · simp [hc]
    · rw [before_cons_of_ne hc, behind_cons_of_ne hc, List.cons_append,
        ih ((List.mem_cons.mp h).resolve_left (Ne.symm hc))]

theorem mem_of_mem_before (h : c ∈ before sep s) : c ∈ s :=
  (List.takeWhile_prefix _).subset h

theorem mem_of_mem_behind (h : c ∈ behind sep s) : c ∈ s :=
  (List.dropWhile_suffix _).subset ((List.drop_suffix _ _).subset h)

/-- Where the part before the first separator is everything, there is none. -/
theorem not_mem_of_before_eq (h : before sep s = s) : sep ∉ s := h ▸ not_mem_before

end Cut

/-! ## The pieces -/

section Pieces

variable {sep : JChar}

theorem pieces_eq_splitOn (s : JString) : pieces sep s = s.splitOn sep := by
  induction s with
  | nil => rfl
  | cons c s ih =>
    rw [pieces, ih, List.splitOn_cons_eq_if_modifyHead]
    by_cases hc : c = sep
    · simp [hc]
    · rw [if_neg hc, if_neg (by simpa using hc)]
      cases h : s.splitOn sep with
      | nil => exact absurd h (List.splitOn_ne_nil _ _)
      | cons p ps => rfl

/-- The first piece, and those behind the first separator. -/
theorem splitOn_eq_cons (s : JString) :
    s.splitOn sep = before sep s :: if sep ∈ s then (behind sep s).splitOn sep else [] := by
  by_cases h : sep ∈ s
  · rw [if_pos h]
    conv_lhs => rw [← before_append_behind h]
    exact List.splitOn_append_cons_self_of_not_mem not_mem_before _
  · rw [if_neg h, before_of_not_mem h, List.splitOn_eq_singleton h]

/-- The pieces hold the units that are not separators. -/
theorem flatten_splitOn (s : JString) : (s.splitOn sep).flatten = s.filter (· != sep) := by
  induction s with
  | nil => rfl
  | cons c s ih =>
    rw [List.splitOn_cons_eq_if_modifyHead]
    by_cases hc : c = sep
    · simp [hc, ih]
    · cases h : s.splitOn sep with
      | nil => exact absurd h (List.splitOn_ne_nil _ _)
      | cons p ps => simp [hc, ← ih, h]

theorem exists_mem_splitOn_iff {s : JString} {c : JChar} :
    (∃ p ∈ s.splitOn sep, c ∈ p) ↔ c ∈ s ∧ c ≠ sep := by
  rw [← List.mem_flatten, flatten_splitOn, List.mem_filter, bne_iff_ne]

/-- Nothing but separators leaves nothing but empty pieces. -/
theorem forall_isEmpty_splitOn_iff (s : JString) :
    (∀ p ∈ s.splitOn sep, p.isEmpty = true) ↔ ∀ c ∈ s, c = sep := by
  simp only [List.isEmpty_iff, ← List.flatten_eq_nil_iff, flatten_splitOn, List.filter_eq_nil_iff,
    bne_iff_ne, not_not]

theorem split_nil : split sep [] = [[]] := rfl

/-- The pieces of a string up to the last one that is not empty. -/
theorem split_of_ne_nil {s : JString} (h : s ≠ []) :
    split sep s = (s.splitOn sep).rdropWhile List.isEmpty := by
  by_cases hsep : sep ∈ s
  · rw [split, if_pos hsep, pieces_eq_splitOn]
    rfl
  · rw [split, if_neg hsep, List.splitOn_eq_singleton hsep, List.rdropWhile_singleton]
    simp [h]

theorem mem_of_mem_split {s p : JString} {c : JChar} (hp : p ∈ split sep s) (hc : c ∈ p) :
    c ∈ s := by
  by_cases hs : s = []
  · subst hs
    rw [split_nil, List.mem_singleton] at hp
    exact hp ▸ hc
  · rw [split_of_ne_nil hs] at hp
    exact (exists_mem_splitOn_iff.mp ⟨p, (List.rdropWhile_prefix _ _).subset hp, hc⟩).1

/-- Dropping from the end takes the first one last. -/
theorem rdropWhile_cons {α : Type} (p : α → Bool) (a : α) (l : List α) :
    (a :: l).rdropWhile p =
      if l.rdropWhile p = [] then (if p a then [] else [a]) else a :: l.rdropWhile p := by
  simp only [List.rdropWhile, List.reverse_cons, List.dropWhile_append, List.isEmpty_iff,
    List.reverse_eq_nil_iff]
  by_cases h : l.reverse.dropWhile p = []
  · rw [if_pos h, if_pos h]
    by_cases ha : p a = true <;> simp [ha]
  · rw [if_neg h, if_neg h, List.reverse_append]
    rfl

/-- What `split` returns, from the first piece and what is left of the others. -/
theorem split_eq_of_ne_nil {s : JString} (h : s ≠ []) :
    split sep s =
      if ∃ c ∈ behind sep s, c ≠ sep then before sep s :: split sep (behind sep s)
      else if before sep s = [] then [] else [before sep s] := by
  have hiff : (∃ c ∈ behind sep s, c ≠ sep) ↔
      ((behind sep s).splitOn sep).rdropWhile List.isEmpty ≠ [] := by
    rw [Ne, List.rdropWhile_eq_nil_iff, forall_isEmpty_splitOn_iff]
    push Not
    rfl
  rw [split_of_ne_nil h, splitOn_eq_cons s, rdropWhile_cons]
  by_cases hsep : sep ∈ s
  · rw [if_pos hsep]
    by_cases hrest : ∃ c ∈ behind sep s, c ≠ sep
    · have hne : behind sep s ≠ [] := by
        rintro hnil
        simp [hnil] at hrest
      rw [if_pos hrest, if_neg (hiff.mp hrest), split_of_ne_nil hne]
    · rw [if_neg hrest, if_pos (not_not.mp (hiff.not.mp hrest))]
      simp only [List.isEmpty_iff]
  · rw [if_neg hsep, behind_of_not_mem hsep]
    simp

/-- Nothing stands before the first separator of a string of separators, and something behind
none of them only when the string holds something else. -/
theorem exists_ne_iff_of_ne_nil {s : JString} (h : s ≠ []) :
    (∃ c ∈ s, c ≠ sep) ↔ before sep s ≠ [] ∨ ∃ c ∈ behind sep s, c ≠ sep := by
  by_cases hsep : sep ∈ s
  · conv_lhs => rw [← before_append_behind hsep]
    constructor
    · rintro ⟨c, hc, hne⟩
      rcases List.mem_append.mp hc with hc | hc
      · exact .inl (List.ne_nil_of_mem hc)
      · exact .inr ⟨c, (List.mem_cons.mp hc).resolve_left hne, hne⟩
    · rintro (hbefore | ⟨c, hc, hne⟩)
      · obtain ⟨c, hc⟩ := List.exists_mem_of_ne_nil _ hbefore
        exact ⟨c, List.mem_append_left _ hc, fun heq => not_mem_before (heq ▸ hc)⟩
      · exact ⟨c, List.mem_append_right _ (List.mem_cons_of_mem _ hc), hne⟩
  · obtain ⟨c, hc⟩ := List.exists_mem_of_ne_nil _ h
    rw [before_of_not_mem hsep]
    exact ⟨fun _ => .inl h, fun _ => ⟨c, hc, fun heq => hsep (heq ▸ hc)⟩⟩

/-- **The first entry** is what stands before the first separator; there is none when the string
is nothing but separators. -/
theorem load_split_zero {s p : JString} :
    load (split sep s) 0 = .ok p ↔ p = before sep s ∧ (s = [] ∨ ∃ c ∈ s, c ≠ sep) := by
  rw [load_eq_ok_iff]
  by_cases hs : s = []
  · subst hs
    simp [split_nil, eq_comm]
  · rw [split_eq_of_ne_nil hs, exists_ne_iff_of_ne_nil hs]
    by_cases hrest : ∃ c ∈ behind sep s, c ≠ sep
    · rw [if_pos hrest, List.getElem?_cons_zero, Option.some.injEq]
      exact ⟨fun h => ⟨h.symm, .inr (.inr hrest)⟩, fun h => h.1.symm⟩
    · rw [if_neg hrest]
      by_cases hbefore : before sep s = []
      · rw [if_pos hbefore]
        simp only [hs, hbefore, hrest, List.getElem?_nil]
        simp
      · rw [if_neg hbefore, List.getElem?_cons_zero, Option.some.injEq]
        exact ⟨fun h => ⟨h.symm, .inr (.inl hbefore)⟩, fun h => h.1.symm⟩

/-- **The second entry** is what stands between the first two separators; there is one iff some
other unit follows the first separator. -/
theorem load_split_one {s p : JString} :
    load (split sep s) 1 = .ok p ↔
      p = before sep (behind sep s) ∧ ∃ c ∈ behind sep s, c ≠ sep := by
  by_cases hs : s = []
  · subst hs
    simp [split_nil, load]
  · rw [split_eq_of_ne_nil hs]
    by_cases hrest : ∃ c ∈ behind sep s, c ≠ sep
    · have hzero : load (before sep s :: split sep (behind sep s)) 1 =
          load (split sep (behind sep s)) 0 := rfl
      rw [if_pos hrest, hzero, load_split_zero]
      exact and_congr_right fun _ => ⟨fun _ => hrest, .inr⟩
    · rw [if_neg hrest]
      constructor
      · intro h
        rw [load_eq_ok_iff] at h
        split_ifs at h <;> simp at h
      · exact fun h => absurd h.2 hrest

/-- There are two entries iff there is a second one. -/
theorem two_le_length_split_iff {s : JString} :
    (split sep s).length ≥ 2 ↔ ∃ c ∈ behind sep s, c ≠ sep := by
  have hload : (split sep s).length ≥ 2 ↔ ∃ p, load (split sep s) 1 = .ok p := by
    simp only [load_eq_ok_iff, ← Option.isSome_iff_exists, isSome_getElem?]
    exact Iff.rfl
  rw [hload]
  exact ⟨fun ⟨p, hp⟩ => (load_split_one.mp hp).2, fun h => ⟨_, load_split_one.mpr ⟨rfl, h⟩⟩⟩

end Pieces

end Terminator.Java
