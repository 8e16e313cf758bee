import Mathlib.Data.List.Infix
import Terminator.Java.Text

/-!
# What `String.replace` does to the rest of the string

`s.replace(target, replacement)` replaces every occurrence of the target, wherever it stands.

* `replace_at_front`, `replace_elsewhere`: the two steps of the scan;
* **`replace_append_cons`**: a unit that is not in the target cuts the string into two parts that
  are replaced on their own;
* **`replace_eq_self_iff`**: nothing is removed iff the target does not occur.
-/

namespace Terminator.Java

variable {target replacement : JString} {c : JChar} {s t : JString}

@[simp] theorem replace_nil (target replacement : JString) (skip : Nat) :
    replace target replacement skip [] = [] := by
  cases skip <;> rw [replace]

/-- What is left of the occurrence replaced last is passed over. -/
theorem replace_skip (target replacement : JString) (skip : Nat) (s : JString) :
    replace target replacement skip s = replace target replacement 0 (s.drop skip) := by
  induction skip generalizing s with
  | zero => rfl
  | succ skip ih =>
    cases s with
    | nil => rw [List.drop_nil, replace_nil, replace_nil]
    | cons c s => rw [replace, ih, List.drop_succ_cons]

theorem replace_at_front (htarget : target ≠ []) (h : target <+: s) :
    replace target replacement 0 s =
      replacement ++ replace target replacement 0 (s.drop target.length) := by
  cases s with
  | nil => exact absurd (List.prefix_nil.mp h) htarget
  | cons c s =>
    have hlength := Nat.sub_add_cancel (List.length_pos_iff.mpr htarget)
    rw [replace, if_pos (List.isPrefixOf_iff_prefix.mpr h), replace_skip, ← hlength,
      List.drop_succ_cons, Nat.add_sub_cancel]

theorem replace_elsewhere (h : ¬ target <+: c :: s) :
    replace target replacement 0 (c :: s) = c :: replace target replacement 0 s := by
  rw [replace, if_neg fun hprefix => h (List.isPrefixOf_iff_prefix.mp hprefix)]

/-- The string is the target alone. -/
theorem replace_self (htarget : target ≠ []) :
    replace target replacement 0 target = replacement := by
  rw [replace_at_front htarget List.prefix_rfl, List.drop_length, replace_nil, List.append_nil]

/-- An occurrence does not reach a unit the target does not have. -/
theorem prefix_append_cons_iff (hc : c ∉ target) : target <+: s ++ c :: t ↔ target <+: s := by
  constructor
  · intro h
    refine List.prefix_of_prefix_length_le h (List.prefix_append _ _) (Nat.not_lt.mp fun hlt => ?_)
    have hfront : s ++ [c] <+: s ++ c :: t := ⟨t, by simp⟩
    have hreach : s ++ [c] <+: target :=
      List.prefix_of_prefix_length_le hfront h (by rw [List.length_append]; exact hlt)
    exact hc (hreach.subset (by simp))
  · exact fun h => h.trans (List.prefix_append _ _)

/-- **Cut at a unit** that is not in the target. -/
theorem replace_append_cons (htarget : target ≠ []) (hc : c ∉ target) (s t : JString) :
    replace target replacement 0 (s ++ c :: t) =
      replace target replacement 0 s ++ c :: replace target replacement 0 t := by
  by_cases hprefix : target <+: s
  · have hpos := List.length_pos_iff.mpr htarget
    have hle := hprefix.length_le
    rw [replace_at_front htarget ((prefix_append_cons_iff hc).mpr hprefix),
      replace_at_front htarget hprefix, List.drop_append_of_le_length hle,
      replace_append_cons htarget hc, List.append_assoc]
  · have hno := mt (prefix_append_cons_iff (t := t) hc).mp hprefix
    cases s with
    | nil => exact replace_elsewhere hno
    | cons d s =>
      rw [List.cons_append] at hno ⊢
      rw [replace_elsewhere hprefix, replace_elsewhere hno,
        replace_append_cons htarget hc, List.cons_append]
termination_by s.length
decreasing_by
  all_goals
    simp only [List.length_drop, List.length_cons]
    omega

/-- Removing makes a string shorter, iff there is anything to remove. -/
theorem length_replace_nil (htarget : target ≠ []) (s : JString) :
    (replace target [] 0 s).length ≤ s.length ∧
      (target <:+: s → (replace target [] 0 s).length < s.length) := by
  by_cases hprefix : target <+: s
  · have hpos := List.length_pos_iff.mpr htarget
    have hle := hprefix.length_le
    have hrest := (length_replace_nil htarget (s.drop target.length)).1
    rw [replace_at_front htarget hprefix, List.nil_append]
    rw [List.length_drop] at hrest
    exact ⟨by omega, fun _ => by omega⟩
  · cases s with
    | nil => exact ⟨by simp, fun h => absurd (List.infix_nil.mp h) htarget⟩
    | cons c s =>
      obtain ⟨hle, hlt⟩ := length_replace_nil htarget s
      rw [replace_elsewhere hprefix, List.length_cons, List.length_cons]
      refine ⟨Nat.succ_le_succ hle, fun h => Nat.succ_lt_succ (hlt ?_)⟩
      exact (List.infix_cons_iff.mp h).resolve_left hprefix
termination_by s.length
decreasing_by
  all_goals
    simp only [List.length_drop, List.length_cons]
    omega

/-- **Nothing is removed** iff the target does not occur. -/
theorem replace_eq_self_iff (htarget : target ≠ []) :
    replace target [] 0 s = s ↔ ¬ target <:+: s := by
  constructor
  · intro h hinfix
    have hlt := (length_replace_nil htarget s).2 hinfix
    rw [h] at hlt
    exact Nat.lt_irrefl _ hlt
  · intro h
    induction s with
    | nil => rw [replace_nil]
    | cons c s ih =>
      rw [List.infix_cons_iff, not_or] at h
      rw [replace_elsewhere h.1, ih h.2]

end Terminator.Java
