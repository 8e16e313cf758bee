import Mathlib.Data.List.Dedup
import Mathlib.Data.List.Induction

/-!
# Least recently used

A store of at most `n` keys that lets the oldest ones go, over any type of keys. The keys are listed
by their last use, the newest one at the end.

* `touch`: a key is used;
* **`foldl_touch`**: after any uses the store has the last `n` of the different keys;
* `foldl_touch_of_length_le`: all of them, if there are no more;
* `notMem_foldl_touch`: `n` other keys drive a key out.
-/

namespace Terminator.Cache.Lru

variable {κ : Type} [DecidableEq κ]

/-- A key is used: it is the newest then, and if it was not there the oldest ones go until at most
`n` are left. -/
def touch (n : Nat) (keys : List κ) (key : κ) : List κ :=
  if key ∈ keys then keys.erase key ++ [key] else (keys ++ [key]).drop (keys.length + 1 - n)

theorem touch_of_mem (n : Nat) {keys : List κ} {key : κ} (hnodup : keys.Nodup) (h : key ∈ keys) :
    touch n keys key = (keys.filter fun k => decide (k ≠ key)) ++ [key] := by
  rw [touch, if_pos h, hnodup.erase_eq_filter]
  congr 1
  refine List.filter_congr fun k _ => ?_
  rw [bne, beq_eq_decide, decide_not]

theorem touch_of_notMem (n : Nat) {keys : List κ} {key : κ} (h : key ∉ keys) :
    touch n keys key = (keys ++ [key]).drop (keys.length + 1 - n) := if_neg h

/-- The last `n` elements. -/
def newest (n : Nat) (keys : List κ) : List κ := keys.drop (keys.length - n)

omit [DecidableEq κ] in
theorem newest_of_length_le {n : Nat} {keys : List κ} (h : keys.length ≤ n) :
    newest n keys = keys := by
  rw [newest, Nat.sub_eq_zero_of_le h, List.drop_zero]

/-- The different keys by their last use, after one use more. -/
theorem dedup_concat (keys : List κ) (key : κ) :
    (keys ++ [key]).dedup = keys.dedup.erase key ++ [key] := by
  induction keys with
  | nil => rfl
  | cons k keys ih =>
    by_cases hmem : k ∈ keys
    · rw [List.cons_append, List.dedup_cons_of_mem (List.mem_append_left _ hmem),
        List.dedup_cons_of_mem hmem, ih]
    by_cases hkey : k = key
    · subst hkey
      have hno : k ∉ keys.dedup := mt List.mem_dedup.mp hmem
      rw [List.cons_append, List.dedup_cons_of_mem (List.mem_append_right _ List.mem_cons_self), ih,
        List.dedup_cons_of_notMem hmem, List.erase_cons_head, List.erase_of_not_mem hno]
    · have hno : k ∉ keys ++ [key] := by simp [hmem, hkey]
      rw [List.cons_append, List.dedup_cons_of_notMem hno, List.dedup_cons_of_notMem hmem, ih,
        List.erase_cons_tail (by simpa using hkey)]
      rfl

omit [DecidableEq κ] in
/-- What is older does not matter where there are `n` newer ones. -/
theorem newest_append {n : Nat} {older keys : List κ} (h : older = [] ∨ n ≤ keys.length) :
    newest n (older ++ keys) = newest n keys := by
  rcases h with rfl | h
  · rfl
  have hall : older.drop ((older ++ keys).length - n) = [] := by
    refine List.drop_eq_nil_of_le ?_
    rw [List.length_append]
    omega
  rw [newest, newest, List.drop_append, hall, List.nil_append]
  congr 1
  rw [List.length_append]
  omega

omit [DecidableEq κ] in
/-- There are older keys only where there are `n` newer ones. -/
theorem exists_older (n : Nat) (keys : List κ) : ∃ older, keys = older ++ newest n keys ∧
    (older = [] ∨ n ≤ (newest n keys).length) ∧ (newest n keys).length ≤ n := by
  have hlength : (newest n keys).length = keys.length - (keys.length - n) := List.length_drop
  refine ⟨keys.take (keys.length - n), (List.take_append_drop _ _).symm, ?_, by omega⟩
  by_cases hle : keys.length ≤ n
  · rw [Nat.sub_eq_zero_of_le hle]
    exact .inl rfl
  · exact .inr (by omega)

/-- **One use**: the last `n` keys stay the last `n`. -/
theorem touch_newest (n : Nat) {keys : List κ} (hnodup : keys.Nodup) (key : κ) :
    touch n (newest n keys) key = newest n (keys.erase key ++ [key]) := by
  obtain ⟨older, hsplit, holder, hle⟩ := exists_older n keys
  generalize newest n keys = new at *
  subst hsplit
  unfold touch
  by_cases hmem : key ∈ new
  · -- it is one of the last `n`, which stay the same but for their order
    have hold : key ∉ older := fun h => List.disjoint_of_nodup_append hnodup h hmem
    have hlength : (new.erase key ++ [key]).length = new.length := by
      have hpos := List.length_pos_of_mem hmem
      rw [List.length_append, List.length_erase_of_mem hmem, List.length_singleton]
      omega
    rw [if_pos hmem, List.erase_append_right _ hold, List.append_assoc,
      newest_append (hlength.symm ▸ holder), newest_of_length_le (hlength.symm ▸ hle)]
  · -- it drives the oldest one out, if there are `n`
    have herase : (older ++ new).erase key = older.erase key ++ new := by
      by_cases hold : key ∈ older
      · exact List.erase_append_left _ hold
      · rw [List.erase_of_not_mem hold, List.erase_of_not_mem]
        exact fun h => (List.mem_append.mp h).elim hold hmem
    have holder' : older.erase key = [] ∨ n ≤ (new ++ [key]).length := by
      rw [List.length_append, List.length_singleton]
      exact holder.imp (fun h => by rw [h]; rfl) Nat.le_succ_of_le
    rw [if_neg hmem, herase, List.append_assoc, newest_append holder', newest, List.length_append,
      List.length_singleton]

/-- **The last `n` of the different keys** are there after any uses. -/
theorem foldl_touch (n : Nat) (keys : List κ) :
    keys.foldl (touch n) [] = newest n keys.dedup := by
  induction keys using List.reverseRecOn with
  | nil => simp [newest]
  | append_singleton keys key ih =>
    rw [List.foldl_concat, ih, touch_newest n (List.nodup_dedup keys), dedup_concat]

/-- As long as there are at most `n`, none has gone. -/
theorem mem_foldl_touch_of_length_le {n : Nat} {keys : List κ} (h : keys.dedup.length ≤ n)
    {key : κ} (hkey : key ∈ keys) : key ∈ keys.foldl (touch n) [] := by
  rw [foldl_touch, newest_of_length_le h]
  exact List.mem_dedup.mpr hkey

/-- **`n` other keys** drive a key out. -/
theorem notMem_foldl_touch {n : Nat} {key : κ} {keys : List κ} (hnodup : (key :: keys).Nodup)
    (hlength : keys.length = n) : key ∉ (key :: keys).foldl (touch n) [] := by
  have hdrop : (key :: keys).length - n = 1 := by
    rw [List.length_cons]
    omega
  rw [foldl_touch, hnodup.dedup, newest, hdrop, List.drop_one, List.tail_cons]
  exact (List.nodup_cons.mp hnodup).1

theorem nodup_foldl_touch (n : Nat) (keys : List κ) : (keys.foldl (touch n) []).Nodup := by
  rw [foldl_touch]
  exact (List.nodup_dedup keys).sublist (List.drop_sublist _ _)

end Terminator.Cache.Lru
