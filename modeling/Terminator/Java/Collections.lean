import Mathlib.Data.List.Nodup
import Mathlib.Logic.Function.Basic

/-!
# Maps and sets of keys

`HashMap` and `LinkedHashSet`, over any keys: both list their keys without repetition, in the order
they came.

The order in which a `HashMap` is walked is not part of its contract: `Walk` is any such order.

* `isSome_get_putAll_iff`, `mem_addWhere_iff`: what a loop leaves in a map or in a set.
-/

namespace Terminator.Java

variable {κ ν : Type}

/-- `HashMap`: what `get` returns, `none` for `null`, and the keys that have a value. -/
structure HashMap (κ ν : Type) where
  keys : List κ
  get : κ → Option ν
  nodup : keys.Nodup
  mem_keys_iff : ∀ k, k ∈ keys ↔ (get k).isSome

/-- `LinkedHashSet`. -/
structure LinkedHashSet (κ : Type) where
  toList : List κ
  nodup : toList.Nodup

instance : Membership κ (LinkedHashSet κ) := ⟨fun s k => k ∈ s.toList⟩

/-- An order to walk a map in. -/
structure Walk (κ : Type) where
  keySet : List κ → List κ
  perm : ∀ keys, (keySet keys).Perm keys

/-- However a map is walked, its keys are met. -/
theorem Walk.mem_keySet_iff (walk : Walk κ) (m : HashMap κ ν) (k : κ) :
    k ∈ walk.keySet m.keys ↔ (m.get k).isSome :=
  ((walk.perm m.keys).mem_iff).trans (m.mem_keys_iff k)

/-- `new HashMap()`. -/
def HashMap.empty : HashMap κ ν where
  keys := []
  get _ := none
  nodup := List.nodup_nil
  mem_keys_iff k := by simp

/-- `new LinkedHashSet()`. -/
def LinkedHashSet.empty : LinkedHashSet κ := ⟨[], List.nodup_nil⟩

@[simp] theorem HashMap.get_empty (k : κ) : (HashMap.empty : HashMap κ ν).get k = none := rfl

@[simp] theorem LinkedHashSet.not_mem_empty (k : κ) :
    ¬ k ∈ (LinkedHashSet.empty : LinkedHashSet κ) := List.not_mem_nil

variable [DecidableEq κ]

/-- A key at the end of the others, unless it is one of them. -/
def withKey (keys : List κ) (k : κ) : List κ := if k ∈ keys then keys else keys ++ [k]

@[simp] theorem mem_withKey_iff {keys : List κ} {k k' : κ} :
    k' ∈ withKey keys k ↔ k' ∈ keys ∨ k' = k := by
  unfold withKey
  split_ifs with h
  · exact ⟨Or.inl, fun hk' => hk'.elim id (fun heq => heq ▸ h)⟩
  · simp

theorem nodup_withKey {keys : List κ} (h : keys.Nodup) (k : κ) : (withKey keys k).Nodup := by
  unfold withKey
  split_ifs with hk
  · exact h
  · exact List.nodup_append.mpr ⟨h, List.nodup_singleton k, fun a ha b hb heq =>
      hk (List.mem_singleton.mp hb ▸ heq ▸ ha)⟩

namespace HashMap

/-- `put`: a value replaces the one its key has. -/
def put (m : HashMap κ ν) (k : κ) (v : ν) : HashMap κ ν where
  keys := withKey m.keys k
  get := Function.update m.get k (some v)
  nodup := nodup_withKey m.nodup k
  mem_keys_iff k' := by
    rw [mem_withKey_iff, m.mem_keys_iff]
    by_cases hk : k' = k
    · simp [hk]
    · simp [hk]

/-- A loop that puts each value under its key. -/
def putAll (m : HashMap κ ν) (entries : List (κ × ν)) : HashMap κ ν :=
  entries.foldl (fun m e => m.put e.1 e.2) m

theorem isSome_get_put_iff (m : HashMap κ ν) (k k' : κ) (v : ν) :
    ((m.put k v).get k').isSome ↔ (m.get k').isSome ∨ k = k' := by
  by_cases hk : k' = k
  · simp [put, hk]
  · simp [put, hk, Ne.symm hk]

/-- **After the loop** a key has a value if it had one, or if an entry stands under it. -/
theorem isSome_get_putAll_iff (m : HashMap κ ν) (entries : List (κ × ν)) (k : κ) :
    ((m.putAll entries).get k).isSome ↔ (m.get k).isSome ∨ ∃ e ∈ entries, e.1 = k := by
  induction entries generalizing m with
  | nil => simp [putAll]
  | cons e entries ih =>
    have hrest := ih (m.put e.1 e.2)
    rw [isSome_get_put_iff, or_assoc] at hrest
    simpa [putAll] using hrest

end HashMap

namespace LinkedHashSet

/-- `add`: an element that is there keeps its place. -/
def add (s : LinkedHashSet κ) (k : κ) : LinkedHashSet κ :=
  ⟨withKey s.toList k, nodup_withKey s.nodup k⟩

@[simp] theorem mem_add_iff (s : LinkedHashSet κ) (k k' : κ) : k' ∈ s.add k ↔ k' ∈ s ∨ k' = k :=
  mem_withKey_iff

/-- A loop that adds the keys that pass a test. -/
def addWhere (s : LinkedHashSet κ) (test : κ → Bool) (keys : List κ) : LinkedHashSet κ :=
  keys.foldl (fun s k => if test k then s.add k else s) s

/-- **After the loop** the set has what it had, and the keys that passed. -/
theorem mem_addWhere_iff (s : LinkedHashSet κ) (test : κ → Bool) (keys : List κ) (k : κ) :
    k ∈ s.addWhere test keys ↔ k ∈ s ∨ k ∈ keys ∧ test k := by
  induction keys generalizing s with
  | nil => simp [addWhere]
  | cons key keys ih =>
    have hrest := ih (if test key then s.add key else s)
    by_cases hkey : test key
    · rw [if_pos hkey, mem_add_iff, or_assoc] at hrest
      rw [addWhere, List.foldl_cons, if_pos hkey]
      refine hrest.trans (or_congr_right ?_)
      constructor
      · rintro (rfl | ⟨hmem, htest⟩)
        · exact ⟨List.mem_cons_self, hkey⟩
        · exact ⟨List.mem_cons_of_mem _ hmem, htest⟩
      · rintro ⟨hmem, htest⟩
        exact (List.mem_cons.mp hmem).imp_right fun hmem => ⟨hmem, htest⟩
    · rw [if_neg hkey] at hrest
      rw [addWhere, List.foldl_cons, if_neg hkey]
      refine hrest.trans (or_congr_right (and_congr_left fun htest => ?_))
      have hne : k ≠ key := fun heq => hkey (heq ▸ htest)
      simp [hne]

end LinkedHashSet

end Terminator.Java
