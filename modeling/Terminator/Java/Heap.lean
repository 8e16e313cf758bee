import Mathlib.Data.List.Basic

/-!
# A heap of mutable objects

Java objects that are shared and mutated are reached through references. A heap lists the
objects allocated so far; a reference is an index, allocation appends, and nothing is ever
freed. Reading a reference that was never allocated gives the default object.

The frame lemmas (`get_alloc_of_lt`, `get_set_ne`) say that an object is changed only through
its own reference.
-/

namespace Terminator.Java

/-- A reference to an object on the heap. -/
abbrev Ref := Nat

/-- The objects allocated so far. -/
structure Heap (α : Type) where
  cells : List α

namespace Heap

variable {α : Type}

/-- The number of objects allocated so far; references below it are allocated. -/
def size (h : Heap α) : Nat := h.cells.length

/-- The object behind a reference. -/
def get [Inhabited α] (h : Heap α) (r : Ref) : α := h.cells.getD r default

/-- Overwrite the object behind a reference. -/
def set (h : Heap α) (r : Ref) (a : α) : Heap α := ⟨h.cells.set r a⟩

/-- `new`: a reference to a fresh object. -/
def alloc (h : Heap α) (a : α) : Ref × Heap α := (h.size, ⟨h.cells ++ [a]⟩)

@[simp] theorem size_alloc (h : Heap α) (a : α) : (h.alloc a).2.size = h.size + 1 := by
  simp [alloc, size]

@[simp] theorem size_set (h : Heap α) (r : Ref) (a : α) : (h.set r a).size = h.size := by
  simp [set, size]

theorem lt_size_alloc {h : Heap α} {r : Ref} (hr : r < h.size) (a : α) :
    r < (h.alloc a).2.size := by
  rw [size_alloc]
  exact Nat.lt_succ_of_lt hr

theorem size_lt_size_alloc (h : Heap α) (a : α) : h.size < (h.alloc a).2.size := by
  rw [size_alloc]
  exact Nat.lt_succ_self _

/-- Assigning to a fresh object gives the object as it is afterwards. -/
@[simp] theorem set_alloc (h : Heap α) (a b : α) : (h.alloc a).2.set h.size b = (h.alloc b).2 := by
  simp [alloc, set, size]

variable [Inhabited α]

@[simp] theorem get_alloc_self (h : Heap α) (a : α) : (h.alloc a).2.get h.size = a := by
  simp [alloc, get, size, List.getD]

/-- Allocation leaves the objects allocated before it alone. -/
theorem get_alloc_of_lt {h : Heap α} {r : Ref} (hr : r < h.size) (a : α) :
    (h.alloc a).2.get r = h.get r := by
  unfold alloc get List.getD
  rw [List.getElem?_append_left hr]

theorem get_set_self {h : Heap α} {r : Ref} (hr : r < h.size) (a : α) : (h.set r a).get r = a := by
  unfold set get List.getD
  rw [List.getElem?_set_self hr, Option.getD_some]

/-- An assignment through one reference leaves every other object alone. -/
theorem get_set_ne {h : Heap α} {r r' : Ref} (hne : r ≠ r') (a : α) :
    (h.set r a).get r' = h.get r' := by
  unfold set get List.getD
  rw [List.getElem?_set_ne hne]

/-- A reference that was never allocated. -/
theorem get_of_size_le {h : Heap α} {r : Ref} (hr : h.size ≤ r) : h.get r = default := by
  unfold get List.getD
  rw [List.getElem?_eq_none hr, Option.getD_none]

/-- What an assignment leaves behind any reference: what was there, or what was assigned. -/
theorem get_set_or (h : Heap α) (r r' : Ref) (a : α) :
    (h.set r a).get r' = h.get r' ∨ (r = r' ∧ (h.set r a).get r' = a) := by
  by_cases hr : r = r'
  · subst hr
    by_cases hlt : r < h.size
    · exact .inr ⟨rfl, get_set_self hlt a⟩
    · have hle := Nat.le_of_not_lt hlt
      rw [get_of_size_le hle, get_of_size_le (by rw [size_set]; exact hle)]
      exact .inl rfl
  · exact .inl (get_set_ne hr a)

/-- Writing back what a reference holds changes nothing. -/
theorem set_get (h : Heap α) (r : Ref) : h.set r (h.get r) = h := by
  obtain ⟨cells⟩ := h
  unfold set get List.getD
  congr 1
  by_cases hr : r < cells.length
  · rw [List.getElem?_eq_getElem hr, Option.getD_some, List.set_getElem_self]
  · exact List.set_eq_of_length_le (Nat.le_of_not_lt hr)

end Heap

end Terminator.Java
