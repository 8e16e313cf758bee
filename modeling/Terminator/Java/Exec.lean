import Mathlib.Data.List.Basic

/-!
# Java methods: state that survives an exception

A method that may throw is an `EStateM` computation: a `throw` skips the rest of the method but
keeps every assignment made before it, as in Java. `Method σ α` fixes the exceptions to
`Throwable`.

* `run_bind_of_ok`, `run_bind_of_error`: a method whose first statement is known to return
  (to throw);
* `run_bind_eq_ok_iff`: a sequence returns iff each of its statements does (the inversion rule);
* `Keeps`: a part of the state no statement of a method changes, however the method ends;
* `zoom`: a method of a component, run in the state that contains the component;
* `load`, `store`: a checked array access.
-/

namespace Terminator.Java

/-- The exceptions the modelled code raises, catches or lets pass. -/
inductive Throwable where
  | nullPointer
  | classCast
  | indexOutOfBounds
  | unsupportedOperation
  | illegalArgument
  | io
  | json
  | document
  | signerInitialization
  | linkStatus
  | channel
  | illegalState
  | dataAccess
  deriving DecidableEq, Repr

/-- A method over the state `σ`. -/
abbrev Method (σ α : Type) := EStateM Throwable σ α

/-- The state a method leaves behind, however it ends. -/
def after {ε σ α : Type} : EStateM.Result ε σ α → σ
  | .ok _ s => s
  | .error _ s => s

/-- The method returned normally. -/
def Returned {ε σ α : Type} : EStateM.Result ε σ α → Prop
  | .ok _ _ => True
  | .error _ _ => False

instance {ε σ α : Type} : DecidablePred (@Returned ε σ α)
  | .ok _ _ => isTrue trivial
  | .error _ _ => isFalse id

section Rules

variable {ε σ τ α β : Type}

@[simp] theorem after_ok (a : α) (s : σ) : after (.ok a s : EStateM.Result ε σ α) = s := rfl

@[simp] theorem after_error (e : ε) (s : σ) :
    after (.error e s : EStateM.Result ε σ α) = s := rfl

@[simp] theorem returned_ok (a : α) (s : σ) : Returned (.ok a s : EStateM.Result ε σ α) := trivial

@[simp] theorem not_returned_error (e : ε) (s : σ) :
    ¬ Returned (.error e s : EStateM.Result ε σ α) := id

theorem returned_iff {r : EStateM.Result ε σ α} : Returned r ↔ ∃ a s, r = .ok a s := by
  cases r with
  | ok a s => exact ⟨fun _ => ⟨a, s, rfl⟩, fun _ => trivial⟩
  | error e s => exact ⟨fun h => absurd h id, fun ⟨_, _, h⟩ => by cases h⟩

theorem run_bind_of_ok {x : EStateM ε σ α} {f : α → EStateM ε σ β} {s s' : σ} {a : α}
    (h : x.run s = .ok a s') : (x >>= f).run s = (f a).run s' := by
  rw [EStateM.run_bind, h]

theorem run_bind_of_error {x : EStateM ε σ α} {f : α → EStateM ε σ β} {s s' : σ} {e : ε}
    (h : x.run s = .error e s') : (x >>= f).run s = .error e s' := by
  rw [EStateM.run_bind, h]

/-- Reading the state. -/
theorem run_get_bind (f : σ → EStateM ε σ β) (s : σ) : (get >>= f).run s = (f s).run s := rfl

/-- **Inversion**: a sequence that returned went through a state its first statement left. -/
theorem run_bind_eq_ok_iff {x : EStateM ε σ α} {f : α → EStateM ε σ β} {s s'' : σ} {b : β} :
    (x >>= f).run s = .ok b s'' ↔ ∃ a s', x.run s = .ok a s' ∧ (f a).run s' = .ok b s'' := by
  rw [EStateM.run_bind]
  cases h : x.run s with
  | ok a s' => simp
  | error e s' => simp

/-- A sequence returns iff its first statement does and the rest does from there. -/
theorem returned_bind_iff {x : EStateM ε σ α} {f : α → EStateM ε σ β} {s : σ} :
    Returned ((x >>= f).run s) ↔
      ∃ a s', x.run s = .ok a s' ∧ Returned ((f a).run s') := by
  rw [EStateM.run_bind]
  cases h : x.run s with
  | ok a s' => simp
  | error e s' => simp

/-- What never throws does not decide whether a sequence returns. -/
theorem returned_bind_iff_of_total {x : EStateM ε σ α} {f : α → EStateM ε σ β} {s : σ}
    (hf : ∀ a s, Returned ((f a).run s)) : Returned ((x >>= f).run s) ↔ Returned (x.run s) := by
  rw [returned_bind_iff, returned_iff]
  exact ⟨fun ⟨a, s', h, _⟩ => ⟨a, s', h⟩, fun ⟨a, s', h⟩ => ⟨a, s', h, hf a s'⟩⟩

/-- A computation without state, as a method. -/
def fromExcept : Except ε α → EStateM ε σ α
  | .ok a => pure a
  | .error e => throw e

@[simp] theorem run_fromExcept_ok (a : α) (s : σ) :
    (fromExcept (.ok a) : EStateM ε σ α).run s = .ok a s := rfl

@[simp] theorem run_fromExcept_error (e : ε) (s : σ) :
    (fromExcept (.error e) : EStateM ε σ α).run s = .error e s := rfl

theorem run_fromExcept_eq_ok_iff {x : Except ε α} {s s' : σ} {a : α} :
    (fromExcept x : EStateM ε σ α).run s = .ok a s' ↔ x = .ok a ∧ s' = s := by
  cases x with
  | ok b =>
    rw [run_fromExcept_ok, EStateM.Result.ok.injEq, Except.ok.injEq]
    exact and_congr_right fun _ => eq_comm
  | error e => simp

@[simp] theorem after_fromExcept (x : Except ε α) (s : σ) :
    after ((fromExcept x : EStateM ε σ α).run s) = s := by
  cases x <;> rfl

/-- However `x` ends, it leaves the part `p` of the state alone. -/
def Keeps (p : σ → τ) (x : EStateM ε σ α) : Prop := ∀ s, p (after (x.run s)) = p s

theorem keeps_pure (p : σ → τ) (a : α) : Keeps p (pure a : EStateM ε σ α) := fun _ => rfl

theorem keeps_get (p : σ → τ) : Keeps p (get : EStateM ε σ σ) := fun _ => rfl

theorem keeps_fromExcept (p : σ → τ) (x : Except ε α) :
    Keeps p (fromExcept x : EStateM ε σ α) := fun s => by rw [after_fromExcept]

theorem keeps_modify {p : σ → τ} {f : σ → σ} (h : ∀ s, p (f s) = p s) :
    Keeps p (modify f : EStateM ε σ PUnit) := h

theorem keeps_bind {p : σ → τ} {x : EStateM ε σ α} {f : α → EStateM ε σ β} (hx : Keeps p x)
    (hf : ∀ a, Keeps p (f a)) : Keeps p (x >>= f) := by
  intro s
  have h := hx s
  cases hrun : x.run s with
  | ok a s' =>
    rw [hrun, after_ok] at h
    rw [run_bind_of_ok hrun, hf a s', h]
  | error e s' =>
    rw [hrun, after_error] at h
    rw [run_bind_of_error hrun, after_error, h]

theorem keeps_ite {p : σ → τ} {c : Prop} [Decidable c] {x y : EStateM ε σ α} (hx : Keeps p x)
    (hy : Keeps p y) : Keeps p (if c then x else y) := by
  split
  · exact hx
  · exact hy

/-- A method of the component `get` reads and `set` writes, as a method of the whole. -/
def zoom (get : σ → τ) (set : τ → σ → σ) (x : EStateM ε τ α) : EStateM ε σ α := fun s =>
  match x.run (get s) with
  | .ok a t => .ok a (set t s)
  | .error e t => .error e (set t s)

theorem run_zoom (get : σ → τ) (set : τ → σ → σ) (x : EStateM ε τ α) (s : σ) :
    (zoom get set x).run s =
      match x.run (get s) with
      | .ok a t => .ok a (set t s)
      | .error e t => .error e (set t s) := rfl

theorem run_zoom_of_ok {get : σ → τ} {set : τ → σ → σ} {x : EStateM ε τ α} {s : σ} {a : α} {t : τ}
    (h : x.run (get s) = .ok a t) : (zoom get set x).run s = .ok a (set t s) := by
  rw [run_zoom, h]

theorem run_zoom_of_error {get : σ → τ} {set : τ → σ → σ} {x : EStateM ε τ α} {s : σ} {e : ε}
    {t : τ} (h : x.run (get s) = .error e t) : (zoom get set x).run s = .error e (set t s) := by
  rw [run_zoom, h]

theorem after_zoom {get : σ → τ} {set : τ → σ → σ} {x : EStateM ε τ α} {s : σ} :
    after ((zoom get set x).run s) = set (after (x.run (get s))) s := by
  rw [run_zoom]
  cases x.run (get s) <;> rfl

/-- A part of the state that does not depend on the component is kept. -/
theorem keeps_zoom {ρ : Type} {p : σ → ρ} {get : σ → τ} {set : τ → σ → σ} (x : EStateM ε τ α)
    (h : ∀ t s, p (set t s) = p s) : Keeps p (zoom get set x) := by
  intro s
  rw [after_zoom, h]

end Rules

/-! ## Checked array accesses -/

variable {α : Type}

/-- `xs[i]`. -/
def load (xs : List α) (i : Nat) : Except Throwable α :=
  match xs[i]? with
  | some a => .ok a
  | none => .error .indexOutOfBounds

/-- `xs[i] = a`. -/
def store (xs : List α) (i : Nat) (a : α) : Except Throwable (List α) :=
  if i < xs.length then .ok (xs.set i a) else .error .indexOutOfBounds

theorem load_of_lt {xs : List α} {i : Nat} (h : i < xs.length) : load xs i = .ok xs[i] := by
  unfold load
  rw [List.getElem?_eq_getElem h]

theorem load_eq_ok_iff {xs : List α} {i : Nat} {a : α} : load xs i = .ok a ↔ xs[i]? = some a := by
  unfold load
  cases xs[i]? <;> simp

theorem store_of_lt {xs : List α} {i : Nat} (h : i < xs.length) (a : α) :
    store xs i a = .ok (xs.set i a) := if_pos h

end Terminator.Java
