import Terminator.Java.Exec

/-!
# Loops

A `while` loop whose body may leave it, or throw. Its `measure` decreases with each pass that goes
on, so a loop ends, and `run` needs no fuel.

* **`Loop.post_of_invariant`**: what each pass keeps holds when the loop is left;
* `bind_eq_ok_iff`: a sequence of computations returns iff each of them does.
-/

namespace Terminator.Java

/-- What a pass of a loop comes to: the next one, or the end. -/
inductive Pass (σ β : Type) where
  | next (s : σ)
  | done (b : β)

/-- A loop over the states `σ`, with what it leaves behind. -/
structure Loop (σ β : Type) where
  body : σ → Except Throwable (Pass σ β)
  measure : σ → Nat
  decreases : ∀ {s s'}, body s = .ok (.next s') → measure s' < measure s

section Except

variable {α β : Type} {x : Except Throwable α} {f : α → Except Throwable β} {b : β}

theorem bind_eq_ok_iff : (x >>= f) = .ok b ↔ ∃ a, x = .ok a ∧ f a = .ok b := by
  cases x with
  | error e => simp [bind, Except.bind]
  | ok a => simp [bind, Except.bind]

theorem bind_ok (a : α) : (Except.ok a >>= f) = f a := rfl

end Except

namespace Loop

variable {σ β : Type} (l : Loop σ β)

/-- The loop, from a state with fewer than `n` passes ahead. -/
def runFrom : (n : Nat) → (s : σ) → l.measure s < n → Except Throwable β
  | 0, _, h => absurd h (Nat.not_lt_zero _)
  | n + 1, s, h =>
    match hbody : l.body s with
    | .error e => .error e
    | .ok (.done b) => .ok b
    | .ok (.next s') => runFrom n s' (Nat.lt_of_lt_of_le (l.decreases hbody) (Nat.le_of_lt_succ h))

/-- The loop. -/
def run (s : σ) : Except Throwable β := l.runFrom (l.measure s + 1) s (Nat.lt_succ_self _)

variable {l}

theorem post_of_invariantFrom {I : σ → Prop} {Q : β → Prop}
    (hnext : ∀ s s', I s → l.body s = .ok (.next s') → I s')
    (hdone : ∀ s b, I s → l.body s = .ok (.done b) → Q b) :
    ∀ (n : Nat) (s : σ) (hn : l.measure s < n) (b : β), I s → l.runFrom n s hn = .ok b → Q b := by
  intro n
  induction n with
  | zero => exact fun s hn => absurd hn (Nat.not_lt_zero _)
  | succ n ih =>
    intro s hn b hs hrun
    unfold runFrom at hrun
    split at hrun
    · cases hrun
    · next hbody =>
      obtain rfl := Except.ok.inj hrun
      exact hdone s _ hs hbody
    · next hbody => exact ih _ _ b (hnext s _ hs hbody) hrun

theorem run_of_done {s : σ} {b : β} (h : l.body s = .ok (.done b)) : l.run s = .ok b := by
  unfold run runFrom
  split
  · next hbody => rw [hbody] at h; cases h
  · next hbody =>
    rw [hbody] at h
    cases h
    rfl
  · next hbody => rw [hbody] at h; cases h

/-- **The loop rule**: an invariant of the body gives what is wanted at the end. -/
theorem post_of_invariant {I : σ → Prop} {Q : β → Prop} {s : σ} {b : β}
    (hnext : ∀ s s', I s → l.body s = .ok (.next s') → I s')
    (hdone : ∀ s b, I s → l.body s = .ok (.done b) → Q b) (hs : I s) (h : l.run s = .ok b) :
    Q b :=
  post_of_invariantFrom hnext hdone _ s _ b hs h

end Loop

end Terminator.Java
