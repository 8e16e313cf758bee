import Mathlib.Data.List.Basic

/-!
# Runs of a step function

A system that takes one step for each event, over any states and events. An event that cannot
happen in a state leaves it as it is, so every list of events is a run.

* `Always P`: `P` holds in every state a run goes through, the first and the last one included
  (`always_iff`);
* `Meets cond`: every step of a run is taken in a state with `cond`;
* **`always_of_invariant`**: what one step keeps under the condition, a run that meets it keeps;
* **`always_iff_meets`**: a property that an invariant gives, and that a step outside the condition
  breaks, holds always exactly when the run meets the condition;
* **`run_of_simulation`**: two systems that take the same events stay related;
* **`collect_of_conserved`**: what goes in comes out or is still held;
* **`run_of_accumulation`**: what every step adds to, the run adds to;
* **`collect_of_simulation`**: and if they put out the same in related states, their runs do.
-/

namespace Terminator.Run

variable {σ ε : Type} (step : ε → σ → σ)

/-- The state after a sequence of events. -/
def run : List ε → σ → σ
  | [], s => s
  | e :: es, s => run es (step e s)

/-- `P` holds in every state of the run. -/
def Always (P : σ → Prop) : List ε → σ → Prop
  | [], s => P s
  | e :: es, s => P s ∧ Always P es (step e s)

/-- Every step of the run is taken in a state with `cond`. -/
def Meets (cond : ε → σ → Prop) : List ε → σ → Prop
  | [], _ => True
  | e :: es, s => cond e s ∧ Meets cond es (step e s)

variable {step} {P I : σ → Prop} {cond : ε → σ → Prop} {s : σ} {es : List ε}

theorem run_append (es es' : List ε) (s : σ) :
    run step (es ++ es') s = run step es' (run step es s) := by
  induction es generalizing s with
  | nil => rfl
  | cons e es ih => exact ih (step e s)

/-- The states of a run are those its beginnings end in. -/
theorem always_iff :
    Always step P es s ↔ ∀ es1 es2, es = es1 ++ es2 → P (run step es1 s) := by
  induction es generalizing s with
  | nil =>
    constructor
    · intro h es1 es2 hes
      obtain ⟨rfl, rfl⟩ := List.append_eq_nil_iff.mp hes.symm
      exact h
    · exact fun h => h [] [] rfl
  | cons e es ih =>
    constructor
    · rintro ⟨hs, h⟩ es1 es2 hes
      cases es1 with
      | nil => exact hs
      | cons e1 es1 =>
        obtain ⟨rfl, htail⟩ := List.cons.inj hes
        exact ih.mp h es1 es2 htail
    · intro h
      refine ⟨h [] (e :: es) rfl, ih.mpr fun es1 es2 hes => ?_⟩
      exact h (e :: es1) es2 (by rw [hes]; rfl)

/-- **Induction over a run**: what a step keeps under the condition, the run keeps. -/
theorem run_of_invariant (hstep : ∀ e s, I s → cond e s → I (step e s)) (hs : I s)
    (hes : Meets step cond es s) : I (run step es s) := by
  induction es generalizing s with
  | nil => exact hs
  | cons e es ih => exact ih (hstep e s hs hes.1) hes.2

/-- **An invariant holds always.** -/
theorem always_of_invariant (hP : ∀ s, I s → P s)
    (hstep : ∀ e s, I s → cond e s → I (step e s)) (hs : I s) (hes : Meets step cond es s) :
    Always step P es s := by
  induction es generalizing s with
  | nil => exact hP s hs
  | cons e es ih => exact ⟨hP s hs, ih (hstep e s hs hes.1) hes.2⟩

theorem always_head (h : Always step P es s) : P s := by
  cases es with
  | nil => exact h
  | cons e es => exact h.1

/-- **The exact condition**: a step outside it shows in the state it leads to. -/
theorem always_iff_meets (hP : ∀ s, I s → P s)
    (hstep : ∀ e s, I s → cond e s → I (step e s))
    (hbad : ∀ e s, I s → ¬ cond e s → ¬ P (step e s)) (hs : I s) :
    Always step P es s ↔ Meets step cond es s := by
  refine ⟨fun h => ?_, always_of_invariant hP hstep hs⟩
  induction es generalizing s with
  | nil => trivial
  | cons e es ih =>
    have hcond : cond e s := by
      by_contra hcond
      exact hbad e s hs hcond (always_head h.2)
    exact ⟨hcond, ih (hstep e s hs hcond) h.2⟩

/-- **Simulation**: two systems whose steps keep a relation between their states stay in it. -/
theorem run_of_simulation {τ : Type} {step' : ε → τ → τ} {R : σ → τ → Prop} {t : τ}
    (hstep : ∀ e s t, R s t → cond e s → R (step e s) (step' e t)) (hst : R s t)
    (hes : Meets step cond es s) : R (run step es s) (run step' es t) := by
  induction es generalizing s t with
  | nil => exact hst
  | cons e es ih => exact ih (hstep e s t hst hes.1) hes.2

/-- What the steps of a run put out, one after another. -/
def collect {α : Type} (step : ε → σ → σ) (out : ε → σ → List α) : List ε → σ → List α
  | [], _ => []
  | e :: es, s => out e s ++ collect step out es (step e s)

/-- **Conservation**: when every step puts out and keeps what it had and took in, in this order, so
does the run. -/
theorem collect_of_conserved {α : Type} {out inp : ε → σ → List α} {held : σ → List α}
    (hstep : ∀ e s, I s → cond e s → I (step e s))
    (hheld : ∀ e s, I s → cond e s → out e s ++ held (step e s) = held s ++ inp e s) (hs : I s)
    (hes : Meets step cond es s) :
    collect step out es s ++ held (run step es s) = held s ++ collect step inp es s := by
  induction es generalizing s with
  | nil => exact (List.append_nil (held s)).symm
  | cons e es ih =>
    calc collect step out (e :: es) s ++ held (run step (e :: es) s)
        = out e s ++ (collect step out es (step e s) ++ held (run step es (step e s))) :=
          List.append_assoc ..
      _ = out e s ++ (held (step e s) ++ collect step inp es (step e s)) := by
          rw [ih (hstep e s hs hes.1) hes.2]
      _ = held s ++ collect step inp (e :: es) s := by
          rw [← List.append_assoc, hheld e s hs hes.1, List.append_assoc]
          rfl

/-- **Accumulation**: when every step adds what it takes in, the run adds what its steps do. -/
theorem run_of_accumulation {α : Type} {inp : ε → σ → List α} {f : σ → List α}
    (hstep : ∀ e s, I s → cond e s → I (step e s))
    (hf : ∀ e s, I s → cond e s → f (step e s) = f s ++ inp e s) (hs : I s)
    (hes : Meets step cond es s) : f (run step es s) = f s ++ collect step inp es s := by
  induction es generalizing s with
  | nil => exact (List.append_nil (f s)).symm
  | cons e es ih =>
    rw [run, collect, ih (hstep e s hs hes.1) hes.2, hf e s hs hes.1, List.append_assoc]

/-- **Refinement**: two systems whose steps keep a relation and put out the same in related states
put out the same in every run. -/
theorem collect_of_simulation {α τ : Type} {step' : ε → τ → τ} {R : σ → τ → Prop} {t : τ}
    {out : ε → σ → List α} {out' : ε → τ → List α}
    (hstep : ∀ e s t, R s t → R (step e s) (step' e t))
    (hout : ∀ e s t, R s t → out e s = out' e t) (hst : R s t) :
    collect step out es s = collect step' out' es t := by
  induction es generalizing s t with
  | nil => rfl
  | cons e es ih => rw [collect, collect, hout e s t hst, ih (hstep e s t hst)]

theorem meets_append_iff (es es' : List ε) (s : σ) :
    Meets step cond (es ++ es') s ↔ Meets step cond es s ∧ Meets step cond es' (run step es s) := by
  induction es generalizing s with
  | nil => exact (and_iff_right trivial).symm
  | cons e es ih => exact (and_congr_right fun _ => ih (step e s)).trans and_assoc.symm

/-- Two conditions that are met are met together. -/
theorem Meets.and {cond' : ε → σ → Prop} (h : Meets step cond es s) (h' : Meets step cond' es s) :
    Meets step (fun e s => cond e s ∧ cond' e s) es s := by
  induction es generalizing s with
  | nil => trivial
  | cons e es ih => exact ⟨⟨h.1, h'.1⟩, ih h.2 h'.2⟩

/-- Two conditions that come to the same in the states an invariant allows. -/
theorem meets_congr_of_invariant {cond' : ε → σ → Prop}
    (hcond : ∀ e s, I s → (cond e s ↔ cond' e s)) (hstep : ∀ e s, I s → I (step e s)) (hs : I s) :
    Meets step cond es s ↔ Meets step cond' es s := by
  induction es generalizing s with
  | nil => exact Iff.rfl
  | cons e es ih => exact and_congr (hcond e s hs) (ih (hstep e s hs))

/-- A condition on the events alone is met in every state. -/
theorem meets_of_forall (h : ∀ e ∈ es, ∀ s, cond e s) : Meets step cond es s := by
  induction es generalizing s with
  | nil => trivial
  | cons e es ih =>
    exact ⟨h e List.mem_cons_self s, ih fun e he => h e (List.mem_cons_of_mem _ he)⟩

end Terminator.Run
