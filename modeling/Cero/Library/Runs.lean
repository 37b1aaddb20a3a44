import Mathlib.Tactic.Common

-- Runs of a machine that takes one step for each input.
namespace Run
variable {σ α : Type} {step : σ → α → σ} {P Q Allowed : σ → α → Prop} {inv : σ → Prop} {s : σ} {inputs : List α}

-- `P` holds of every input of the run and the state that it meets.
def Along (step : σ → α → σ) (P : σ → α → Prop) : σ → List α → Prop
  | _,[] => True
  | s,a :: rest => P s a ∧ Along step P (step s a) rest

def final (step : σ → α → σ) (s : σ) (inputs : List α) : σ := inputs.foldl step s

-- A relation to an abstract machine that every step keeps is kept by a run.
theorem final_simulates {τ : Type} {abstract : τ → α → τ} {R : σ → τ → Prop} {t : τ} (allowed : Along step Allowed s inputs)
    (each : ∀ s t a, R s t → Allowed s a → R (step s a) (abstract t a)) (start : R s t) :
    R (final step s inputs) (final abstract t inputs) := by
  induction inputs generalizing s t with
  | nil => exact start
  | cons a rest ih => exact ih allowed.2 (each s t a start allowed.1)

-- What an invariant gives at every step it gives along the run.
theorem along_of (allowed : Along step Allowed s inputs) (each : ∀ s a, inv s → Allowed s a → P s a ∧ inv (step s a))
    (start : inv s) : Along step P s inputs := by
  induction inputs generalizing s with
  | nil => trivial
  | cons a rest ih =>
    have here := each s a start allowed.1
    exact ⟨here.1,ih allowed.2 here.2⟩

-- Two properties that agree wherever the invariant holds, and either of which keeps it.
theorem along_iff (allowed : Along step Allowed s inputs) (same : ∀ s a, inv s → Allowed s a → (P s a ↔ Q s a))
    (kept : ∀ s a, inv s → Allowed s a → Q s a → inv (step s a)) (start : inv s) :
    Along step P s inputs ↔ Along step Q s inputs := by
  induction inputs generalizing s with
  | nil => exact Iff.rfl
  | cons a rest ih =>
    have here := same s a start allowed.1
    constructor
    · rintro ⟨first,others⟩
      have first := here.mp first
      exact ⟨first,(ih allowed.2 (kept s a start allowed.1 first)).mp others⟩
    · rintro ⟨first,others⟩
      exact ⟨here.mpr first,(ih allowed.2 (kept s a start allowed.1 first)).mpr others⟩
end Run
