import Cero.Library.Effect

-- What links the state a computation starts in, its log and the state it ends in, for
-- links that are there when nothing happens and that join.
namespace Effect

structure Course (σ ω : Type) where
  goes : σ → List ω → σ → Prop
  stay : ∀ s, goes s [] s
  onward : ∀ {s s' s'' : σ} {log more : List ω}, goes s log s' → goes s' more s'' → goes s (log ++ more) s''

def Takes {φ σ ω α : Type} (k : Course σ ω) (m : Effect φ σ ω α) : Prop :=
  ∀ s r s' log, m s = .ok ⟨r,s',log⟩ → k.goes s log s'

section Rules
variable {φ σ ω α β : Type} {k : Course σ ω} {m : Effect φ σ ω α} {f : α → Effect φ σ ω β}

theorem takes_pure (a : α) : Takes k (pure a : Effect φ σ ω α) := by
  intro s _ _ _ ran
  cases ran
  exact k.stay s

theorem takes_tell {entry : ω} (told : ∀ s, k.goes s [entry] s) : Takes k (tell entry : Effect φ σ ω Unit) := by
  intro s _ _ _ ran
  cases ran
  exact told s

theorem takes_ofExcept (r : Except φ α) : Takes k (ofExcept r : Effect φ σ ω α) := by
  intro s _ _ _ ran
  cases r with
  | error fault => cases ran
  | ok a =>
    cases ran
    exact k.stay s

theorem takes_given {r : Except φ α} (each : ∀ a, r = .ok a → Takes k (f a)) : Takes k (ofExcept r >>= f) := by
  cases r with
  | error fault => intro s _ _ _ ran; cases ran
  | ok a =>
    intro s r s' log ran
    rw [bind_ok (show (ofExcept (.ok a) : Effect φ σ ω α) s = .ok ⟨.ok a,s,[]⟩ from rfl),map_after_nil] at ran
    exact each a rfl s r s' log ran

theorem takes_bind (first : Takes k m) (second : ∀ a, Takes k (f a)) : Takes k (m >>= f) := by
  intro s r s' log ran
  rcases bind_parts ran with ⟨thrown,_⟩ | ⟨a,s₁,earlier,later,ran₁,ran₂,rfl⟩
  · exact first s _ s' log thrown
  · exact k.onward (first s _ s₁ earlier ran₁) (second a s₁ r s' later ran₂)

theorem takes_ite {p : Prop} [Decidable p] {n : Effect φ σ ω α} (yes : p → Takes k m) (no : ¬ p → Takes k n) :
    Takes k (if p then m else n) := by
  split
  · exact yes ‹p›
  · exact no ‹¬ p›

theorem takes_iterate {exhausted : φ} {body : α → Effect φ σ ω (α ⊕ β)} (round : ∀ a, Takes k (body a)) (rounds : Nat) (a : α) :
    Takes k (iterate exhausted body rounds a) := by
  induction rounds generalizing a with
  | zero => intro s _ _ _ ran; cases ran
  | succ rounds ih =>
    refine takes_bind (round a) fun next => ?_
    cases next with
    | inl next => exact ih next
    | inr result => exact takes_pure result
end Rules
end Effect
