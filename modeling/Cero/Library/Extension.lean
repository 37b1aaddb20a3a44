import Cero.Library.Effect

-- Computations that stop short of the end of their input do the same where more input
-- stands behind it. How much is left only shrinks, so that a sequence that stops short
-- has done so in each of its parts; runs that are not quiet are left aside.
namespace Effect

structure Extension (σ σ' ω : Type) where
  here : σ → Prop
  reaches : σ → σ → Prop
  short : σ → Prop
  quiet : List ω → Prop
  extend : σ → σ'
  refl : ∀ s, reaches s s
  trans : ∀ {s s' s'' : σ}, reaches s s' → reaches s' s'' → reaches s s''
  keeps : ∀ {s s' : σ}, here s → reaches s s' → here s'
  before : ∀ {s s' : σ}, reaches s s' → short s' → short s
  parts : ∀ {log more : List ω}, quiet (log ++ more) → quiet log ∧ quiet more

section Rules
variable {φ σ σ' ω α β : Type} {k : Extension σ σ' ω} {m : Effect φ σ ω α} {n : Effect φ σ' ω α} {f : α → Effect φ σ ω β}
  {g : α → Effect φ σ' ω β}

end Rules

end Effect
