import Cero.Library.Effect

-- Computations over different states and logs that go along with each other: from
-- linked states they fault alike, or they end in linked states with linked logs and
-- replies that are alike.
namespace Effect

structure Link (σ σ' ω ω' : Type) where
  states : σ → σ' → Prop
  logs : List ω → List ω' → Prop
  silent : logs [] []
  append : ∀ {log more : List ω} {log' more' : List ω'}, logs log log' → logs more more' → logs (log ++ more) (log' ++ more')

inductive Alike {α β : Type} (values : α → β → Prop) : Reply α → Reply β → Prop where
  | ok {a : α} {b : β} (same : values a b) : Alike values (.ok a) (.ok b)
  | thrown : Alike values .thrown .thrown

inductive Agree {φ σ σ' ω ω' α β : Type} (k : Link σ σ' ω ω') (values : α → β → Prop) :
    Except φ (Outcome σ ω α) → Except φ (Outcome σ' ω' β) → Prop where
  | fault (f : φ) : Agree k values (.error f) (.error f)
  | done {r : Reply α} {r' : Reply β} {s : σ} {s' : σ'} {log : List ω} {log' : List ω'} (replies : Alike values r r')
      (states : k.states s s') (logs : k.logs log log') : Agree k values (.ok ⟨r,s,log⟩) (.ok ⟨r',s',log'⟩)

def Simulates {φ σ σ' ω ω' α β : Type} (k : Link σ σ' ω ω') (values : α → β → Prop) (m : Effect φ σ ω α)
    (n : Effect φ σ' ω' β) : Prop := ∀ s s', k.states s s' → Agree k values (m s) (n s')

section Rules
variable {φ σ σ' ω ω' α β γ δ : Type} {k : Link σ σ' ω ω'} {R : α → β → Prop} {others : γ → δ → Prop}
  {m : Effect φ σ ω α} {n : Effect φ σ' ω' β} {f : α → Effect φ σ ω γ} {g : β → Effect φ σ' ω' δ}

theorem Alike.weaken {wider : α → β → Prop} {r : Reply α} {r' : Reply β} (alike : Alike R r r')
    (weaker : ∀ a b, R a b → wider a b) : Alike wider r r' := by
  cases alike with
  | ok same => exact .ok (weaker _ _ same)
  | thrown => exact .thrown

theorem simulates_weaken {wider : α → β → Prop} (both : Simulates k R m n) (weaker : ∀ a b, R a b → wider a b) :
    Simulates k wider m n := by
  intro s s' linked
  generalize m s = ran, n s' = ran', both s s' linked = agree
  cases agree with
  | fault f => exact .fault f
  | done replies states logs => exact .done (replies.weaken weaker) states logs

theorem simulates_pure {a : α} {b : β} (same : R a b) :
    Simulates k R (pure a : Effect φ σ ω α) (pure b : Effect φ σ' ω' β) :=
  fun _ _ linked => .done (.ok same) linked k.silent

theorem simulates_throw : Simulates k R (throw : Effect φ σ ω α) (throw : Effect φ σ' ω' β) :=
  fun _ _ linked => .done .thrown linked k.silent

theorem simulates_halt (fault : φ) : Simulates k R (halt fault : Effect φ σ ω α) (halt fault : Effect φ σ' ω' β) :=
  fun _ _ _ => .fault fault

theorem simulates_tell {entry : ω} {entry' : ω'} (logs : k.logs [entry] [entry']) :
    Simulates k (fun _ _ => True) (tell entry : Effect φ σ ω Unit) (tell entry' : Effect φ σ' ω' Unit) :=
  fun _ _ linked => .done (.ok trivial) linked logs

theorem simulates_get : Simulates k k.states (get : Effect φ σ ω σ) (get : Effect φ σ' ω' σ') :=
  fun _ _ linked => .done (.ok linked) linked k.silent

theorem agree_after {r : Except φ (Outcome σ ω α)} {r' : Except φ (Outcome σ' ω' β)} {log : List ω} {log' : List ω'}
    (agree : Agree k R r r') (logs : k.logs log log') : Agree k R (r.map (Outcome.after log)) (r'.map (Outcome.after log')) := by
  cases agree with
  | fault f => exact .fault f
  | done replies states more => exact .done replies states (k.append logs more)

theorem simulates_bind (first : Simulates k R m n) (second : ∀ a b, R a b → Simulates k others (f a) (g b)) :
    Simulates k others (m >>= f) (n >>= g) := by
  intro s s' linked
  rw [bind_run,bind_run]
  generalize m s = ran, n s' = ran', first s s' linked = agree
  cases agree with
  | fault fault => exact .fault fault
  | done replies states logs =>
    cases replies with
    | ok same => exact agree_after (second _ _ same _ _ states) logs
    | thrown => exact .done .thrown states logs

theorem simulates_attempt (both : Simulates k R m n) :
    Simulates k (Option.Rel R) (attempt m) (attempt n) := by
  intro s s' linked
  rw [attempt,attempt]
  generalize m s = ran, n s' = ran', both s s' linked = agree
  cases agree with
  | fault fault => exact .fault fault
  | done replies states logs =>
    cases replies with
    | ok same => exact .done (.ok (.some same)) states logs
    | thrown => exact .done (.ok .none) states logs

theorem simulates_ite {p q : Prop} [Decidable p] [Decidable q] {m' : Effect φ σ ω α} {n' : Effect φ σ' ω' β} (same : p ↔ q)
    (yes : p → Simulates k R m n) (no : ¬ p → Simulates k R m' n') :
    Simulates k R (if p then m else m') (if q then n else n') := by
  by_cases holds : p
  · rw [if_pos holds,if_pos (same.mp holds)]
    exact yes holds
  · rw [if_neg holds,if_neg (fun other => holds (same.mpr other))]
    exact no holds

-- Rounds of one loop against those of another: both go on or both leave.
theorem simulates_iterate {exhausted : φ} {body : α → Effect φ σ ω (α ⊕ γ)} {body' : β → Effect φ σ' ω' (β ⊕ δ)}
    (round : ∀ a b, R a b → Simulates k (Sum.LiftRel R others) (body a) (body' b)) (rounds : Nat) {a : α} {b : β}
    (entered : R a b) : Simulates k others (iterate exhausted body rounds a) (iterate exhausted body' rounds b) := by
  induction rounds generalizing a b with
  | zero => exact simulates_halt exhausted
  | succ rounds ih =>
    refine simulates_bind (round a b entered) ?_
    rintro (next | result) (next' | result') same
    · exact ih (Sum.liftRel_inl_inl.mp same)
    · cases same
    · cases same
    · exact simulates_pure (Sum.liftRel_inr_inr.mp same)
end Rules
end Effect
