import Cero.Library.Effect

-- Computations that work on a store as well: in all else one does what another does
-- that has no store, and its value stands in the store for the value of the other.
namespace Effect

section Stores
variable {φ φ' ρ σ ω α : Type}

def beside (fault : φ → φ') (n : Effect φ σ ω α) : Effect φ' (ρ × σ) ω α := fun rs =>
  match n rs.2 with
  | .error f => .error (fault f)
  | .ok ⟨reply,s,log⟩ => .ok ⟨reply,(rs.1,s),log⟩

def onStore (step : ρ → Except φ' (α × ρ)) : Effect φ' (ρ × σ) ω α := fun rs =>
  (step rs.1).map fun done => ⟨.ok done.1,(done.2,rs.2),[]⟩
end Stores

-- `keep` holds of the store that is left, also where something was thrown.
inductive Realized {φ φ' ρ σ ω α β : Type} (fault : φ → φ') (keep : ρ → Prop) (post : ρ → α → β → Prop) :
    Except φ (Outcome σ ω β) → Except φ' (Outcome (ρ × σ) ω α) → Prop where
  | fault (f : φ) : Realized fault keep post (.error f) (.error (fault f))
  | thrown {r : ρ} (kept : keep r) (s : σ) (log : List ω) :
      Realized fault keep post (.ok ⟨.thrown,s,log⟩) (.ok ⟨.thrown,(r,s),log⟩)
  | ok {r : ρ} {a : α} {b : β} (kept : keep r) (made : post r a b) (s : σ) (log : List ω) :
      Realized fault keep post (.ok ⟨.ok b,s,log⟩) (.ok ⟨.ok a,(r,s),log⟩)

def Realizes {φ φ' ρ σ ω α β : Type} (fault : φ → φ') (keep : ρ → Prop) (post : ρ → α → β → Prop) (r : ρ)
    (m : Effect φ' (ρ × σ) ω α) (n : Effect φ σ ω β) : Prop := ∀ s, Realized fault keep post (n s) (m (r,s))

section Rules
variable {φ φ' ρ σ ω α β γ δ : Type} {fault : φ → φ'} {keep : ρ → Prop} {post : ρ → α → β → Prop} {last : ρ → γ → δ → Prop}
  {r : ρ} {m : Effect φ' (ρ × σ) ω α} {n : Effect φ σ ω β} {f : α → Effect φ' (ρ × σ) ω γ} {g : β → Effect φ σ ω δ}

theorem realizes_pure {a : α} {b : β} (kept : keep r) (made : post r a b) :
    Realizes fault keep post r (pure a : Effect φ' (ρ × σ) ω α) (pure b : Effect φ σ ω β) :=
  fun s => .ok kept made s []

theorem realizes_throw (kept : keep r) :
    Realizes fault keep post r (throw : Effect φ' (ρ × σ) ω α) (throw : Effect φ σ ω β) :=
  fun s => .thrown kept s []

theorem realizes_halt (f : φ) :
    Realizes fault keep post r (halt (fault f) : Effect φ' (ρ × σ) ω α) (halt f : Effect φ σ ω β) := fun _ => .fault f

theorem realizes_beside (kept : keep r) :
    Realizes fault keep (fun r' a b => r' = r ∧ a = b) r (beside fault n) n := by
  intro s
  rw [beside]
  cases n s with
  | error f => exact .fault f
  | ok o =>
    obtain ⟨reply,s',log⟩ := o
    cases reply with
    | ok b => exact .ok kept ⟨rfl,rfl⟩ s' log
    | thrown => exact .thrown kept s' log

theorem realizes_weaken {kept : ρ → Prop} {made : ρ → α → β → Prop} (realizes : Realizes fault kept made r m n)
    (keeps : ∀ r', kept r' → keep r') (makes : ∀ r' a b, kept r' → made r' a b → post r' a b) :
    Realizes fault keep post r m n := by
  intro s
  generalize n s = ran, m (r,s) = ran', realizes s = realized
  cases realized with
  | fault f => exact .fault f
  | thrown kept s log => exact .thrown (keeps _ kept) s log
  | ok kept made s log => exact .ok (keeps _ kept) (makes _ _ _ kept made) s log

theorem realized_after {ran : Except φ (Outcome σ ω β)} {ran' : Except φ' (Outcome (ρ × σ) ω α)}
    (realized : Realized fault keep post ran ran') (log : List ω) :
    Realized fault keep post (ran.map (Outcome.after log)) (ran'.map (Outcome.after log)) := by
  cases realized with
  | fault f => exact .fault f
  | thrown kept s more => exact .thrown kept s (log ++ more)
  | ok kept made s more => exact .ok kept made s (log ++ more)

theorem realizes_bind {kept : ρ → Prop} (first : Realizes fault kept post r m n) (keeps : ∀ r', kept r' → keep r')
    (second : ∀ r' a b, kept r' → post r' a b → Realizes fault keep last r' (f a) (g b)) :
    Realizes fault keep last r (m >>= f) (n >>= g) := by
  intro s
  rw [bind_run,bind_run]
  generalize n s = ran, m (r,s) = ran', first s = realized
  cases realized with
  | fault f => exact .fault f
  | thrown kept s log => exact .thrown (keeps _ kept) s log
  | ok kept made s log => exact realized_after (second _ _ _ kept made s) log

-- What is done to the store alone.
theorem realizes_step {step : ρ → Except φ' (α × ρ)} {a : α} {r' : ρ} {n : Effect φ σ ω δ} (ran : step r = .ok (a,r'))
    (rest : Realizes fault keep last r' (f a) n) : Realizes fault keep last r (onStore step >>= f) n := by
  intro s
  have stepped : (onStore step : Effect φ' (ρ × σ) ω α) (r,s) = .ok ⟨.ok a,(r',s),[]⟩ := by
    rw [onStore,ran]
    rfl
  rw [bind_ok stepped,map_after_nil]
  exact rest s

theorem realizes_attempt (realizes : Realizes fault keep post r m n) :
    Realizes fault keep (fun r' => Option.Rel (post r')) r (attempt m) (attempt n) := by
  intro s
  rw [attempt,attempt]
  generalize n s = ran, m (r,s) = ran', realizes s = realized
  cases realized with
  | fault f => exact .fault f
  | thrown kept s log => exact .ok kept .none s log
  | ok kept made s log => exact .ok kept (.some made) s log

theorem realizes_ite {p : Prop} [Decidable p] {m' : Effect φ' (ρ × σ) ω α} {n' : Effect φ σ ω β}
    (yes : p → Realizes fault keep post r m n) (no : ¬ p → Realizes fault keep post r m' n') :
    Realizes fault keep post r (if p then m else m') (if p then n else n') := by
  split
  · exact yes ‹p›
  · exact no ‹¬ p›
end Rules
end Effect
