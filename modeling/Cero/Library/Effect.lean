import Mathlib.Tactic.Common

-- A finished computation hands back a value or has thrown. Either way the state
-- it reached and everything it logged are kept: a handler goes on from there.
inductive Reply (α : Type) where
  | ok (value : α)
  | thrown
  deriving DecidableEq, Repr

def Reply.map {α β : Type} (f : α → β) : Reply α → Reply β
  | .ok a => .ok (f a)
  | .thrown => .thrown

@[simp] theorem Reply.map_ok {α β : Type} (f : α → β) (a : α) : (Reply.ok a).map f = .ok (f a) := rfl
@[simp] theorem Reply.map_thrown {α β : Type} (f : α → β) : (Reply.thrown).map f = .thrown := rfl

structure Outcome (σ ω α : Type) where
  reply : Reply α
  state : σ
  log : List ω
  deriving DecidableEq, Repr

-- A fault ends the whole program: no state and no log are handed back, and no
-- handler sees it.
def Effect (φ σ ω α : Type) : Type := σ → Except φ (Outcome σ ω α)

namespace Effect
variable {φ σ ω α β γ : Type}

def Outcome.after (earlier : List ω) (o : Outcome σ ω α) : Outcome σ ω α :=
  ⟨o.reply,o.state,earlier ++ o.log⟩

protected def pure (a : α) : Effect φ σ ω α := fun s => .ok ⟨.ok a,s,[]⟩

protected def bind (m : Effect φ σ ω α) (f : α → Effect φ σ ω β) : Effect φ σ ω β := fun s =>
  match m s with
  | .error fault => .error fault
  | .ok ⟨.thrown,s',log⟩ => .ok ⟨.thrown,s',log⟩
  | .ok ⟨.ok a,s',log⟩ => (f a s').map (Outcome.after log)

instance : Monad (Effect φ σ ω) where
  pure := Effect.pure
  bind := Effect.bind

def throw : Effect φ σ ω α := fun s => .ok ⟨.thrown,s,[]⟩
def halt (fault : φ) : Effect φ σ ω α := fun _ => .error fault
def tell (entry : ω) : Effect φ σ ω Unit := fun s => .ok ⟨.ok (),s,[entry]⟩
def get : Effect φ σ ω σ := fun s => .ok ⟨.ok s,s,[]⟩
def set (s' : σ) : Effect φ σ ω Unit := fun _ => .ok ⟨.ok (),s',[]⟩
def ofExcept (r : Except φ α) : Effect φ σ ω α := fun s => r.map (fun a => ⟨.ok a,s,[]⟩)

-- A try block whose handler only learns that something was thrown.
def attempt (m : Effect φ σ ω α) : Effect φ σ ω (Option α) := fun s =>
  match m s with
  | .error fault => .error fault
  | .ok ⟨.thrown,s',log⟩ => .ok ⟨.ok none,s',log⟩
  | .ok ⟨.ok a,s',log⟩ => .ok ⟨.ok (some a),s',log⟩

-- A loop with loop-carried value `a`: `.inl` goes round again, `.inr` leaves.
-- The counter bounds the number of rounds and faults when it runs out.
def iterate (exhausted : φ) (body : α → Effect φ σ ω (α ⊕ β)) : Nat → α → Effect φ σ ω β
  | 0,_ => halt exhausted
  | rounds+1,a => do
    match ← body a with
    | .inl next => iterate exhausted body rounds next
    | .inr result => return result

section Run
variable {m : Effect φ σ ω α} {f : α → Effect φ σ ω β} {s s' : σ} {log : List ω} {a : α}

@[simp] theorem pure_run : (pure a : Effect φ σ ω α) s = .ok ⟨.ok a,s,[]⟩ := rfl
@[simp] theorem throw_run : (throw : Effect φ σ ω α) s = .ok ⟨.thrown,s,[]⟩ := rfl
@[simp] theorem halt_run (fault : φ) : (halt fault : Effect φ σ ω α) s = .error fault := rfl
@[simp] theorem tell_run (entry : ω) : (tell entry : Effect φ σ ω Unit) s = .ok ⟨.ok (),s,[entry]⟩ := rfl
@[simp] theorem get_run : (get : Effect φ σ ω σ) s = .ok ⟨.ok s,s,[]⟩ := rfl
@[simp] theorem set_run : (set s' : Effect φ σ ω Unit) s = .ok ⟨.ok (),s',[]⟩ := rfl

@[simp] theorem after_nil (o : Outcome σ ω α) : Outcome.after [] o = o := rfl
@[simp] theorem after_mk (earlier : List ω) (reply : Reply α) :
    Outcome.after earlier ⟨reply,s,log⟩ = ⟨reply,s,earlier ++ log⟩ := rfl
@[simp] theorem map_ok (g : α → β) : (Except.ok a : Except φ α).map g = .ok (g a) := rfl
@[simp] theorem map_error (g : α → β) (fault : φ) : Except.map g (.error fault) = .error fault := rfl

@[simp] theorem map_after_nil (r : Except φ (Outcome σ ω α)) : r.map (Outcome.after []) = r := by
  cases r <;> rfl

theorem bind_run : (m >>= f) s = match m s with
    | .error fault => .error fault
    | .ok ⟨.thrown,s',log⟩ => .ok ⟨.thrown,s',log⟩
    | .ok ⟨.ok a,s',log⟩ => (f a s').map (Outcome.after log) := rfl

theorem bind_ok (ran : m s = .ok ⟨.ok a,s',log⟩) : (m >>= f) s = (f a s').map (Outcome.after log) := by
  rw [bind_run,ran]

theorem bind_thrown (ran : m s = .ok ⟨.thrown,s',log⟩) : (m >>= f) s = .ok ⟨.thrown,s',log⟩ := by
  rw [bind_run,ran]

theorem attempt_ok (ran : m s = .ok ⟨.ok a,s',log⟩) : attempt m s = .ok ⟨.ok (some a),s',log⟩ := by
  rw [attempt,ran]

theorem attempt_thrown (ran : m s = .ok ⟨.thrown,s',log⟩) : attempt m s = .ok ⟨.ok none,s',log⟩ := by
  rw [attempt,ran]

-- A finished sequence stopped in its first half or went through both.
theorem bind_parts {r : Reply β} (ran : (m >>= f) s = .ok ⟨r,s',log⟩) :
    (m s = .ok ⟨.thrown,s',log⟩ ∧ r = .thrown) ∨ ∃ a s₁ earlier later,
      m s = .ok ⟨.ok a,s₁,earlier⟩ ∧ f a s₁ = .ok ⟨r,s',later⟩ ∧ log = earlier ++ later := by
  rw [bind_run] at ran
  split at ran
  · cases ran
  · rename_i first
    cases ran; exact .inl ⟨first,rfl⟩
  · rename_i a s₁ earlier first
    cases rest : f a s₁ with
    | error fault => simp [rest] at ran
    | ok later =>
      rw [rest,map_ok] at ran
      cases ran; exact .inr ⟨a,s₁,earlier,later.log,first,rest,rfl⟩

theorem attempt_parts {r : Reply (Option α)} (ran : attempt m s = .ok ⟨r,s',log⟩) :
    (m s = .ok ⟨.thrown,s',log⟩ ∧ r = .ok none) ∨ ∃ a, m s = .ok ⟨.ok a,s',log⟩ ∧ r = .ok (some a) := by
  rw [attempt] at ran
  split at ran
  · cases ran
  · rename_i first; cases ran; exact .inl ⟨first,rfl⟩
  · rename_i a s₁ log₁ first; cases ran; exact .inr ⟨a,first,rfl⟩
end Run

-- Total correctness: from `s` the computation returns, without a fault and
-- without throwing, and its value, final state and log satisfy `post`.
def Holds (m : Effect φ σ ω α) (s : σ) (post : α → σ → List ω → Prop) : Prop :=
  ∃ a s' log, m s = .ok ⟨.ok a,s',log⟩ ∧ post a s' log

section Rules
variable {m : Effect φ σ ω α} {f : α → Effect φ σ ω β} {s s' : σ} {a : α}
  {post post' : α → σ → List ω → Prop} {last : β → σ → List ω → Prop}

theorem holds_pure (established : post a s []) : Holds (pure a : Effect φ σ ω α) s post :=
  ⟨a,s,[],rfl,established⟩

theorem holds_tell {entry : ω} {post : Unit → σ → List ω → Prop} (established : post () s [entry]) :
    Holds (tell entry : Effect φ σ ω Unit) s post := ⟨(),s,[entry],rfl,established⟩

theorem holds_weaken (first : Holds m s post) (weaker : ∀ a s' log, post a s' log → post' a s' log) :
    Holds m s post' := by
  obtain ⟨a,s',log,ran,established⟩ := first
  exact ⟨a,s',log,ran,weaker a s' log established⟩

theorem holds_both (first : Holds m s post) (second : Holds m s post') :
    Holds m s (fun a s' log => post a s' log ∧ post' a s' log) := by
  obtain ⟨a,s',log,ran,left⟩ := first
  obtain ⟨_,_,_,again,right⟩ := second
  obtain ⟨⟩ := ran.symm.trans again
  exact ⟨a,s',log,ran,left,right⟩

theorem holds_bind (first : Holds m s post)
    (second : ∀ a s' log, post a s' log → Holds (f a) s' (fun b s'' more => last b s'' (log ++ more))) :
    Holds (m >>= f) s last := by
  obtain ⟨a,s',log,ran,established⟩ := first
  obtain ⟨b,s'',more,later,finished⟩ := second a s' log established
  exact ⟨b,s'',log ++ more,by rw [bind_ok ran,later]; rfl,finished⟩

-- A step whose result is known exactly runs away and leaves its continuation.
theorem holds_step {log : List ω} (ran : m s = .ok ⟨.ok a,s',log⟩)
    (rest : Holds (f a) s' (fun b s'' more => last b s'' (log ++ more))) : Holds (m >>= f) s last := by
  obtain ⟨b,s'',more,later,finished⟩ := rest
  exact ⟨b,s'',log ++ more,by rw [bind_ok ran,later]; rfl,finished⟩

theorem holds_silent (ran : m s = .ok ⟨.ok a,s',[]⟩) (rest : Holds (f a) s' last) : Holds (m >>= f) s last :=
  holds_step ran rest

theorem holds_ite {p : Prop} [Decidable p] {n : Effect φ σ ω α} (yes : p → Holds m s post) (no : ¬ p → Holds n s post) :
    Holds (if p then m else n) s post := by
  split
  · exact yes ‹p›
  · exact no ‹¬ p›

-- The loop rule. `spec a s` is what a run entered with `a` in `s` must end in:
-- a round that leaves establishes it, and a round that goes on lowers the measure
-- and turns the spec of what follows into its own.
theorem holds_iterate {exhausted : φ} {body : α → Effect φ σ ω (α ⊕ β)} (measure : σ → Nat)
    (inv : α → σ → Prop) (spec : α → σ → β → σ → List ω → Prop)
    (round : ∀ a s, inv a s → Holds (body a) s (fun r s' log => match r with
      | .inl next => inv next s' ∧ measure s' < measure s ∧
          ∀ b s'' more, spec next s' b s'' more → spec a s b s'' (log ++ more)
      | .inr b => spec a s b s' log))
    (rounds : Nat) (a : α) (s : σ) (enough : measure s < rounds) (entered : inv a s) :
    Holds (iterate exhausted body rounds a) s (spec a s) := by
  induction rounds generalizing a s with
  | zero => exact absurd enough (Nat.not_lt_zero _)
  | succ rounds ih =>
    refine holds_bind (round a s entered) ?_
    intro r s' log result
    cases r with
    | inl next =>
      obtain ⟨again,smaller,compose⟩ := result
      exact holds_weaken (ih next s' (by omega) again) (fun b s'' more done => compose b s'' more done)
    | inr b => exact holds_pure (by simpa using result)
end Rules

section Loops
variable {exhausted : φ} {body : α → Effect φ σ ω (α ⊕ β)} {a next : α} {b : β} {s s' s'' : σ} {log more : List ω}

theorem iterate_leave (rounds : Nat) (ran : body a s = .ok ⟨.ok (.inr b),s',log⟩) :
    iterate exhausted body (rounds+1) a s = .ok ⟨.ok b,s',log⟩ := by
  rw [iterate,bind_ok ran]
  simp

theorem iterate_again {rounds : Nat} (ran : body a s = .ok ⟨.ok (.inl next),s',log⟩)
    (rest : iterate exhausted body rounds next s' = .ok ⟨.ok b,s'',more⟩) :
    iterate exhausted body (rounds+1) a s = .ok ⟨.ok b,s'',log ++ more⟩ := by
  rw [iterate,bind_ok ran]
  simp [rest]

-- A loop that has finished does not look at the rounds that it has left.
theorem iterate_enough {rounds enough : Nat} (ran : iterate exhausted body rounds a s = .ok ⟨.ok b,s',log⟩)
    (more : rounds ≤ enough) : iterate exhausted body enough a s = .ok ⟨.ok b,s',log⟩ := by
  induction rounds generalizing enough a s log with
  | zero => cases ran
  | succ rounds ih =>
    cases enough with
    | zero => exact absurd more (Nat.not_succ_le_zero _)
    | succ enough =>
      rcases bind_parts ran with ⟨_,thrown⟩ | ⟨r,s₁,earlier,later,first,rest,rfl⟩
      · cases thrown
      · cases r with
        | inl next => exact iterate_again first (ih rest (Nat.le_of_succ_le_succ more))
        | inr result =>
          obtain ⟨⟩ : (Except.ok ⟨.ok result,s₁,[]⟩ : Except φ (Outcome σ ω β)) = .ok ⟨.ok b,s',later⟩ := rest
          rw [List.append_nil]
          exact iterate_leave enough first
end Loops
end Effect
