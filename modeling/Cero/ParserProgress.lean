import Cero.ParserExact

namespace Cero.Parser
open Effect TokenCursor

-- The tokens between two cursor positions; the end of file is never among them.
def Consumes (ts ts' : List Token) : Prop := ∃ seg, ts = seg ++ ts' ∧ ∀ t ∈ seg, t.kind ≠ .endOfFile

theorem Consumes.refl (ts : List Token) : Consumes ts ts := ⟨[],rfl,by simp⟩

theorem Consumes.trans {ts₁ ts₂ ts₃ : List Token} (first : Consumes ts₁ ts₂) (second : Consumes ts₂ ts₃) :
    Consumes ts₁ ts₃ := by
  obtain ⟨u,rfl,noneU⟩ := first
  obtain ⟨v,rfl,noneV⟩ := second
  refine ⟨u ++ v,(List.append_assoc _ _ _).symm,fun t member => ?_⟩
  rcases List.mem_append.mp member with left | right
  · exact noneU t left
  · exact noneV t right

theorem Consumes.one {t : Token} {rest : List Token} (more : t.kind ≠ .endOfFile) : Consumes (t :: rest) rest :=
  ⟨[t],rfl,by simpa using more⟩

theorem Consumes.cons {t : Token} {rest ts' : List Token} (more : t.kind ≠ .endOfFile) (others : Consumes rest ts') :
    Consumes (t :: rest) ts' := (Consumes.one more).trans others

theorem Consumes.suffix {ts ts' : List Token} (consumed : Consumes ts ts') : ts' <:+ ts := by
  obtain ⟨seg,rfl,_⟩ := consumed
  exact List.suffix_append seg ts'

theorem Consumes.length {ts ts' : List Token} (consumed : Consumes ts ts') : ts'.length ≤ ts.length := by
  obtain ⟨seg,rfl,_⟩ := consumed
  simp

-- What every token list handed to the parser looks like.
def Terminated (ts : List Token) : Prop :=
  ∃ front e, ts = front ++ [e] ∧ e.kind = .endOfFile ∧ ∀ t ∈ front, t.kind ≠ .endOfFile

theorem Terminated.consumed {ts ts' : List Token} (ends : Terminated ts) (consumed : Consumes ts ts') :
    Terminated ts' := by
  obtain ⟨front,e,same,atEnd,others⟩ := ends
  obtain ⟨seg,rfl,none⟩ := consumed
  induction seg generalizing front with
  | nil => exact ⟨front,e,same,atEnd,others⟩
  | cons t seg ih =>
    cases front with
    | nil =>
      simp only [List.nil_append,List.cons_append,List.cons.injEq] at same
      exact absurd (same.1 ▸ atEnd) (none t (by simp))
    | cons u front =>
      simp only [List.cons_append,List.cons.injEq] at same
      exact ih front (fun v member => others v (List.mem_cons_of_mem _ member))
        (fun v member => none v (List.mem_cons_of_mem _ member)) same.2

theorem Terminated.cons {ts : List Token} (ends : Terminated ts) : ∃ t rest, ts = t :: rest := by
  obtain ⟨front,e,rfl,_⟩ := ends
  cases front <;> exact ⟨_,_,rfl⟩

theorem Terminated.tail {t : Token} {rest : List Token} (ends : Terminated (t :: rest)) (more : t.kind ≠ .endOfFile) :
    Terminated rest := ends.consumed (.one more)

theorem Terminated.last {t : Token} {rest : List Token} (ends : Terminated (t :: rest)) (atEnd : t.kind = .endOfFile) :
    rest = [] := by
  obtain ⟨front,e,same,_,others⟩ := ends
  cases front with
  | nil => simp only [List.nil_append,List.cons.injEq] at same; exact same.2
  | cons u front =>
    simp only [List.cons_append,List.cons.injEq] at same
    exact absurd (same.1 ▸ atEnd) (others u (by simp))

theorem head_more {t : Token} {fn : HeadParseFunction} (found : lookupHeadParseFn t.kind = some fn) :
    t.kind ≠ .endOfFile := fun same => by rw [same] at found; cases found

theorem kind_more {t : Token} {kind : TokenKind} (same : t.kind = kind) (more : kind ≠ .endOfFile) :
    t.kind ≠ .endOfFile := same ▸ more

theorem operator_consumed {ts : List Token} {p : Precedence} {op : BinaryOperator}
    (found : nextTail ts = some ⟨p,some (.onBinaryOperator op)⟩) :
    Consumes ts (ts.drop (operatorWidth op)) ∧ (ts.drop (operatorWidth op)).length < ts.length := by
  obtain ⟨_,⟨t,rest,rfl,_,notShr,_,rule⟩ | ⟨t,u,rest,rfl,angle,rfl,_⟩ | ⟨t,u,rest,rfl,angle,rfl,adjacent⟩⟩ :=
    nextTail_binary found
  · have more : t.kind ≠ .endOfFile := fun same => by rw [same] at rule; cases rule
    simpa [operatorWidth,notShr] using Consumes.one more
  · simpa [operatorWidth] using Consumes.one (kind_more angle (by decide))
  · simp only [adjacentAngle,Bool.and_eq_true,decide_eq_true_eq] at adjacent
    refine ⟨?_,by simp only [operatorWidth,if_pos,List.drop_succ_cons,List.drop_zero,List.length_cons]; omega⟩
    exact .cons (kind_more angle (by decide)) (.one (kind_more adjacent.1 (by decide)))

theorem postfix_more {t : Token} {rest : List Token} {p : Precedence} {op : UnaryOperator}
    (found : nextTail (t :: rest) = some ⟨p,some (.onPostfixOperator op)⟩) : t.kind ≠ .endOfFile := fun same => by
  have rule := (nextTail_postfixed found).2
  rw [same] at rule; cases rule

theorem skip_consumed {ts ts' : List Token} {atEnd : Bool} (skipped : skipStatement ts = some (atEnd,ts')) :
    Consumes ts ts' := by
  induction ts with
  | nil => cases skipped
  | cons t rest ih =>
    rw [skipStatement] at skipped
    split at skipped
    · cases skipped; exact .refl _
    · rename_i more
      split at skipped
      · cases skipped; exact .one more
      split at skipped
      · cases skipped; exact .refl _
      · exact .cons more (ih skipped)

-- Skipping stands still only in front of a closing brace.
theorem skip_progress {ts ts' : List Token} (skipped : skipStatement ts = some (false,ts')) :
    ts'.length < ts.length ∨ (ts' = ts ∧ ∃ t rest, ts = t :: rest ∧ t.kind = .rBrace) := by
  cases ts with
  | nil => cases skipped
  | cons t rest =>
    rw [skipStatement] at skipped
    split at skipped
    · cases skipped
    split at skipped
    · cases skipped; exact .inl (by simp)
    split at skipped
    · rename_i close
      cases skipped; exact .inr ⟨rfl,t,rest,rfl,close⟩
    · have bound := (skip_consumed skipped).length
      exact .inl (by simp; omega)

theorem skip_end {ts ts' : List Token} (skipped : skipStatement ts = some (true,ts')) :
    ∃ t rest, ts' = t :: rest ∧ t.kind = .endOfFile := by
  induction ts with
  | nil => cases skipped
  | cons t rest ih =>
    rw [skipStatement] at skipped
    split at skipped
    · rename_i atEnd
      cases skipped; exact ⟨t,rest,rfl,atEnd⟩
    split at skipped
    · cases skipped
    split at skipped
    · cases skipped
    · exact ih skipped

theorem skip_total {ts : List Token} (ends : Terminated ts) : ∃ atEnd ts', skipStatement ts = some (atEnd,ts') := by
  induction ts with
  | nil => obtain ⟨_,_,impossible⟩ := ends.cons; cases impossible
  | cons t rest ih =>
    rw [skipStatement]
    split
    · exact ⟨_,_,rfl⟩
    · rename_i more
      split
      · exact ⟨_,_,rfl⟩
      split
      · exact ⟨_,_,rfl⟩
      · exact ih (ends.tail more)

-- How many tokens a task has consumed at least once it returned.
def least : Task → Reply Form → Nat
  | .statement,.ok _ | .expression _,.ok _ | .head,.ok _ | .tail _,.ok _ | .values,.ok _ => 1
  | _,_ => 0

theorem runs_consume {task : Task} {ts ts' : List Token} {r : Reply Form} {log : List Expected}
    (run : Runs task ts r ts' log) : Consumes ts ts' ∧ ts'.length + least task r ≤ ts.length := by
  induction run with
  | blockClose close => exact ⟨.one (kind_more close (by decide)),by simp [least]⟩
  | blockNext inside first others ih₁ ih₂ =>
    exact ⟨ih₁.1.trans ih₂.1,by have := ih₁.2; have := ih₂.2; simp only [least] at *; omega⟩
  | blockRecover inside first skipped others ih₁ ih₂ =>
    have crossed := ih₁.1.trans ((skip_consumed skipped).trans ih₂.1)
    exact ⟨crossed,crossed.length⟩
  | blockEnd inside first skipped ih =>
    have crossed := ih.1.trans (skip_consumed skipped)
    exact ⟨crossed,crossed.length⟩
  | @statementBlock t rest ts₁ r log brace run ih => exact ⟨ih.1,by have := ih.2; cases r <;> exact this⟩
  | statementClosed noBrace run semicolon ih =>
    exact ⟨ih.1.trans (.one (kind_more semicolon (by decide))),by have := ih.2; simp [least] at *; omega⟩
  | statementOpen noBrace run other ih => exact ⟨ih.1,ih.1.length⟩
  | statementThrown noBrace run ih => exact ih
  | noHead none => exact ⟨.refl _,Nat.le_refl _⟩
  | headThrown run ih => exact ih
  | @headTails ts ts₁ ts₂ p e r log₁ log₂ run tails ih₁ ih₂ =>
    have bound := ih₂.1.length
    exact ⟨ih₁.1.trans ih₂.1,by have := ih₁.2; cases r <;> simp only [least] at * <;> omega⟩
  | tailsStop stops => exact ⟨.refl _,Nat.le_refl _⟩
  | tailsThrown attaches run ih => exact ih
  | @tailsNext ts ts₁ ts₂ p left e r log₁ log₂ attaches run tails ih₁ ih₂ =>
    have crossed := ih₁.1.trans ih₂.1
    exact ⟨crossed,crossed.length⟩
  | identifier kind => exact ⟨.one (kind_more kind (by decide)),by simp [least]⟩
  | literal found => exact ⟨.one (head_more found),by simp [least]⟩
  | brace kind run ih => exact ⟨.cons (kind_more kind (by decide)) ih.1,by have := ih.1.length; simp [least]; omega⟩
  | returnBare kind none => exact ⟨.one (kind_more kind (by decide)),by simp [least]⟩
  | returnValues kind some run ih =>
    exact ⟨.cons (kind_more kind (by decide)) ih.1,by have := ih.1.length; simp [least] at *; omega⟩
  | returnThrown kind some run ih =>
    have crossed := Consumes.cons (kind_more kind (by decide)) ih.1
    exact ⟨crossed,crossed.length⟩
  | prefixed found run ih => exact ⟨.cons (head_more found) ih.1,by have := ih.1.length; simp [least] at *; omega⟩
  | prefixThrown found run ih =>
    have crossed := Consumes.cons (head_more found) ih.1
    exact ⟨crossed,crossed.length⟩
  | binary found run ih =>
    have operator := operator_consumed found
    exact ⟨operator.1.trans ih.1,by have := ih.1.length; simp only [least]; omega⟩
  | binaryThrown found run ih =>
    have crossed := (operator_consumed found).1.trans ih.1
    exact ⟨crossed,crossed.length⟩
  | postfixed found => exact ⟨.one (postfix_more found),by simp [least]⟩
  | callEmpty kind close =>
    exact ⟨.cons (kind_more kind (by decide)) (.one (kind_more close (by decide))),by simp [least]⟩
  | callClosed kind argument run close ih =>
    have crossed := ih.1.trans (.one (kind_more close (by decide)))
    exact ⟨.cons (kind_more kind (by decide)) crossed,by have := crossed.length; simp [least] at *; omega⟩
  | callOpen kind argument run other ih =>
    have crossed := Consumes.cons (kind_more kind (by decide)) ih.1
    exact ⟨crossed,crossed.length⟩
  | callThrown kind argument run ih =>
    have crossed := Consumes.cons (kind_more kind (by decide)) ih.1
    exact ⟨crossed,crossed.length⟩
  | valuesLast run last ih => exact ih
  | valuesNext run comma others ih₁ ih₂ =>
    exact ⟨ih₁.1.trans (.cons (kind_more comma (by decide)) ih₂.1),by
      have := ih₁.2; have := ih₂.1.length; simp [least] at *; omega⟩
  | valuesNextThrown run comma others ih₁ ih₂ =>
    have crossed := ih₁.1.trans (.cons (kind_more comma (by decide)) ih₂.1)
    exact ⟨crossed,crossed.length⟩
  | valuesThrown run ih => exact ih
end Cero.Parser
