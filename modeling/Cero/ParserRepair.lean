import Cero.DefinitionExact
import Cero.ParserLocality

-- What the parser makes of a token list with errors in it is what it makes of some of
-- these tokens without reporting anything, once the blocks left open are closed.
namespace Cero.Parser

-- The token lists that a tail loop does not tell apart before it goes on.
def Alike (ts us : List Token) : Prop := us.head? = ts.head? ∧ nextTail us = nextTail ts

section Alike
variable {ts us : List Token} {t : Token}

theorem alike_plain (plain : t.kind ≠ .rAngle) (ts us : List Token) : Alike (t :: ts) (t :: us) :=
  ⟨rfl,by simp only [nextTail,if_neg plain]⟩

theorem alike_kind {kind : TokenKind} (same : t.kind = kind) (plain : kind ≠ .rAngle) (ts us : List Token) :
    Alike (t :: ts) (t :: us) := alike_plain (same ▸ plain) ts us

theorem alike_behind (t : Token) (same : us.head? = ts.head?) : Alike (t :: ts) (t :: us) :=
  ⟨rfl,by simp only [nextTail,same]⟩

theorem Alike.front (alike : Alike (t :: ts) us) : ∃ rest, us = t :: rest := by
  cases us with
  | nil => cases alike.1
  | cons u us => exact ⟨us,by rw [Option.some.inj alike.1]⟩

theorem front_of_head {u : Token} (same : us.head? = (u :: ts).head?) : ∃ rest, us = u :: rest := by
  cases us with
  | nil => cases same
  | cons v us => exact ⟨us,by rw [Option.some.inj same]⟩
end Alike

section Repair
variable {close : Token}

-- `kept` is made of tokens between two cursors, and of closing braces where the second
-- cursor is at the end of the file. Every brace goes with a report.
def Kept (close : Token) (kept ts ts' : List Token) (log : List Expected) : Prop :=
  ∃ seg sub k, ts = seg ++ ts' ∧ (∀ t ∈ seg, t.kind ≠ .endOfFile) ∧ sub.Sublist seg ∧ kept = sub ++ List.replicate k close ∧
    k ≤ log.length ∧ (k ≠ 0 → ∃ e rest, ts' = e :: rest ∧ e.kind = .endOfFile)

section Kept
variable {kept more ts ts₁ ts₂ rest : List Token} {log log' : List Expected} {t : Token}

theorem Kept.append (first : Kept close kept ts ts₁ log) (second : Kept close more ts₁ ts₂ log') :
    Kept close (kept ++ more) ts ts₂ (log ++ log') := by
  obtain ⟨seg,sub,k,rfl,none,among,rfl,few,last⟩ := first
  obtain ⟨seg',sub',k',rfl,none',among',rfl,few',last'⟩ := second
  by_cases zero : k = 0
  · subst zero
    refine ⟨seg ++ seg',sub ++ sub',k',by simp,?_,among.append among',by simp,by simp; omega,last'⟩
    exact fun t member => (List.mem_append.mp member).elim (none t) (none' t)
  · -- Nothing is used up behind the end of the file.
    obtain ⟨e,rest,same,atEnd⟩ := last zero
    obtain rfl : seg' = [] := by
      cases seg' with
      | nil => rfl
      | cons t seg' =>
        simp only [List.cons_append,List.cons.injEq] at same
        exact absurd (same.1 ▸ atEnd) (none' t List.mem_cons_self)
    obtain rfl := List.sublist_nil.mp among'
    refine ⟨seg,sub,k+k',by simp,none,among,?_,by simp; omega,fun _ => ⟨e,rest,same,atEnd⟩⟩
    simp [List.replicate_append_replicate]

theorem Kept.refl (ts : List Token) : Kept close [] ts ts log := ⟨[],[],0,rfl,by simp,.slnil,rfl,Nat.zero_le _,by simp⟩

theorem Kept.token (log : List Expected) (inside : t.kind ≠ .endOfFile) : Kept close [t] (t :: rest) rest log :=
  ⟨[t],[t],0,rfl,by simpa using inside,.refl _,rfl,Nat.zero_le _,by simp⟩

theorem Kept.dropped (log : List Expected) (consumed : Consumes ts ts₁) : Kept close [] ts ts₁ log := by
  obtain ⟨seg,rfl,none⟩ := consumed
  exact ⟨seg,[],0,rfl,none,List.nil_sublist _,rfl,Nat.zero_le _,by simp⟩

theorem Kept.closed (atEnd : t.kind = .endOfFile) (some : log ≠ []) : Kept close [close] (t :: rest) (t :: rest) log :=
  ⟨[],[],1,rfl,by simp,.slnil,rfl,List.length_pos_iff.mpr some,fun _ => ⟨t,rest,rfl,atEnd⟩⟩
end Kept

theorem skipStatement_end {ts ts' : List Token} (skipped : skipStatement ts = some (true,ts')) :
    ∃ e rest, ts' = e :: rest ∧ e.kind = .endOfFile := by
  induction ts with
  | nil => cases skipped
  | cons t ts ih =>
    rw [skipStatement] at skipped
    split at skipped
    · cases skipped
      exact ⟨t,ts,rfl,‹_›⟩
    · split at skipped
      · cases skipped
      · split at skipped
        · cases skipped
        · exact ih skipped

-- What stands behind a run may be replaced, as far as the run has looked at it.
def FitsBehind : Task → Form → List Token → List Token → Prop
  | .block,_,_,_ | .statement,_,_,_ => True
  | .head,.expr e,ts',us => isBlock e = false → Alike ts' us
  | _,_,ts',us => Alike ts' us

-- What the start of a run shows to the one before it.
def Front : Task → List Token → List Token → Prop
  | .block,_,_ => True
  | .tails _ _,ts,us | .tail _,ts,us => Alike ts us
  | _,ts,us => us.head? = ts.head?

-- What is kept of the tokens of a run gives the same, and no report.
def Mends (close : Token) (task : Task) (ts : List Token) (r : Reply Form) (ts' : List Token) (log : List Expected) : Prop :=
  ∀ f, r = .ok f → ∃ kept, Kept close kept ts ts' log ∧
    ∀ us, FitsBehind task f ts' us → Front task ts (kept ++ us) ∧ Runs task (kept ++ us) (.ok f) us []

-- An operator is kept whole. A `>` looks at the token behind it.
theorem operator_kept (close : Token) {ts : List Token} {p : Precedence} {op : BinaryOperator} (log : List Expected)
    (found : nextTail ts = some ⟨p,some (.onBinaryOperator op)⟩) : ∃ seg, Kept close seg ts (ts.drop (operatorWidth op)) log ∧
      seg.length = operatorWidth op ∧ ∀ us, us.head? = (ts.drop (operatorWidth op)).head? → Alike ts (seg ++ us) := by
  have more : ∀ {t : Token}, t.kind = .rAngle → t.kind ≠ .endOfFile := fun same => kind_more same (by decide)
  obtain ⟨_,⟨t,rest,rfl,plain,notShr,_,rule⟩ | ⟨t,u,rest,rfl,angle,rfl,_⟩ | ⟨t,u,rest,rfl,angle,rfl,adjacent⟩⟩ := nextTail_binary found
  · have width : operatorWidth op = 1 := if_neg notShr
    have inside : t.kind ≠ .endOfFile := fun same => by rw [same] at rule; cases rule
    rw [width]
    exact ⟨[t],.token _ inside,rfl,fun us _ => alike_plain plain rest us⟩
  · exact ⟨[t],.token _ (more angle),rfl,fun us same => alike_behind t same⟩
  · simp only [adjacentAngle,Bool.and_eq_true,decide_eq_true_eq] at adjacent
    exact ⟨[t,u],Kept.append (.token [] (more angle)) (.token _ (more adjacent.1)),rfl,fun us _ => ⟨rfl,rfl⟩⟩

theorem runs_mend (closes : close.kind = .rBrace) {task : Task} {ts ts' : List Token} {r : Reply Form} {log : List Expected} (run : Runs task ts r ts' log) :
    Mends close task ts r ts' log := by
  induction run with
  | @blockClose t rest closed =>
    rintro _ ⟨⟩
    exact ⟨[t],.token _ (kind_more closed (by decide)),fun us _ => ⟨trivial,.blockClose closed⟩⟩
  | blockNext inside first others ih₁ ih₂ =>
    rintro _ ⟨⟩
    obtain ⟨kept,from_,again⟩ := ih₁ _ rfl
    obtain ⟨kept',from_',again'⟩ := ih₂ _ rfl
    refine ⟨kept ++ kept',from_.append from_',fun us _ => ⟨trivial,?_⟩⟩
    obtain ⟨front,run⟩ := again (kept' ++ us) trivial
    obtain ⟨ws,whole⟩ := front_of_head front
    rw [List.append_assoc,whole]
    rw [whole] at run
    exact .blockNext inside run (again' us trivial).2
  | @blockRecover t rest ts₁ ts₂ ts₃ es log₁ log₂ inside first skipped others ih₁ ih₂ =>
    rintro _ ⟨⟩
    obtain ⟨kept,from_,again⟩ := ih₂ _ rfl
    have dropped : Kept close [] _ _ log₁ := .dropped _ ((runs_consume first).1.trans (skip_consumed skipped))
    exact ⟨kept,dropped.append from_,again⟩
  | @blockEnd t rest ts₁ ts₂ log inside first skipped ih =>
    rintro _ ⟨⟩
    obtain ⟨e,rest,rfl,atEnd⟩ := skipStatement_end skipped
    have dropped : Kept close [] _ _ [] := .dropped _ ((runs_consume first).1.trans (skip_consumed skipped))
    exact ⟨[close],dropped.append (.closed atEnd (thrown_reports first)),fun us _ => ⟨trivial,.blockClose closes⟩⟩
  | @statementBlock t rest ts₁ r log brace run ih =>
    rintro f rfl
    obtain ⟨kept,from_,again⟩ := ih _ rfl
    refine ⟨kept,from_,fun us _ => ?_⟩
    obtain ⟨front,run'⟩ := again us (by
      cases run with
      | brace kind run => exact fun impossible => (by cases impossible)
      | identifier kind | returnBare kind | returnValues kind => rw [brace] at kind; cases kind
      | literal found | prefixed found => rw [brace] at found; cases found)
    obtain ⟨ws,whole⟩ := front_of_head front
    rw [whole] at run' ⊢
    exact ⟨rfl,.statementBlock brace run'⟩
  | @statementClosed t u rest ts₁ e log noBrace run semicolon ih =>
    rintro _ ⟨⟩
    obtain ⟨kept,from_,again⟩ := ih _ rfl
    have whole := from_.append (.token [] (kind_more semicolon (by decide)))
    rw [List.append_nil] at whole
    refine ⟨kept ++ [u],whole,fun us _ => ?_⟩
    obtain ⟨front,run'⟩ := again (u :: us) (alike_kind semicolon (by decide) ts₁ us)
    obtain ⟨ws,same⟩ := front_of_head front
    rw [List.append_assoc,List.singleton_append,same]
    rw [same] at run'
    exact ⟨rfl,.statementClosed noBrace run' semicolon⟩
  | statementOpen | statementThrown | noHead | headThrown | tailsThrown | returnThrown | prefixThrown | binaryThrown
    | callOpen | callThrown | valuesNextThrown | valuesThrown => rintro _ ⟨⟩
  | @headTails ts ts₁ ts₂ p e r log₁ log₂ run tails ih₁ ih₂ =>
    rintro f rfl
    obtain ⟨kept,from_,again⟩ := ih₁ _ rfl
    obtain ⟨kept',from_',again'⟩ := ih₂ _ rfl
    refine ⟨kept ++ kept',from_.append from_',fun us fits => ?_⟩
    obtain ⟨alike,tails'⟩ := again' us fits
    obtain ⟨front,run'⟩ := again (kept' ++ us) (fun _ => alike)
    rw [List.append_assoc]
    exact ⟨front,.headTails run' tails'⟩
  | @tailsStop ts p left stops =>
    rintro _ ⟨⟩
    refine ⟨[],.refl _,fun us alike => ⟨alike,.tailsStop ?_⟩⟩
    rw [List.nil_append,Stops,alike.2]
    exact stops
  | @tailsNext ts ts₁ ts₂ p left e r log₁ log₂ attaches run tails ih₁ ih₂ =>
    rintro f rfl
    obtain ⟨kept,from_,again⟩ := ih₁ _ rfl
    obtain ⟨kept',from_',again'⟩ := ih₂ _ rfl
    refine ⟨kept ++ kept',from_.append from_',fun us fits => ?_⟩
    obtain ⟨alike,tails'⟩ := again' us fits
    obtain ⟨front,run'⟩ := again (kept' ++ us) alike
    rw [List.append_assoc]
    refine ⟨front,.tailsNext ?_ run' tails'⟩
    rw [Attaches,front.2]
    exact attaches
  | @identifier t rest kind =>
    rintro _ ⟨⟩
    exact ⟨[t],.token _ (kind_more kind (by decide)),fun us _ => ⟨rfl,.identifier kind⟩⟩
  | @literal t rest literalKind found =>
    rintro _ ⟨⟩
    exact ⟨[t],.token _ (head_more found),fun us _ => ⟨rfl,.literal found⟩⟩
  | @brace t rest ts₁ es log kind run ih =>
    rintro _ ⟨⟩
    obtain ⟨kept,from_,again⟩ := ih _ rfl
    exact ⟨t :: kept,Kept.append (.token [] (kind_more kind (by decide))) from_,
      fun us _ => ⟨rfl,.brace kind (again us trivial).2⟩⟩
  | @returnBare t u rest kind none =>
    rintro _ ⟨⟩
    refine ⟨[t],.token _ (kind_more kind (by decide)),fun us fits => ?_⟩
    obtain ⟨ws,rfl⟩ := (fits rfl).front
    exact ⟨rfl,.returnBare kind none⟩
  | @returnValues t u rest ts₁ es log kind some run ih =>
    rintro _ ⟨⟩
    obtain ⟨kept,from_,again⟩ := ih _ rfl
    refine ⟨t :: kept,Kept.append (.token [] (kind_more kind (by decide))) from_,fun us fits => ?_⟩
    obtain ⟨front,run'⟩ := again us (fits rfl)
    obtain ⟨ws,whole⟩ := front_of_head front
    rw [List.cons_append,whole]
    rw [whole] at run'
    exact ⟨rfl,.returnValues kind some run'⟩
  | @prefixed t rest ts₁ op e log found run ih =>
    rintro _ ⟨⟩
    obtain ⟨kept,from_,again⟩ := ih _ rfl
    exact ⟨t :: kept,Kept.append (.token [] (head_more found)) from_,
      fun us fits => ⟨rfl,.prefixed found (again us (fits rfl)).2⟩⟩
  | @binary ts ts₁ p op left right log found run ih =>
    rintro _ ⟨⟩
    obtain ⟨kept,from_,again⟩ := ih _ rfl
    obtain ⟨seg,ours,long,alike⟩ := operator_kept close [] found
    refine ⟨seg ++ kept,ours.append from_,fun us fits => ?_⟩
    obtain ⟨front,run'⟩ := again us fits
    have same := alike (kept ++ us) front
    rw [List.append_assoc]
    refine ⟨same,.binary (same.2.trans found) ?_⟩
    rw [← long,List.drop_left]
    exact run'
  | @postfixed t rest p op left found =>
    rintro _ ⟨⟩
    refine ⟨[t],.token _ (postfix_more found),fun us fits => ?_⟩
    have same : Alike (t :: rest) (t :: us) := alike_behind t fits.1
    exact ⟨same,.postfixed (same.2.trans found)⟩
  | @callEmpty t u rest left kind closed =>
    rintro _ ⟨⟩
    refine ⟨[t,u],Kept.append (.token [] (kind_more kind (by decide))) (.token _ (kind_more closed (by decide))),fun us _ => ?_⟩
    exact ⟨alike_kind kind (by decide) _ _,.callEmpty kind closed⟩
  | @callClosed t u v rest ts₁ left es log kind argument run closed ih =>
    rintro _ ⟨⟩
    obtain ⟨kept,from_,again⟩ := ih _ rfl
    have whole := Kept.append (.token [] (kind_more kind (by decide)))
      (from_.append (.token [] (kind_more closed (by decide))))
    rw [List.append_nil] at whole
    refine ⟨t :: (kept ++ [v]),whole,fun us _ => ?_⟩
    obtain ⟨front,run'⟩ := again (v :: us) (alike_kind closed (by decide) ts₁ us)
    obtain ⟨ws,same⟩ := front_of_head front
    rw [List.cons_append,List.append_assoc,List.singleton_append,same]
    rw [same] at run'
    exact ⟨alike_kind kind (by decide) _ _,.callClosed kind argument run' closed⟩
  | @valuesLast ts ts₁ u e log run last ih =>
    rintro _ ⟨⟩
    obtain ⟨kept,from_,again⟩ := ih _ rfl
    refine ⟨kept,from_,fun us fits => ?_⟩
    obtain ⟨front,run'⟩ := again us fits
    obtain ⟨ws,rfl⟩ := fits.front
    exact ⟨front,.valuesLast run' last⟩
  | @valuesNext ts ts₁ ts₂ u e es log₁ log₂ run comma others ih₁ ih₂ =>
    rintro _ ⟨⟩
    obtain ⟨kept,from_,again⟩ := ih₁ _ rfl
    obtain ⟨kept',from_',again'⟩ := ih₂ _ rfl
    have whole := from_.append (Kept.append (.token [] (kind_more comma (by decide))) from_')
    refine ⟨kept ++ u :: kept',whole,fun us fits => ?_⟩
    obtain ⟨front,run'⟩ := again (u :: (kept' ++ us)) (alike_kind comma (by decide) _ _)
    rw [List.append_assoc,List.cons_append]
    exact ⟨front,.valuesNext run' comma (again' us fits).2⟩

-- What is in front of a body reports nothing unless it is thrown away.
theorem listed_quiet {α : Type} {Item : List Token → Reply α → List Token → List Expected → Prop}
    (each : ∀ {ts a ts' log}, Item ts (.ok a) ts' log → log = []) {ts ts' : List Token} {r : Reply (List α)}
    {log : List Expected} (run : Listed Item ts r ts' log) {as : List α} (made : r = .ok as) : log = [] := by
  induction run generalizing as with
  | last run last => exact each run
  | next run comma others ih => rw [each run,ih rfl]; rfl
  | nextThrown | thrown => cases made

theorem parameter_quiet {ts ts' : List Token} {p : AstFunctionParameter} {log : List Expected}
    (run : ParameterRuns ts (.ok p) ts' log) : log = [] := by
  cases run; rfl

theorem output_quiet {ts ts' : List Token} {o : AstFunctionOutput} {log : List Expected}
    (run : OutputRuns ts (.ok o) ts' log) : log = [] := by
  cases run; rfl

theorem parameters_quiet {ts ts' : List Token} {ps : List AstFunctionParameter} {log : List Expected}
    (run : ParametersRun ts (.ok ps) ts' log) : log = [] := by
  cases run with
  | empty => rfl
  | closed some run close => exact listed_quiet parameter_quiet run rfl

theorem outputs_quiet {ts ts' : List Token} {os : List AstFunctionOutput} {log : List Expected}
    (run : OutputsRun ts (.ok os) ts' log) : log = [] := by
  cases run with
  | none => rfl
  | some arrow run => exact listed_quiet output_quiet run rfl

theorem Kept.whole {seg ts' : List Token} (log : List Expected) (consumed : Consumes (seg ++ ts') ts') :
    Kept close seg (seg ++ ts') ts' log := by
  obtain ⟨same,whole,none⟩ := consumed
  obtain rfl := List.append_cancel_right whole
  exact ⟨seg,seg,0,rfl,none,.refl _,by simp,Nat.zero_le _,by simp⟩

theorem function_mends (closes : close.kind = .rBrace) {offset : BitVec sourceSizeBits} {modifier : AccessModifier} {name : Token}
    {ts ts' : List Token} {d : AstDefinition} {log : List Expected} (run : FunctionRuns offset modifier name ts (.ok d) ts' log) :
    ∃ kept, Kept close kept ts ts' log ∧ ∀ us, FunctionRuns offset modifier name (kept ++ us) (.ok d) us [] := by
  cases run with
  | @body t u rest ts₁ ts₂ ts₃ ps os es log₁ log₂ log₃ paren run outputs brace block =>
    obtain rfl := parameters_quiet run
    obtain rfl := outputs_quiet outputs
    obtain ⟨kept,from_,again⟩ := runs_mend closes block _ rfl
    have first := parameters_consume run
    have second := outputs_consume outputs
    obtain ⟨seg,rfl,parameters⟩ := parameters_local run
    obtain ⟨seg',_,_,rfl,⟨⟩,returned⟩ := outputs_local outputs
    have opened : Kept close _ _ _ _ := .append (.token [] (kind_more paren (by decide)))
      (Kept.append (.whole [] first) (.whole [] second))
    refine ⟨_,opened.append (Kept.append (.token [] (kind_more brace (by decide))) from_),fun us => ?_⟩
    have body : FunctionRuns offset modifier name _ _ _ _ :=
      .body paren (parameters (seg' ++ u :: (kept ++ us))) (returned (kept ++ us)) brace (again us trivial).2
    simpa using body

theorem definition_mends (closes : close.kind = .rBrace) {ts ts' : List Token} {d : AstDefinition} {log : List Expected}
    (run : DefinitionRuns ts (.ok d) ts' log) : ∃ kept, Kept close kept ts ts' log ∧
      ∀ us, (kept ++ us).head? = ts.head? ∧ DefinitionRuns (kept ++ us) (.ok d) us [] := by
  cases run with
  | @function t u rest ts₁ ts₂ r log after name run =>
    have marked : Consumes (t :: rest) (u :: ts₁) := after ▸ modifier_consumes _
    obtain ⟨seg,whole,header⟩ := modifier_local after
    obtain ⟨kept,from_,again⟩ := function_mends closes run
    rw [whole] at marked ⊢
    refine ⟨_,Kept.append (.whole [] marked) (Kept.append (.token [] (identifier_more name)) from_),fun us => ?_⟩
    obtain ⟨more,same,after'⟩ := header (kept ++ us)
    have front : (seg ++ u :: ts₁).head? = some t := by rw [← whole]; rfl
    rw [List.append_assoc,List.append_assoc,List.singleton_append,same,front]
    exact ⟨rfl,.function after' name (again us)⟩

theorem file_mends (closes : close.kind = .rBrace) {ts ts' : List Token} {ds : List AstDefinition} {log : List Expected}
    (file : FileRuns ts ds ts' log) : ∃ kept, Kept close kept ts ts' log ∧ FileRuns (kept ++ ts') ds ts' [] := by
  induction file with
  | done atEnd => exact ⟨[],.refl _,.done atEnd⟩
  | @defined t rest ts₁ ts₂ d ds log₁ log₂ more run others ih =>
    obtain ⟨kept,from_,again⟩ := definition_mends closes run
    obtain ⟨kept',from_',file⟩ := ih
    obtain ⟨front,run'⟩ := again (kept' ++ ts₂)
    obtain ⟨ws,whole⟩ := front_of_head front
    refine ⟨kept ++ kept',from_.append from_',?_⟩
    rw [List.append_assoc,whole]
    rw [whole] at run'
    exact .defined more run' file
  | @recovered t rest ts₁ ts₂ ts₃ ds log₁ log₂ more run skipped others ih =>
    obtain ⟨kept,from_,file⟩ := ih
    have dropped : Kept close [] _ _ log₁ := .dropped _ ((definition_consumes run).trans (skipDefinition_consumes skipped))
    exact ⟨kept,dropped.append from_,file⟩

theorem file_repaired {front : List Token} {e : Token} (plain : ∀ t ∈ front, t.kind ≠ .endOfFile) (atEnd : e.kind = .endOfFile)
    (closes : close.kind = .rBrace) : ∃ ds log kept k, FileRuns (front ++ [e]) ds [e] log ∧ kept.Sublist front ∧
      k ≤ log.length ∧ FileRuns (kept ++ List.replicate k close ++ [e]) ds [e] [] := by
  obtain ⟨ds,log,file⟩ := file_whole plain atEnd
  obtain ⟨_,⟨seg,sub,k,whole,_,among,rfl,few,_⟩,mended⟩ := file_mends closes file
  obtain rfl := List.append_cancel_right whole
  exact ⟨ds,log,sub,k,file,among,few,mended⟩

-- Recovery only leaves tokens out and closes what is open at the end of the file: what
-- it returns is what the rest of the tokens gives without a report.
theorem recovery_repairs {front : List Token} {e : Token} (plain : ∀ t ∈ front, t.kind ≠ .endOfFile) (atEnd : e.kind = .endOfFile)
    (closes : close.kind = .rBrace) : ∃ ds log kept k, runParser (front ++ [e]) = .ok ⟨.ok ds,[e],log⟩ ∧
      kept.Sublist front ∧ k ≤ log.length ∧
        runParser (kept ++ List.replicate k close ++ [e]) = .ok ⟨.ok ds,[e],[]⟩ := by
  obtain ⟨ds,log,kept,k,file,among,few,mended⟩ := file_repaired plain atEnd closes
  exact ⟨ds,log,kept,k,runParser_exact.mpr ⟨_,rfl,file⟩,among,few,runParser_exact.mpr ⟨_,rfl,mended⟩⟩

-- `f(){a b;c;{d;`
def openFile : List Token :=
  [.make .identifier 0 1,.fixed .lParen 1,.fixed .rParen 2,.fixed .lBrace 3,.make .identifier 4 1,.make .identifier 6 1,
    .fixed .semicolon 7,.make .identifier 8 1,.fixed .semicolon 9,.fixed .lBrace 10,.make .identifier 11 1,.fixed .semicolon 12]

theorem recovery_repairs_open : ∃ ds log kept k, runParser (openFile ++ [.fixed .endOfFile 13]) = .ok ⟨.ok ds,[.fixed .endOfFile 13],log⟩ ∧
    kept.Sublist openFile ∧ k ≤ log.length ∧
      runParser (kept ++ List.replicate k (.fixed .rBrace 13) ++ [.fixed .endOfFile 13]) = .ok ⟨.ok ds,[.fixed .endOfFile 13],[]⟩ :=
  recovery_repairs (by decide) rfl rfl
end Repair
end Cero.Parser
