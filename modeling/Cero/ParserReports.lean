import Cero.DefinitionTotal

namespace Cero.Parser

-- Reports beyond the tokens used up: one for an error that is still on its way to
-- a handler, and one for a block that the end of the file broke off.
def excess : Task → Reply Form → Nat
  | .block,_ => 1
  | _,.ok _ => 0
  | _,.thrown => 1

theorem skip_paid {ts ts₂ ts₃ : List Token} {es : List AstExpression} {log : List Expected}
    (skipped : skipStatement ts = some (false,ts₂)) (others : Runs .block ts₂ (.ok (.list es)) ts₃ log)
    (paid : log.length + ts₃.length ≤ ts₂.length + 1) : log.length + ts₃.length ≤ ts.length := by
  rcases skip_progress skipped with shorter | ⟨rfl,t,rest,rfl,close⟩
  · omega
  · cases others with
    | blockClose => simp
    | blockNext inside | blockRecover inside | blockEnd inside => exact absurd close inside

theorem runs_paid {task : Task} {ts ts' : List Token} {r : Reply Form} {log : List Expected}
    (run : Runs task ts r ts' log) : log.length + ts'.length ≤ ts.length + excess task r := by
  induction run with
  | blockRecover inside first skipped others ih₁ ih₂ =>
    have paid := skip_paid skipped others ih₂
    simp only [excess,List.length_append] at *; omega
  | blockEnd inside first skipped ih =>
    have bound := (skip_consumed skipped).length
    simp only [excess] at *; omega
  | @statementBlock t rest ts₁ r log brace run ih => cases r <;> exact ih
  | @headTails ts ts₁ ts₂ p e r log₁ log₂ run tails ih₁ ih₂ | @tailsNext ts ts₁ ts₂ p left e r log₁ log₂ attaches run tails ih₁ ih₂ =>
    cases r <;> simp only [excess,List.length_append] at * <;> omega
  | @binary ts ts₁ p op left right log found run ih | @binaryThrown ts ts₁ p op left log found run ih =>
    have shorter := (operator_consumed found).2
    simp only [excess] at *; omega
  | _ => simp only [excess,List.length_append,List.length_cons,List.length_nil] at *; omega

-- Only a definition that failed reports anything in front of its body, and once.
theorem listed_paid {α : Type} {Item : List Token → Reply α → List Token → List Expected → Prop}
    (once : ∀ {ts r ts' log}, Item ts r ts' log → log.length ≤ 1 ∧ ∀ a, r = .ok a → log = []) {ts ts' : List Token}
    {r : Reply (List α)} {log : List Expected} (run : Listed Item ts r ts' log) :
    log.length ≤ 1 ∧ ∀ as, r = .ok as → log = [] := by
  induction run with
  | last run last => exact ⟨(once run).1,fun _ _ => (once run).2 _ rfl⟩
  | next run comma others ih =>
    have first := (once run).2 _ rfl
    have rest := ih.2 _ rfl
    exact ⟨by simp [first,rest],fun _ _ => by simp [first,rest]⟩
  | nextThrown run comma others ih =>
    have first := (once run).2 _ rfl
    exact ⟨by simpa [first] using ih.1,fun _ impossible => by cases impossible⟩
  | thrown run => exact ⟨(once run).1,fun _ impossible => by cases impossible⟩

theorem parameter_once {ts ts' : List Token} {r : Reply AstFunctionParameter} {log : List Expected}
    (run : ParameterRuns ts r ts' log) : log.length ≤ 1 ∧ ∀ p, r = .ok p → log = [] := by
  cases run <;> simp

theorem output_once {ts ts' : List Token} {r : Reply AstFunctionOutput} {log : List Expected}
    (run : OutputRuns ts r ts' log) : log.length ≤ 1 ∧ ∀ o, r = .ok o → log = [] := by
  cases run <;> simp

theorem parameters_once {ts ts' : List Token} {r : Reply (List AstFunctionParameter)} {log : List Expected}
    (run : ParametersRun ts r ts' log) : log.length ≤ 1 ∧ ∀ ps, r = .ok ps → log = [] := by
  cases run with
  | empty close => simp
  | closed some run close => exact listed_paid parameter_once run
  | unclosed some run other =>
    have silent := (listed_paid parameter_once run).2 _ rfl
    exact ⟨by simp [silent],fun _ impossible => by cases impossible⟩
  | thrown some run => exact listed_paid parameter_once run

theorem outputs_once {ts ts' : List Token} {r : Reply (List AstFunctionOutput)} {log : List Expected}
    (run : OutputsRun ts r ts' log) : log.length ≤ 1 ∧ ∀ os, r = .ok os → log = [] := by
  cases run with
  | none noArrow => simp
  | some arrow run => exact listed_paid output_once run

theorem function_paid {offset : BitVec sourceSizeBits} {modifier : AccessModifier} {name : Token}
    {ts ts' : List Token} {r : Reply AstDefinition} {log : List Expected}
    (run : FunctionRuns offset modifier name ts r ts' log) :
    (r = .thrown → log.length ≤ 1) ∧ ∀ d, r = .ok d → log.length + ts'.length ≤ ts.length := by
  cases run with
  | noParen other => simp
  | parametersThrown paren run => exact ⟨fun _ => (parameters_once run).1,fun _ impossible => by cases impossible⟩
  | outputsThrown paren run outputs =>
    have silent := (parameters_once run).2 _ rfl
    exact ⟨fun _ => by simpa [silent] using (outputs_once outputs).1,fun _ impossible => by cases impossible⟩
  | noBody paren run outputs other =>
    have silent := (parameters_once run).2 _ rfl
    have silent' := (outputs_once outputs).2 _ rfl
    exact ⟨fun _ => by simp [silent,silent'],fun _ impossible => by cases impossible⟩
  | body paren run outputs brace block =>
    have silent := (parameters_once run).2 _ rfl
    have silent' := (outputs_once outputs).2 _ rfl
    have bound := (parameters_consume run).length
    have bound' := (outputs_consume outputs).length
    have paid := runs_paid block
    refine ⟨fun impossible => (by cases impossible),fun _ _ => ?_⟩
    simp only [excess,silent,silent',List.nil_append,List.length_cons] at *; omega

theorem definition_paid {ts ts' : List Token} {r : Reply AstDefinition} {log : List Expected}
    (run : DefinitionRuns ts r ts' log) :
    (r = .thrown → log.length ≤ 1) ∧ ∀ d, r = .ok d → log.length + ts'.length ≤ ts.length := by
  cases run with
  | noName after other => simp
  | @function t u rest ts₁ ts₂ r log after name run =>
    have header := (modifier_consumes (t :: rest)).length
    rw [after,List.length_cons] at header
    refine ⟨(function_paid run).1,fun d returned => ?_⟩
    have paid := (function_paid run).2 d returned
    omega

theorem file_paid {ts ts' : List Token} {ds : List AstDefinition} {log : List Expected}
    (file : FileRuns ts ds ts' log) : log.length + ts'.length ≤ ts.length := by
  induction file with
  | done atEnd => simp
  | defined more run others ih =>
    have paid := (definition_paid run).2 _ rfl
    simp only [List.length_append] at *; omega
  | recovered more run skipped others ih =>
    have once := (definition_paid run).1 rfl
    have shorter := redefine_progress more (definition_consumes run) skipped
    simp only [List.length_append,List.length_cons] at *; omega

-- Every token list that ends in its only end of file is parsed up to that token
-- without a fault, and more fuel changes nothing.
theorem parser_terminates {tokens : List Token} (ends : Terminated tokens) : ∃ definitions front e log,
    runParser tokens = .ok ⟨.ok definitions,[e],log⟩ ∧ tokens = front ++ [e] ∧ e.kind = .endOfFile ∧
      log.length ≤ tokens.length ∧ ∀ fuel, enoughFuel tokens ≤ fuel → run fuel tokens = runParser tokens := by
  obtain ⟨ds,ts',log,file⟩ := file_total ends
  obtain ⟨consumed,e,rest,rfl,atEnd⟩ := file_ends file
  obtain rfl := (ends.consumed consumed).last atEnd
  obtain ⟨front,whole,_⟩ := consumed
  have paid := file_paid file
  have parsed : ∀ fuel, enoughFuel tokens ≤ fuel → run fuel tokens = .ok ⟨.ok ds,[e],log⟩ := by
    intro fuel enough
    rw [enoughFuel] at enough
    exact file_complete file (by omega)
  refine ⟨ds,front,e,log,parsed _ (Nat.le_refl _),whole,atEnd,by omega,fun fuel enough => ?_⟩
  rw [parsed fuel enough,runParser,parsed _ (Nat.le_refl _)]

-- `f() { return x`, broken off by the end of the file.
def unclosedBody : List Token :=
  [.make .identifier 0 1,.fixed .lParen 1,.fixed .rParen 2,.fixed .lBrace 4,.fixed .kwReturn 6,
    .make .identifier 13 1,.fixed .endOfFile 14]

theorem parser_terminates_unclosed : ∃ definitions front e log,
    runParser unclosedBody = .ok ⟨.ok definitions,[e],log⟩ ∧ unclosedBody = front ++ [e] ∧ e.kind = .endOfFile ∧
      log.length ≤ unclosedBody.length ∧
      ∀ fuel, enoughFuel unclosedBody ≤ fuel → run fuel unclosedBody = runParser unclosedBody :=
  parser_terminates ⟨unclosedBody.dropLast,.fixed .endOfFile 14,rfl,rfl,by decide⟩
end Cero.Parser
