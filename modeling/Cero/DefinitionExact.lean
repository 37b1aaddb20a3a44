import Cero.DefinitionRules

namespace Cero.Parser
open Effect TokenCursor

-- One item of a comma list as its function runs it.
def Yields {α : Type} (m : Parser α) (ts : List Token) (r : Reply α) (ts' : List Token) (log : List Expected) : Prop :=
  m ts = .ok ⟨r,ts',log⟩

theorem doWhileComma_sound {α : Type} {item : Parser α} {Item : List Token → Reply α → List Token → List Expected → Prop}
    (exact : ∀ {ts r ts' log}, Yields item ts r ts' log → Item ts r ts' log) {rounds : Nat} {ts ts' : List Token}
    {r : Reply (List α)} {log : List Expected} (ran : doWhileComma item rounds ts = .ok ⟨r,ts',log⟩) :
    Listed Item ts r ts' log := by
  induction rounds generalizing ts r log with
  | zero => cases ran
  | succ rounds ih =>
    rw [doWhileComma] at ran
    rcases bind_parts ran with ⟨thrown,rfl⟩ | ⟨a,ts₁,log₁,log₂,first,second,rfl⟩
    · exact .thrown (exact thrown)
    cases ts₁ with
    | nil => simp [bind_run,matchKind_nil] at second
    | cons u rest =>
      by_cases comma : u.kind = .comma
      · rw [bind_ok (matchKind_same comma (by decide)),map_after_nil] at second
        simp only [if_true] at second
        rcases bind_parts second with ⟨thrown,rfl⟩ | ⟨others,ts₂,log₂,log₃,third,fourth,rfl⟩
        · exact .nextThrown (exact first) comma (ih thrown)
        · cases fourth
          simpa using Listed.next (exact first) comma (ih third)
      · rw [bind_ok (matchKind_other comma)] at second
        cases second
        simpa using Listed.last (exact first) comma

theorem doWhileComma_complete {α : Type} {item : Parser α}
    {Item : List Token → Reply α → List Token → List Expected → Prop}
    (exact : ∀ {ts r ts' log}, Item ts r ts' log → Yields item ts r ts' log)
    (consumes : ∀ {ts r ts' log}, Item ts r ts' log → ts'.length ≤ ts.length ∧ 0 < ts.length) {ts ts' : List Token}
    {r : Reply (List α)} {log : List Expected} (run : Listed Item ts r ts' log) {rounds : Nat}
    (counted : ts.length ≤ rounds) : doWhileComma item rounds ts = .ok ⟨r,ts',log⟩ := by
  induction run generalizing rounds with
  | last run last =>
    have bound := consumes run
    obtain _ | rounds := rounds
    · omega
    rw [doWhileComma,bind_ok (exact run),bind_ok (matchKind_other last)]; simp
  | @next ts ts₁ ts₂ u a as log₁ log₂ run comma others ih =>
    have bound := consumes run
    simp only [List.length_cons] at bound
    obtain _ | rounds := rounds
    · omega
    have loop : doWhileComma item rounds ts₁ = _ := ih (by omega)
    rw [doWhileComma,bind_ok (exact run),bind_ok (matchKind_same comma (by decide))]
    simp [bind_ok loop]
  | @nextThrown ts ts₁ ts₂ u a log₁ log₂ run comma others ih =>
    have bound := consumes run
    simp only [List.length_cons] at bound
    obtain _ | rounds := rounds
    · omega
    have loop : doWhileComma item rounds ts₁ = _ := ih (by omega)
    rw [doWhileComma,bind_ok (exact run),bind_ok (matchKind_same comma (by decide))]
    simp [bind_thrown loop]
  | thrown run =>
    have bound := consumes run
    obtain _ | rounds := rounds
    · omega
    rw [doWhileComma,bind_thrown (exact run)]

theorem ofExcept_ok {α : Type} {a : α} {ts : List Token} : (ofExcept (.ok a) : Parser α) ts = .ok ⟨.ok a,ts,[]⟩ := rfl

theorem fromToken_ok {t : Token} (kind : t.kind = .identifier) :
    AstName.fromToken t = .ok ⟨t.offset.toNat,t.variableLength⟩ := if_pos kind

theorem parseType_same {t : Token} {rest : List Token} {message : Message} (kind : t.kind = .identifier) :
    parseType message (t :: rest) = .ok ⟨.ok (.ident t.offset t.variableLength),rest,[]⟩ := by
  rw [parseType,bind_ok peekKind_run,if_pos kind,onIdentifier,bind_ok (next_run (kind_more kind (by decide)))]; rfl

theorem parseType_other {t : Token} {rest : List Token} {message : Message} (other : t.kind ≠ .identifier) :
    parseType message (t :: rest) = .ok ⟨.thrown,t :: rest,[⟨message,t⟩]⟩ := by
  rw [parseType,bind_ok peekKind_run,if_neg other]; rfl

theorem expectIdentifier_same {t : Token} {rest : List Token} {message : Message} (kind : t.kind = .identifier) :
    expectIdentifier message (t :: rest) = .ok ⟨.ok ⟨t.offset.toNat,t.variableLength⟩,rest,[]⟩ := by
  rw [expectIdentifier,bind_ok (matchToken_same kind (by decide))]
  simp [fromToken_ok kind,ofExcept_ok]

theorem expectIdentifier_other {t : Token} {rest : List Token} {message : Message} (other : t.kind ≠ .identifier) :
    expectIdentifier message (t :: rest) = .ok ⟨.ok .none,t :: rest,[⟨message,t⟩]⟩ := by
  rw [expectIdentifier,bind_ok (matchToken_other other)]; rfl

theorem parameter_exact {ts ts' : List Token} {r : Reply AstFunctionParameter} {log : List Expected} :
    Yields parseFunctionDefinitionParameter ts r ts' log ↔ ParameterRuns ts r ts' log := by
  constructor
  · intro ran
    unfold Yields parseFunctionDefinitionParameter at ran
    cases ts with
    | nil => cases ran
    | cons t rest =>
      rw [bind_ok peekOffset_run,map_after_nil] at ran
      by_cases type : t.kind = .identifier
      · rw [bind_ok (parseType_same type),map_after_nil] at ran
        cases rest with
        | nil => cases ran
        | cons u rest =>
          by_cases name : u.kind = .identifier
          · rw [bind_ok (expectIdentifier_same name),map_after_nil] at ran
            by_cases empty : u.variableLength = 0
            · simp only [AstName.isEmpty,empty] at ran
              cases ran; exact .nameEmpty type name empty
            · have long : (AstName.isEmpty ⟨u.offset.toNat,u.variableLength⟩) = false := by simp [AstName.isEmpty,empty]
              rw [long] at ran
              cases ran; exact .named type name empty
          · rw [bind_ok (expectIdentifier_other name)] at ran
            cases ran; exact .noName type name
      · rw [bind_thrown (parseType_other type)] at ran
        cases ran; exact .noType type
  · intro run
    unfold Yields parseFunctionDefinitionParameter
    cases run with
    | @named t u rest type name long =>
      have isLong : (AstName.isEmpty ⟨u.offset.toNat,u.variableLength⟩) = false := by simp [AstName.isEmpty,long]
      rw [bind_ok peekOffset_run,bind_ok (parseType_same type),bind_ok (expectIdentifier_same name),isLong]; rfl
    | @nameEmpty t u rest type name empty =>
      have isEmpty : (AstName.isEmpty ⟨u.offset.toNat,u.variableLength⟩) = true := by simp [AstName.isEmpty,empty]
      rw [bind_ok peekOffset_run,bind_ok (parseType_same type),bind_ok (expectIdentifier_same name),isEmpty]; rfl
    | noName type other =>
      rw [bind_ok peekOffset_run,bind_ok (parseType_same type),bind_ok (expectIdentifier_other other)]; rfl
    | noType other => rw [bind_ok peekOffset_run,bind_thrown (parseType_other other)]; rfl

theorem output_exact {ts ts' : List Token} {r : Reply AstFunctionOutput} {log : List Expected} :
    Yields parseFunctionDefinitionOutput ts r ts' log ↔ OutputRuns ts r ts' log := by
  constructor
  · intro ran
    unfold Yields parseFunctionDefinitionOutput at ran
    cases ts with
    | nil => cases ran
    | cons t rest =>
      rw [bind_ok peekOffset_run,map_after_nil] at ran
      by_cases type : t.kind = .identifier
      · rw [bind_ok (parseType_same type)] at ran
        cases ran; exact .typed type
      · rw [bind_thrown (parseType_other type)] at ran
        cases ran; exact .noType type
  · intro run
    unfold Yields parseFunctionDefinitionOutput
    cases run with
    | typed type => rw [bind_ok peekOffset_run,bind_ok (parseType_same type)]; rfl
    | noType other => rw [bind_ok peekOffset_run,bind_thrown (parseType_other other)]; rfl

theorem identifier_more {t : Token} (kind : t.kind = .identifier) : t.kind ≠ .endOfFile := kind_more kind (by decide)

theorem parameter_consumes {ts ts' : List Token} {r : Reply AstFunctionParameter} {log : List Expected}
    (run : ParameterRuns ts r ts' log) : Consumes ts ts' ∧ 0 < ts.length := by
  cases run with
  | named type name long => exact ⟨.cons (identifier_more type) (.one (identifier_more name)),by simp⟩
  | nameEmpty type name empty => exact ⟨.cons (identifier_more type) (.one (identifier_more name)),by simp⟩
  | noName type other => exact ⟨.one (identifier_more type),by simp⟩
  | noType other => exact ⟨.refl _,by simp⟩

theorem output_consumes {ts ts' : List Token} {r : Reply AstFunctionOutput} {log : List Expected}
    (run : OutputRuns ts r ts' log) : Consumes ts ts' ∧ 0 < ts.length := by
  cases run with
  | typed type => exact ⟨.one (identifier_more type),by simp⟩
  | noType other => exact ⟨.refl _,by simp⟩

theorem listed_consumes {α : Type} {Item : List Token → Reply α → List Token → List Expected → Prop}
    (consumes : ∀ {ts r ts' log}, Item ts r ts' log → Consumes ts ts' ∧ 0 < ts.length) {ts ts' : List Token}
    {r : Reply (List α)} {log : List Expected} (run : Listed Item ts r ts' log) : Consumes ts ts' := by
  induction run with
  | last run last => exact (consumes run).1
  | next run comma others ih | nextThrown run comma others ih =>
    exact (consumes run).1.trans (.cons (kind_more comma (by decide)) ih)
  | thrown run => exact (consumes run).1

theorem parameters_consume {ts ts' : List Token} {r : Reply (List AstFunctionParameter)} {log : List Expected}
    (run : ParametersRun ts r ts' log) : Consumes ts ts' := by
  cases run with
  | empty close => exact .one (kind_more close (by decide))
  | closed some run close =>
    exact (listed_consumes parameter_consumes run).trans (.one (kind_more close (by decide)))
  | unclosed some run other => exact listed_consumes parameter_consumes run
  | thrown some run => exact listed_consumes parameter_consumes run

theorem outputs_consume {ts ts' : List Token} {r : Reply (List AstFunctionOutput)} {log : List Expected}
    (run : OutputsRun ts r ts' log) : Consumes ts ts' := by
  cases run with
  | none noArrow => exact .refl _
  | some arrow run => exact .cons (kind_more arrow (by decide)) (listed_consumes output_consumes run)

theorem function_consumes {offset : BitVec sourceSizeBits} {modifier : AccessModifier} {name : Token}
    {ts ts' : List Token} {r : Reply AstDefinition} {log : List Expected}
    (run : FunctionRuns offset modifier name ts r ts' log) : Consumes ts ts' := by
  cases run with
  | noParen other => exact .refl _
  | parametersThrown paren run => exact .cons (kind_more paren (by decide)) (parameters_consume run)
  | outputsThrown paren run outputs =>
    exact .cons (kind_more paren (by decide)) ((parameters_consume run).trans (outputs_consume outputs))
  | noBody paren run outputs other =>
    exact .cons (kind_more paren (by decide)) ((parameters_consume run).trans (outputs_consume outputs))
  | body paren run outputs brace block =>
    have body := Consumes.cons (kind_more brace (by decide)) (runs_consume block).1
    exact .cons (kind_more paren (by decide)) ((parameters_consume run).trans ((outputs_consume outputs).trans body))

theorem modifier_more {t : Token} (marked : modifierOf t.kind ≠ .none) : t.kind ≠ .endOfFile := by
  intro same; rw [same] at marked; exact marked rfl

theorem modifier_consumes (ts : List Token) : Consumes ts (afterModifier ts) := by
  cases ts with
  | nil => exact .refl _
  | cons t rest =>
    rw [afterModifier]
    split
    · exact .refl _
    · rename_i marked; exact .one (modifier_more marked)

theorem definition_consumes {ts ts' : List Token} {r : Reply AstDefinition} {log : List Expected}
    (run : DefinitionRuns ts r ts' log) : Consumes ts ts' := by
  cases run with
  | noName after other => exact after ▸ modifier_consumes _
  | @function t u rest ts₁ ts₂ r log after name run =>
    have header : Consumes (t :: rest) (u :: ts₁) := after ▸ modifier_consumes _
    exact header.trans (.cons (identifier_more name) (function_consumes run))

theorem marked_consumes {ts ts' : List Token} (found : firstMarked ts = some ts') : Consumes ts ts' := by
  induction ts with
  | nil => cases found
  | cons t rest ih =>
    rw [firstMarked] at found
    split at found
    · cases found; exact .refl _
    · rename_i unmarked
      exact .cons (fun same => unmarked (by rw [same]; decide)) (ih found)

theorem skipDefinition_consumes {ts ts' : List Token} (found : skipDefinition ts = some ts') : Consumes ts ts' := by
  cases ts with
  | nil => cases found
  | cons t rest =>
    rw [skipDefinition] at found
    split at found
    · cases found; exact .refl _
    · rename_i more; exact .cons more (marked_consumes found)

theorem skipDefinition_total {ts : List Token} (ends : Terminated ts) : ∃ ts', skipDefinition ts = some ts' := by
  have marked : ∀ ts, Terminated ts → ∃ ts', firstMarked ts = some ts' := by
    intro ts ends
    induction ts with
    | nil => obtain ⟨_,_,impossible⟩ := ends.cons; cases impossible
    | cons t rest ih =>
      rw [firstMarked]
      split
      · exact ⟨_,rfl⟩
      · rename_i unmarked
        exact ih (ends.tail (fun same => unmarked (by rw [same]; decide)))
  obtain ⟨t,rest,rfl⟩ := ends.cons
  rw [skipDefinition]
  split
  · exact ⟨_,rfl⟩
  · rename_i more; exact marked rest (ends.tail more)

-- A definition that failed and was skipped has moved the file on.
theorem redefine_progress {t : Token} {rest ts₁ ts₂ : List Token} (more : t.kind ≠ .endOfFile)
    (consumed : Consumes (t :: rest) ts₁) (skipped : skipDefinition ts₁ = some ts₂) : ts₂.length ≤ rest.length := by
  obtain ⟨seg,same,_⟩ := consumed
  have onward := (skipDefinition_consumes skipped).length
  cases seg with
  | nil =>
    cases same
    rw [skipDefinition,if_neg more] at skipped
    exact (marked_consumes skipped).length
  | cons u seg =>
    simp only [List.cons_append,List.cons.injEq] at same
    rw [same.2,List.length_append]; omega

theorem parameters_sound {ts ts' : List Token} {n : Nat} {r : Reply (List AstFunctionParameter)} {log : List Expected}
    (ran : parseFunctionDefinitionParameters n ts = .ok ⟨r,ts',log⟩) : ParametersRun ts r ts' log := by
  rw [parseFunctionDefinitionParameters] at ran
  cases ts with
  | nil => cases ran
  | cons t rest =>
    by_cases close : t.kind = .rParen
    · rw [bind_ok (matchKind_same close (by decide))] at ran
      cases ran; exact .empty close
    rw [bind_ok (matchKind_other close),map_after_nil] at ran
    simp only [Bool.false_eq_true,if_false] at ran
    rcases bind_parts ran with ⟨thrown,rfl⟩ | ⟨ps,ts₁,log₁,log₂,first,second,rfl⟩
    · exact .thrown close (doWhileComma_sound parameter_exact.mp thrown)
    have listed := doWhileComma_sound parameter_exact.mp first
    rcases bind_parts second with ⟨thrown,rfl⟩ | ⟨_,ts₂,log₂,log₃,closed,third,rfl⟩
    · obtain ⟨u,rest₁,rfl,⟨_,impossible,_⟩ | ⟨other,_,rfl,rfl⟩⟩ := expect_parts (by decide) thrown
      · cases impossible
      · exact .unclosed close listed other
    · obtain ⟨u,rest₁,rfl,⟨same,_,rfl,rfl⟩ | ⟨_,impossible,_⟩⟩ := expect_parts (by decide) closed
      · cases third; simpa using ParametersRun.closed close listed same
      · cases impossible

theorem parameters_complete {ts ts' : List Token} {n : Nat} {r : Reply (List AstFunctionParameter)}
    {log : List Expected} (run : ParametersRun ts r ts' log) (counted : ts.length ≤ n) :
    parseFunctionDefinitionParameters n ts = .ok ⟨r,ts',log⟩ := by
  have loop {ts ts' : List Token} {r : Reply (List AstFunctionParameter)} {log : List Expected}
      (run : Listed ParameterRuns ts r ts' log) (counted : ts.length ≤ n) :
      doWhileComma parseFunctionDefinitionParameter n ts = .ok ⟨r,ts',log⟩ :=
    doWhileComma_complete parameter_exact.mpr
      (fun run => ⟨(parameter_consumes run).1.length,(parameter_consumes run).2⟩) run counted
  rw [parseFunctionDefinitionParameters]
  cases run with
  | empty close => rw [bind_ok (matchKind_same close (by decide))]; rfl
  | closed some run close =>
    rw [bind_ok (matchKind_other some)]
    simp [bind_ok (loop run counted),bind_ok (expect_same close (by decide))]
  | unclosed some run other =>
    rw [bind_ok (matchKind_other some)]
    simp [bind_ok (loop run counted),bind_thrown (expect_other other)]
  | thrown some run =>
    rw [bind_ok (matchKind_other some)]
    simp [bind_thrown (loop run counted)]

theorem outputs_sound {ts ts' : List Token} {n : Nat} {r : Reply (List AstFunctionOutput)} {log : List Expected}
    (ran : parseFunctionDefinitionOutputs n ts = .ok ⟨r,ts',log⟩) : OutputsRun ts r ts' log := by
  rw [parseFunctionDefinitionOutputs] at ran
  cases ts with
  | nil => cases ran
  | cons t rest =>
    by_cases arrow : t.kind = .thinArrow
    · rw [bind_ok (matchKind_same arrow (by decide)),map_after_nil] at ran
      exact .some arrow (doWhileComma_sound output_exact.mp ran)
    · rw [bind_ok (matchKind_other arrow)] at ran
      cases ran; exact .none arrow

theorem outputs_complete {ts ts' : List Token} {n : Nat} {r : Reply (List AstFunctionOutput)} {log : List Expected}
    (run : OutputsRun ts r ts' log) (counted : ts.length ≤ n) :
    parseFunctionDefinitionOutputs n ts = .ok ⟨r,ts',log⟩ := by
  rw [parseFunctionDefinitionOutputs]
  cases run with
  | none noArrow => rw [bind_ok (matchKind_other noArrow)]; rfl
  | some arrow run =>
    rw [bind_ok (matchKind_same arrow (by decide)),map_after_nil]
    simp only [List.length_cons] at counted
    exact doWhileComma_complete output_exact.mpr
      (fun run => ⟨(output_consumes run).1.length,(output_consumes run).2⟩) run (by omega)

theorem function_sound {offset : BitVec sourceSizeBits} {modifier : AccessModifier} {name : Token}
    {ts ts' : List Token} {n : Nat} {r : Reply AstDefinition} {log : List Expected} (kind : name.kind = .identifier)
    (ran : parseFunctionDefinition offset modifier name n ts = .ok ⟨r,ts',log⟩) :
    FunctionRuns offset modifier name ts r ts' log := by
  rw [parseFunctionDefinition,fromToken_ok kind,bind_ok ofExcept_ok,map_after_nil] at ran
  rcases bind_parts ran with ⟨thrown,rfl⟩ | ⟨_,ts₁,log₁,log₂,opened,ran₁,rfl⟩
  · obtain ⟨t,rest,rfl,⟨_,impossible,_⟩ | ⟨other,_,rfl,rfl⟩⟩ := expect_parts (by decide) thrown
    · cases impossible
    · exact .noParen other
  obtain ⟨t,rest₁,rfl,⟨paren,_,rfl,rfl⟩ | ⟨_,impossible,_⟩⟩ := expect_parts (by decide) opened
  swap
  · cases impossible
  rcases bind_parts ran₁ with ⟨thrown,rfl⟩ | ⟨ps,ts₂,log₂,log₃,first,ran₂,rfl⟩
  · simpa using FunctionRuns.parametersThrown paren (parameters_sound thrown)
  have parameters := parameters_sound first
  rcases bind_parts ran₂ with ⟨thrown,rfl⟩ | ⟨os,ts₃,log₃,log₄,second,ran₃,rfl⟩
  · simpa using FunctionRuns.outputsThrown paren parameters (outputs_sound thrown)
  have outputs := outputs_sound second
  rcases bind_parts ran₃ with ⟨thrown,rfl⟩ | ⟨_,ts₄,log₄,log₅,braced,ran₄,rfl⟩
  · obtain ⟨u,rest₁,rfl,⟨_,impossible,_⟩ | ⟨other,_,rfl,rfl⟩⟩ := expect_parts (by decide) thrown
    · cases impossible
    · simpa using FunctionRuns.noBody paren parameters outputs other
  obtain ⟨u,rest₁,rfl,⟨brace,_,rfl,rfl⟩ | ⟨_,impossible,_⟩⟩ := expect_parts (by decide) braced
  swap
  · cases impossible
  rcases bind_parts ran₄ with ⟨thrown,rfl⟩ | ⟨es,ts₅,log₅,log₆,third,ran₅,rfl⟩
  · obtain ⟨_,impossible⟩ := block_returns (sound n .block 0 _ _ _ _ ⟨_,thrown,rfl⟩)
    cases impossible
  · have block := sound n .block 0 _ _ _ _ ⟨_,third,rfl⟩
    cases ran₅
    simpa using FunctionRuns.body paren parameters outputs brace block

theorem function_complete {offset : BitVec sourceSizeBits} {modifier : AccessModifier} {name : Token}
    {ts ts' : List Token} {n : Nat} {r : Reply AstDefinition} {log : List Expected} (kind : name.kind = .identifier)
    (run : FunctionRuns offset modifier name ts r ts' log) (fuel : 8 * ts.length ≤ n) :
    parseFunctionDefinition offset modifier name n ts = .ok ⟨r,ts',log⟩ := by
  rw [parseFunctionDefinition,fromToken_ok kind,bind_ok ofExcept_ok,map_after_nil]
  cases run with
  | noParen other => exact bind_thrown (expect_other other)
  | parametersThrown paren run =>
    simp only [List.length_cons] at fuel
    rw [bind_ok (expect_same paren (by decide)),map_after_nil]
    exact bind_thrown (parameters_complete run (by omega))
  | outputsThrown paren run outputs =>
    simp only [List.length_cons] at fuel
    have shorter := (parameters_consume run).length
    rw [bind_ok (expect_same paren (by decide)),map_after_nil,bind_ok (parameters_complete run (by omega)),
      bind_thrown (outputs_complete outputs (by omega))]
    rfl
  | noBody paren run outputs other =>
    simp only [List.length_cons] at fuel
    have shorter := (parameters_consume run).length
    rw [bind_ok (expect_same paren (by decide)),map_after_nil,bind_ok (parameters_complete run (by omega)),
      bind_ok (outputs_complete outputs (by omega)),bind_thrown (expect_other other)]
    simp
  | @body t u rest ts₁ ts₂ ts₃ ps os es log₁ log₂ log₃ paren run outputs brace block =>
    have shorter := (parameters_consume run).length
    have shorter' := (outputs_consume outputs).length
    simp only [List.length_cons] at fuel shorter'
    obtain ⟨_ | _,body,⟨⟩⟩ := complete block n n (by simp only [need,rank]; omega) (by omega)
    rw [bind_ok (expect_same paren (by decide)),map_after_nil,bind_ok (parameters_complete run (by omega)),
      bind_ok (outputs_complete outputs (by omega)),bind_ok (expect_same brace (by decide)),bind_ok body]
    simp

theorem parseAccessModifier_run {t : Token} {rest : List Token} :
    parseAccessModifier (t :: rest) = .ok ⟨.ok (modifierOf t.kind),afterModifier (t :: rest),[]⟩ := by
  rw [parseAccessModifier]
  by_cases isPrivate : t.kind = .kwPrivate
  · rw [bind_ok (matchKind_same isPrivate (by decide)),afterModifier,isPrivate]; rfl
  by_cases isPublic : t.kind = .kwPublic
  · rw [bind_ok (matchKind_other isPrivate),map_after_nil]
    simp only [Bool.false_eq_true,if_false]
    rw [bind_ok (matchKind_same isPublic (by decide)),afterModifier,isPublic]; rfl
  · have none : modifierOf t.kind = .none := by unfold modifierOf; split <;> simp_all
    rw [bind_ok (matchKind_other isPrivate),map_after_nil]
    simp only [Bool.false_eq_true,if_false]
    rw [bind_ok (matchKind_other isPublic),afterModifier,none]; rfl

theorem definition_sound {ts ts' : List Token} {n : Nat} {r : Reply AstDefinition} {log : List Expected}
    (ran : parseDefinition n ts = .ok ⟨r,ts',log⟩) : DefinitionRuns ts r ts' log := by
  rw [parseDefinition] at ran
  cases ts with
  | nil => cases ran
  | cons t rest =>
    rw [bind_ok peekOffset_run,map_after_nil,bind_ok parseAccessModifier_run,map_after_nil] at ran
    cases after : afterModifier (t :: rest) with
    | nil => rw [after] at ran; cases ran
    | cons u ts₁ =>
      rw [after] at ran
      by_cases name : u.kind = .identifier
      · rw [bind_ok (matchToken_same name (by decide)),map_after_nil] at ran
        exact .function after name (function_sound name ran)
      · rw [bind_ok (matchToken_other name)] at ran
        cases ran; exact .noName after name

theorem definition_complete {ts ts' : List Token} {n : Nat} {r : Reply AstDefinition} {log : List Expected}
    (run : DefinitionRuns ts r ts' log) (fuel : 8 * ts.length ≤ n) : parseDefinition n ts = .ok ⟨r,ts',log⟩ := by
  rw [parseDefinition]
  cases run with
  | noName after other =>
    rw [bind_ok peekOffset_run,map_after_nil,bind_ok parseAccessModifier_run,map_after_nil,after,
      bind_ok (matchToken_other other)]
    rfl
  | @function t u rest ts₁ ts₂ r log after name run =>
    have shorter := (modifier_consumes (t :: rest)).length
    rw [after,List.length_cons] at shorter
    rw [bind_ok peekOffset_run,map_after_nil,bind_ok parseAccessModifier_run,map_after_nil,after,
      bind_ok (matchToken_same name (by decide)),map_after_nil]
    exact function_complete name run (by omega)

theorem recoverAtDefinitionLevel_run {ts ts' : List Token} (skipped : skipDefinition ts = some ts') :
    recoverAtDefinitionLevel ts = .ok ⟨.ok (),ts',[]⟩ := by
  rw [recoverAtDefinitionLevel,bind_ok get_run,map_after_nil]
  generalize enough : ts.length + 1 = rounds
  have bound : ts.length < rounds := by omega
  clear enough
  induction ts generalizing rounds with
  | nil => cases skipped
  | cons t rest ih =>
    obtain _ | rounds := rounds
    · exact absurd bound (Nat.not_lt_zero _)
    rw [skipDefinition] at skipped
    rw [iterate]
    by_cases atEnd : t.kind = .endOfFile
    · rw [if_pos atEnd] at skipped
      cases skipped
      have marked : TokenKind.endOfFile ∈ recoveryTokens := by decide
      simp [bind_run,advance_end atEnd,atEnd,marked]
    · rw [if_neg atEnd] at skipped
      simp only [bind_run,advance_run atEnd]
      cases rest with
      | nil => cases skipped
      | cons u rest =>
        rw [firstMarked] at skipped
        split at skipped
        · rename_i marked
          cases skipped
          simp [marked]
        · rename_i unmarked
          have more : u.kind ≠ .endOfFile := fun same => unmarked (by rw [same]; decide)
          have onward := ih (by rw [skipDefinition,if_neg more]; exact skipped) rounds (by simpa using bound)
          simp [unmarked,onward]

theorem recoverAtDefinitionLevel_parts {ts ts' : List Token} {r : Reply Unit} {log : List Expected}
    (ran : recoverAtDefinitionLevel ts = .ok ⟨r,ts',log⟩) : log = [] ∧ skipDefinition ts = some ts' ∧ r = .ok () := by
  cases skipped : skipDefinition ts with
  | some found =>
    rw [recoverAtDefinitionLevel_run skipped] at ran
    cases ran; exact ⟨rfl,rfl,rfl⟩
  | none =>
    rw [recoverAtDefinitionLevel,bind_ok get_run,map_after_nil] at ran
    generalize ts.length + 1 = rounds at ran
    induction ts generalizing rounds with
    | nil => cases rounds <;> cases ran
    | cons t rest ih =>
      obtain _ | rounds := rounds
      · cases ran
      rw [skipDefinition] at skipped
      split at skipped
      · cases skipped
      rename_i more
      rw [iterate] at ran
      simp only [bind_run,advance_run more] at ran
      cases rest with
      | nil => cases ran
      | cons u rest =>
        rw [firstMarked] at skipped
        split at skipped
        · cases skipped
        rename_i unmarked
        have more' : u.kind ≠ .endOfFile := fun same => unmarked (by rw [same]; decide)
        simp only [peekKind_run,unmarked,if_false,pure_run,map_ok,after_mk,List.append_nil,map_after_nil] at ran
        exact ih (by rw [skipDefinition,if_neg more']; exact skipped) rounds ran

theorem file_sound {ts ts' : List Token} {n : Nat} {r : Reply (List AstDefinition)} {log : List Expected}
    (ran : run n ts = .ok ⟨r,ts',log⟩) : ∃ ds, r = .ok ds ∧ FileRuns ts ds ts' log := by
  induction n generalizing ts r ts' log with
  | zero => cases ran
  | succ n ih =>
    rw [run] at ran
    cases ts with
    | nil => cases ran
    | cons t rest =>
      by_cases atEnd : t.kind = .endOfFile
      · have stays : (matchKind .endOfFile : Parser Bool) (t :: rest) = .ok ⟨.ok true,t :: rest,[]⟩ := by
          simp [matchKind,bind_run,atEnd,advance_end atEnd]
        rw [bind_ok stays] at ran
        cases ran; exact ⟨_,rfl,.done atEnd⟩
      rw [bind_ok (matchKind_other atEnd),map_after_nil] at ran
      simp only [Bool.false_eq_true,if_false] at ran
      rcases bind_parts ran with ⟨never,_⟩ | ⟨tried,ts₁,log₁,log₂,first,second,rfl⟩
      · rcases attempt_parts never with ⟨_,impossible⟩ | ⟨_,_,impossible⟩ <;> cases impossible
      rcases attempt_parts first with ⟨thrown,caught⟩ | ⟨definition,returned,caught⟩
      · cases caught
        rcases bind_parts second with ⟨never,_⟩ | ⟨_,ts₂,log₂,log₃,skipped,third,rfl⟩
        · obtain ⟨_,_,impossible⟩ := recoverAtDefinitionLevel_parts never
          cases impossible
        obtain ⟨rfl,found,_⟩ := recoverAtDefinitionLevel_parts skipped
        obtain ⟨ds,rfl,others⟩ := ih third
        exact ⟨ds,rfl,.recovered atEnd (definition_sound thrown) found others⟩
      · cases caught
        rcases bind_parts second with ⟨never,_⟩ | ⟨ds,ts₂,log₂,log₃,third,fourth,rfl⟩
        · obtain ⟨_,impossible,_⟩ := ih never
          cases impossible
        obtain ⟨_,⟨⟩,others⟩ := ih third
        cases fourth
        exact ⟨_,rfl,by simpa using FileRuns.defined atEnd (definition_sound returned) others⟩

-- A definition that is there has used up at least the token it starts with.
theorem definition_progress {ts ts' : List Token} {d : AstDefinition} {log : List Expected}
    (run : DefinitionRuns ts (.ok d) ts' log) : ts'.length < ts.length := by
  cases run with
  | @function t u rest ts₁ ts₂ r log after name run =>
    have header := (modifier_consumes (t :: rest)).length
    have body := (function_consumes run).length
    rw [after] at header
    simp only [List.length_cons] at *; omega

theorem file_complete {ts ts' : List Token} {ds : List AstDefinition} {log : List Expected}
    (file : FileRuns ts ds ts' log) {n : Nat} (fuel : 8 * ts.length < n) : run n ts = .ok ⟨.ok ds,ts',log⟩ := by
  induction file generalizing n with
  | @done t rest atEnd =>
    obtain _ | n := n
    · exact absurd fuel (Nat.not_lt_zero _)
    have stays : (matchKind .endOfFile : Parser Bool) (t :: rest) = .ok ⟨.ok true,t :: rest,[]⟩ := by
      simp [matchKind,bind_run,atEnd,advance_end atEnd]
    rw [run,bind_ok stays]; rfl
  | @defined t rest ts₁ ts₂ d ds log₁ log₂ more definition others ih =>
    have shorter := definition_progress definition
    simp only [List.length_cons] at *
    obtain _ | n := n
    · omega
    have first := definition_complete (n := n) definition (by simp only [List.length_cons]; omega)
    rw [run,bind_ok (matchKind_other more),map_after_nil]
    simp only [Bool.false_eq_true,if_false]
    rw [bind_ok (attempt_ok first)]
    have loop : run n ts₁ = _ := ih (by omega)
    simp [bind_ok loop]
  | @recovered t rest ts₁ ts₂ ts₃ ds log₁ log₂ more definition skipped others ih =>
    have shorter := redefine_progress more (definition_consumes definition) skipped
    simp only [List.length_cons] at *
    obtain _ | n := n
    · omega
    have first := definition_complete (n := n) definition (by simp only [List.length_cons]; omega)
    rw [run,bind_ok (matchKind_other more),map_after_nil]
    simp only [Bool.false_eq_true,if_false]
    rw [bind_ok (attempt_thrown first)]
    have loop : run n ts₂ = _ := ih (by omega)
    simp [bind_ok (recoverAtDefinitionLevel_run skipped),loop]

theorem file_ends {ts ts' : List Token} {ds : List AstDefinition} {log : List Expected}
    (file : FileRuns ts ds ts' log) : Consumes ts ts' ∧ ∃ t rest, ts' = t :: rest ∧ t.kind = .endOfFile := by
  induction file with
  | done atEnd => exact ⟨.refl _,_,_,rfl,atEnd⟩
  | defined more run others ih => exact ⟨(definition_consumes run).trans ih.1,ih.2⟩
  | recovered more run skipped others ih =>
    exact ⟨(definition_consumes run).trans ((skipDefinition_consumes skipped).trans ih.1),ih.2⟩

-- `run_parser` is exactly its rules.
theorem runParser_exact {ts ts' : List Token} {r : Reply (List AstDefinition)} {log : List Expected} :
    runParser ts = .ok ⟨r,ts',log⟩ ↔ ∃ ds, r = .ok ds ∧ FileRuns ts ds ts' log := by
  constructor
  · exact file_sound
  · rintro ⟨ds,rfl,file⟩
    exact file_complete file (by rw [enoughFuel]; omega)
end Cero.Parser
