import Cero.ParserTotal

namespace Cero.Parser

-- A comma list of items, each of which is a way from the remaining tokens to a
-- reply, the tokens then remaining and the reports.
inductive Listed {α : Type} (Item : List Token → Reply α → List Token → List Expected → Prop) :
    List Token → Reply (List α) → List Token → List Expected → Prop where
  | last {ts ts₁ : List Token} {u : Token} {a : α} {log : List Expected} (run : Item ts (.ok a) (u :: ts₁) log)
      (last : u.kind ≠ .comma) : Listed Item ts (.ok [a]) (u :: ts₁) log
  | next {ts ts₁ ts₂ : List Token} {u : Token} {a : α} {as : List α} {log₁ log₂ : List Expected}
      (run : Item ts (.ok a) (u :: ts₁) log₁) (comma : u.kind = .comma) (others : Listed Item ts₁ (.ok as) ts₂ log₂) :
      Listed Item ts (.ok (a :: as)) ts₂ (log₁ ++ log₂)
  | nextThrown {ts ts₁ ts₂ : List Token} {u : Token} {a : α} {log₁ log₂ : List Expected}
      (run : Item ts (.ok a) (u :: ts₁) log₁) (comma : u.kind = .comma) (others : Listed Item ts₁ .thrown ts₂ log₂) :
      Listed Item ts .thrown ts₂ (log₁ ++ log₂)
  | thrown {ts ts₁ : List Token} {log : List Expected} (run : Item ts .thrown ts₁ log) :
      Listed Item ts .thrown ts₁ log

def parameterOf (type name : Token) : AstFunctionParameter :=
  ⟨type.offset,.ident type.offset type.variableLength,⟨name.offset.toNat,name.variableLength⟩⟩

def outputOf (type : Token) : AstFunctionOutput := ⟨type.offset,.ident type.offset type.variableLength⟩

inductive ParameterRuns : List Token → Reply AstFunctionParameter → List Token → List Expected → Prop where
  | named {t u : Token} {rest : List Token} (type : t.kind = .identifier) (name : u.kind = .identifier)
      (long : u.variableLength ≠ 0) : ParameterRuns (t :: u :: rest) (.ok (parameterOf t u)) rest []
  -- An empty name is taken for the missing one, which has been reported.
  | nameEmpty {t u : Token} {rest : List Token} (type : t.kind = .identifier) (name : u.kind = .identifier)
      (empty : u.variableLength = 0) : ParameterRuns (t :: u :: rest) .thrown rest []
  | noName {t u : Token} {rest : List Token} (type : t.kind = .identifier) (other : u.kind ≠ .identifier) :
      ParameterRuns (t :: u :: rest) .thrown (u :: rest) [⟨.expectParameterName,u⟩]
  | noType {t : Token} {rest : List Token} (other : t.kind ≠ .identifier) :
      ParameterRuns (t :: rest) .thrown (t :: rest) [⟨.expectParameterType,t⟩]

inductive OutputRuns : List Token → Reply AstFunctionOutput → List Token → List Expected → Prop where
  | typed {t : Token} {rest : List Token} (type : t.kind = .identifier) :
      OutputRuns (t :: rest) (.ok (outputOf t)) rest []
  | noType {t : Token} {rest : List Token} (other : t.kind ≠ .identifier) :
      OutputRuns (t :: rest) .thrown (t :: rest) [⟨.expectReturnType,t⟩]

inductive ParametersRun : List Token → Reply (List AstFunctionParameter) → List Token → List Expected → Prop where
  | empty {t : Token} {rest : List Token} (close : t.kind = .rParen) : ParametersRun (t :: rest) (.ok []) rest []
  | closed {t u : Token} {rest ts₁ : List Token} {ps : List AstFunctionParameter} {log : List Expected}
      (some : t.kind ≠ .rParen) (run : Listed ParameterRuns (t :: rest) (.ok ps) (u :: ts₁) log)
      (close : u.kind = .rParen) : ParametersRun (t :: rest) (.ok ps) ts₁ log
  | unclosed {t u : Token} {rest ts₁ : List Token} {ps : List AstFunctionParameter} {log : List Expected}
      (some : t.kind ≠ .rParen) (run : Listed ParameterRuns (t :: rest) (.ok ps) (u :: ts₁) log)
      (other : u.kind ≠ .rParen) :
      ParametersRun (t :: rest) .thrown (u :: ts₁) (log ++ [⟨.expectParenAfterParameters,u⟩])
  | thrown {t : Token} {rest ts₁ : List Token} {log : List Expected} (some : t.kind ≠ .rParen)
      (run : Listed ParameterRuns (t :: rest) .thrown ts₁ log) : ParametersRun (t :: rest) .thrown ts₁ log

inductive OutputsRun : List Token → Reply (List AstFunctionOutput) → List Token → List Expected → Prop where
  | none {t : Token} {rest : List Token} (noArrow : t.kind ≠ .thinArrow) : OutputsRun (t :: rest) (.ok []) (t :: rest) []
  | some {t : Token} {rest ts₁ : List Token} {r : Reply (List AstFunctionOutput)} {log : List Expected}
      (arrow : t.kind = .thinArrow) (run : Listed OutputRuns rest r ts₁ log) : OutputsRun (t :: rest) r ts₁ log

-- A function definition from the token behind its name on.
inductive FunctionRuns (offset : BitVec sourceSizeBits) (modifier : AccessModifier) (name : Token) :
    List Token → Reply AstDefinition → List Token → List Expected → Prop where
  | noParen {t : Token} {rest : List Token} (other : t.kind ≠ .lParen) :
      FunctionRuns offset modifier name (t :: rest) .thrown (t :: rest) [⟨.expectParenAfterFunctionName,t⟩]
  | parametersThrown {t : Token} {rest ts₁ : List Token} {log : List Expected} (paren : t.kind = .lParen)
      (run : ParametersRun rest .thrown ts₁ log) : FunctionRuns offset modifier name (t :: rest) .thrown ts₁ log
  | outputsThrown {t : Token} {rest ts₁ ts₂ : List Token} {ps : List AstFunctionParameter}
      {log₁ log₂ : List Expected} (paren : t.kind = .lParen) (run : ParametersRun rest (.ok ps) ts₁ log₁)
      (outputs : OutputsRun ts₁ .thrown ts₂ log₂) :
      FunctionRuns offset modifier name (t :: rest) .thrown ts₂ (log₁ ++ log₂)
  | noBody {t u : Token} {rest ts₁ ts₂ : List Token} {ps : List AstFunctionParameter} {os : List AstFunctionOutput}
      {log₁ log₂ : List Expected} (paren : t.kind = .lParen) (run : ParametersRun rest (.ok ps) ts₁ log₁)
      (outputs : OutputsRun ts₁ (.ok os) (u :: ts₂) log₂) (other : u.kind ≠ .lBrace) :
      FunctionRuns offset modifier name (t :: rest) .thrown (u :: ts₂)
        (log₁ ++ log₂ ++ [⟨.expectBraceBeforeFunctionBody,u⟩])
  | body {t u : Token} {rest ts₁ ts₂ ts₃ : List Token} {ps : List AstFunctionParameter}
      {os : List AstFunctionOutput} {es : List AstExpression} {log₁ log₂ log₃ : List Expected}
      (paren : t.kind = .lParen) (run : ParametersRun rest (.ok ps) ts₁ log₁)
      (outputs : OutputsRun ts₁ (.ok os) (u :: ts₂) log₂) (brace : u.kind = .lBrace)
      (block : Runs .block ts₂ (.ok (.list es)) ts₃ log₃) :
      FunctionRuns offset modifier name (t :: rest)
        (.ok ⟨offset,modifier,⟨name.offset.toNat,name.variableLength⟩,ps,os,es⟩) ts₃ (log₁ ++ log₂ ++ log₃)

def modifierOf : TokenKind → AccessModifier
  | .kwPrivate => .private_
  | .kwPublic => .public_
  | _ => .none

def afterModifier : List Token → List Token
  | [] => []
  | t :: rest => if modifierOf t.kind = .none then t :: rest else rest

inductive DefinitionRuns : List Token → Reply AstDefinition → List Token → List Expected → Prop where
  | noName {t u : Token} {rest ts₁ : List Token} (after : afterModifier (t :: rest) = u :: ts₁)
      (other : u.kind ≠ .identifier) :
      DefinitionRuns (t :: rest) .thrown (u :: ts₁) [⟨.expectFunctionStructOrEnum,u⟩]
  | function {t u : Token} {rest ts₁ ts₂ : List Token} {r : Reply AstDefinition} {log : List Expected}
      (after : afterModifier (t :: rest) = u :: ts₁) (name : u.kind = .identifier)
      (run : FunctionRuns t.offset (modifierOf t.kind) u ts₁ r ts₂ log) : DefinitionRuns (t :: rest) r ts₂ log

def firstMarked : List Token → Option (List Token)
  | [] => none
  | t :: rest => if t.kind ∈ recoveryTokens then some (t :: rest) else firstMarked rest

-- Where the skipping of `recover_at_definition_level` ends.
def skipDefinition : List Token → Option (List Token)
  | [] => none
  | t :: rest => if t.kind = .endOfFile then some (t :: rest) else firstMarked rest

inductive FileRuns : List Token → List AstDefinition → List Token → List Expected → Prop where
  | done {t : Token} {rest : List Token} (atEnd : t.kind = .endOfFile) : FileRuns (t :: rest) [] (t :: rest) []
  | defined {t : Token} {rest ts₁ ts₂ : List Token} {d : AstDefinition} {ds : List AstDefinition}
      {log₁ log₂ : List Expected} (more : t.kind ≠ .endOfFile) (run : DefinitionRuns (t :: rest) (.ok d) ts₁ log₁)
      (others : FileRuns ts₁ ds ts₂ log₂) : FileRuns (t :: rest) (d :: ds) ts₂ (log₁ ++ log₂)
  | recovered {t : Token} {rest ts₁ ts₂ ts₃ : List Token} {ds : List AstDefinition} {log₁ log₂ : List Expected}
      (more : t.kind ≠ .endOfFile) (run : DefinitionRuns (t :: rest) .thrown ts₁ log₁)
      (skipped : skipDefinition ts₁ = some ts₂) (others : FileRuns ts₂ ds ts₃ log₂) :
      FileRuns (t :: rest) ds ts₃ (log₁ ++ log₂)
end Cero.Parser
