import Cero.Ast
import Cero.Report
import Cero.TokenCursor

namespace Cero.Parser
open Effect TokenCursor

inductive Precedence where
  | statement | assignment | logical | comparison | additiveOrBit | multiplicative | prefix_ | postfix_
  deriving DecidableEq, Repr

def Precedence.level : Precedence → Nat
  | .statement => 0 | .assignment => 1 | .logical => 2 | .comparison => 3 | .additiveOrBit => 4
  | .multiplicative => 5 | .prefix_ => 6 | .postfix_ => 7

instance : LT Precedence := ⟨fun p q => p.level < q.level⟩
instance : LE Precedence := ⟨fun p q => p.level ≤ q.level⟩
instance (p q : Precedence) : Decidable (p < q) := inferInstanceAs (Decidable (p.level < q.level))
instance (p q : Precedence) : Decidable (p ≤ q) := inferInstanceAs (Decidable (p.level ≤ q.level))

def lookupPrecedenceForAssociativity : BinaryOperator → Precedence
  | .add | .sub => .additiveOrBit
  | .mul | .div | .rem => .multiplicative
  | .bitAnd | .bitOr | .bitXor | .shl | .shr => .additiveOrBit
  | .eq | .neq | .less | .lessEq | .greater | .greaterEq => .comparison
  | .logicAnd | .logicOr => .logical
  | .assign | .addAssign | .subAssign | .mulAssign | .divAssign | .remAssign | .bitAndAssign
  | .bitOrAssign | .xorAssign | .shlAssign | .shrAssign | .logicAndAssign | .logicOrAssign => .assignment

-- What `report_expected` is called with: the message and the token the parser
-- stands on. Location, text and format are taken from that token alone.
structure Expected where
  message : Message
  found : Token
  deriving DecidableEq, Repr

abbrev Parser (α : Type) := Effect Fault (List Token) Expected α

def reportExpected (message : Message) : Parser Unit := do tell ⟨message,← peek⟩

def expectIdentifier (message : Message) : Parser AstName := do
  match ← matchToken .identifier with
  | some token => ofExcept (AstName.fromToken token)
  | none =>
    reportExpected message
    return AstName.none

def expect (kind : TokenKind) (message : Message) : Parser Unit := do
  if ← matchKind kind then return ()
  else
    reportExpected message
    throw

-- `do { node = item(); put(list, node); } while (match(comma));`
def doWhileComma {α : Type} (item : Parser α) : Nat → Parser (List α)
  | 0 => halt .exhausted
  | rounds+1 => do
    let node ← item
    if ← matchKind .comma then
      let nodes ← doWhileComma item rounds
      return node :: nodes
    else return [node]

inductive HeadParseFunction where
  | onIdentifier
  | onLiteral (kind : LiteralKind)
  | onPrefixLeftBrace
  | onKwReturn
  | onPrefixOperator (op : UnaryOperator)
  deriving DecidableEq, Repr

inductive TailParseFunction where
  | onBinaryOperator (op : BinaryOperator)
  | onPostfixOperator (op : UnaryOperator)
  | onInfixLeftParen
  deriving DecidableEq, Repr

structure TailParseRule where
  precedence : Precedence
  fn : Option TailParseFunction
  deriving DecidableEq, Repr

structure StatementRule where
  onBlock : Bool
  needsSemicolon : Bool
  deriving DecidableEq, Repr

-- `onBlock` chooses between `on_prefix_left_brace` and `parse_expression_statement`.
def lookupStatementRule : TokenKind → StatementRule
  | .lBrace => ⟨true,false⟩
  | _ => ⟨false,true⟩

def lookupHeadParseFn : TokenKind → Option HeadParseFunction
  | .identifier => some .onIdentifier
  | .decIntLiteral => some (.onLiteral .decInt)
  | .hexIntLiteral => some (.onLiteral .hexInt)
  | .binIntLiteral => some (.onLiteral .binInt)
  | .octIntLiteral => some (.onLiteral .octInt)
  | .floatLiteral => some (.onLiteral .float_)
  | .charLiteral => some (.onLiteral .char_)
  | .stringLiteral => some (.onLiteral .string)
  | .lBrace => some .onPrefixLeftBrace
  | .kwReturn => some .onKwReturn
  | .ampersand => some (.onPrefixOperator .addrOf)
  | .minus => some (.onPrefixOperator .negate)
  | .tilde => some (.onPrefixOperator .bitNot)
  | .bang => some (.onPrefixOperator .logicNot)
  | .plusPlus => some (.onPrefixOperator .preIncrement)
  | .minusMinus => some (.onPrefixOperator .preDecrement)
  | _ => none

-- The cases of `lookup_tail_parse_rule` that look at one token only.
def tailRuleOfKind : TokenKind → TailParseRule
  | .eq => ⟨.assignment,some (.onBinaryOperator .assign)⟩
  | .plusEq => ⟨.assignment,some (.onBinaryOperator .addAssign)⟩
  | .minusEq => ⟨.assignment,some (.onBinaryOperator .subAssign)⟩
  | .starEq => ⟨.assignment,some (.onBinaryOperator .mulAssign)⟩
  | .slashEq => ⟨.assignment,some (.onBinaryOperator .divAssign)⟩
  | .percentEq => ⟨.assignment,some (.onBinaryOperator .remAssign)⟩
  | .ampersandEq => ⟨.assignment,some (.onBinaryOperator .bitAndAssign)⟩
  | .pipeEq => ⟨.assignment,some (.onBinaryOperator .bitOrAssign)⟩
  | .tildeEq => ⟨.assignment,some (.onBinaryOperator .xorAssign)⟩
  | .lAngleAngleEq => ⟨.assignment,some (.onBinaryOperator .shlAssign)⟩
  | .rAngleAngleEq => ⟨.assignment,some (.onBinaryOperator .shrAssign)⟩
  | .andAndEq => ⟨.assignment,some (.onBinaryOperator .logicAndAssign)⟩
  | .pipePipeEq => ⟨.assignment,some (.onBinaryOperator .logicOrAssign)⟩
  | .andAnd => ⟨.logical,some (.onBinaryOperator .logicAnd)⟩
  | .pipePipe => ⟨.logical,some (.onBinaryOperator .logicOr)⟩
  | .eqEq => ⟨.comparison,some (.onBinaryOperator .eq)⟩
  | .bangEq => ⟨.comparison,some (.onBinaryOperator .neq)⟩
  | .lAngle => ⟨.comparison,some (.onBinaryOperator .less)⟩
  | .lAngleEq => ⟨.comparison,some (.onBinaryOperator .lessEq)⟩
  | .rAngleEq => ⟨.comparison,some (.onBinaryOperator .greaterEq)⟩
  | .plus => ⟨.additiveOrBit,some (.onBinaryOperator .add)⟩
  | .minus => ⟨.additiveOrBit,some (.onBinaryOperator .sub)⟩
  | .ampersand => ⟨.additiveOrBit,some (.onBinaryOperator .bitAnd)⟩
  | .pipe => ⟨.additiveOrBit,some (.onBinaryOperator .bitOr)⟩
  | .tilde => ⟨.additiveOrBit,some (.onBinaryOperator .bitXor)⟩
  | .lAngleAngle => ⟨.additiveOrBit,some (.onBinaryOperator .shl)⟩
  | .star => ⟨.multiplicative,some (.onBinaryOperator .mul)⟩
  | .slash => ⟨.multiplicative,some (.onBinaryOperator .div)⟩
  | .percent => ⟨.multiplicative,some (.onBinaryOperator .rem)⟩
  | .caret => ⟨.postfix_,some (.onPostfixOperator .deref)⟩
  | .plusPlus => ⟨.postfix_,some (.onPostfixOperator .postIncrement)⟩
  | .minusMinus => ⟨.postfix_,some (.onPostfixOperator .postDecrement)⟩
  | .lParen => ⟨.postfix_,some .onInfixLeftParen⟩
  | _ => ⟨.statement,none⟩

-- `>` directly followed by `>` is the operator `>>`.
def adjacentAngle (token ahead : Token) : Bool :=
  ahead.kind = .rAngle && ahead.offset.toNat = token.offset.toNat + 1

def lookupTailParseRule (token : Token) : Parser TailParseRule := do
  if token.kind = .rAngle then
    let ahead ← peekAhead
    if adjacentAngle token ahead then return ⟨.additiveOrBit,some (.onBinaryOperator .shr)⟩
    else return ⟨.comparison,some (.onBinaryOperator .greater)⟩
  else return tailRuleOfKind token.kind

def getNextTailParseFn (currentPrecedence : Precedence) : Parser (Option TailParseFunction) := do
  let token ← peek
  let rule ← lookupTailParseRule token
  if currentPrecedence < rule.precedence then return rule.fn else return none

def isExpressionNext : Parser Bool := do return (lookupHeadParseFn (← peekKind)).isSome

def onIdentifier : Parser AstExpression := do
  let token ← next
  return .ident token.offset token.variableLength

def onLiteral (kind : LiteralKind) : Parser AstExpression := do
  let token ← next
  return .literal token.offset kind token.variableLength

def onPostfixOperator (op : UnaryOperator) (left : AstExpression) : Parser AstExpression := do
  advance
  return .unary left.tokenOffset op left

-- `(this->*head_fn)()` and `(this->*tail_fn)(expr)`, over the functions that are
-- defined together further down.
def callHead (onPrefixLeftBrace onKwReturn : Parser AstExpression)
    (onPrefixOperator : UnaryOperator → Parser AstExpression) : HeadParseFunction → Parser AstExpression
  | .onIdentifier => onIdentifier
  | .onLiteral kind => onLiteral kind
  | .onPrefixLeftBrace => onPrefixLeftBrace
  | .onKwReturn => onKwReturn
  | .onPrefixOperator op => onPrefixOperator op

def callTail (onBinaryOperator : BinaryOperator → AstExpression → Parser AstExpression)
    (onInfixLeftParen : AstExpression → Parser AstExpression) (expr : AstExpression) :
    TailParseFunction → Parser AstExpression
  | .onBinaryOperator op => onBinaryOperator op expr
  | .onPostfixOperator op => onPostfixOperator op expr
  | .onInfixLeftParen => onInfixLeftParen expr

-- Whether the skipping ended at the end of the file.
def recoverAtStatementLevel : Parser Bool := do
  iterate .exhausted (fun _ => do
    let kind ← peekKind
    if kind = .endOfFile then return .inr true
    else if kind = .semicolon then
      advance
      return .inr false
    else if kind = .rBrace then return .inr false
    else
      advance
      return .inl ()) ((← get).length + 1) ()

def recoveryTokens : List TokenKind := [.kwPublic,.kwPrivate,.kwStruct,.kwEnum,.endOfFile]

def recoverAtDefinitionLevel : Parser Unit := do
  iterate .exhausted (fun _ => do
    advance
    if (← peekKind) ∈ recoveryTokens then return .inr () else return .inl ()) ((← get).length + 1) ()

-- The mutually recursive part. Every call hands down one unit less of `fuel`.
mutual
def parseBlock : Nat → Parser (List AstExpression)
  | 0 => halt .exhausted
  | fuel+1 => do
    if ← matchKind .rBrace then return []
    else match ← attempt (parseStatement fuel) with
      | some statement =>
        let statements ← parseBlock fuel
        return statement :: statements
      | none =>
        if ← recoverAtStatementLevel then return [] else parseBlock fuel

def parseStatement : Nat → Parser AstExpression
  | 0 => halt .exhausted
  | fuel+1 => do
    let rule := lookupStatementRule (← peekKind)
    let lastExpr ← (if rule.onBlock then onPrefixLeftBrace fuel else parseExpression .statement fuel)
    (if rule.needsSemicolon then expect .semicolon .expectSemicolon else return ())
    return lastExpr

def parseExpression (precedence : Precedence) : Nat → Parser AstExpression
  | 0 => halt .exhausted
  | fuel+1 => do
    match lookupHeadParseFn (← peek).kind with
    | none =>
      reportExpected .expectExpression
      throw
    | some headFn =>
      let expr ← callHead (onPrefixLeftBrace fuel) (onKwReturn fuel) (onPrefixOperator · fuel) headFn
      parseTails precedence expr fuel

-- The loop of `parse_expression`.
def parseTails (precedence : Precedence) (expr : AstExpression) : Nat → Parser AstExpression
  | 0 => halt .exhausted
  | fuel+1 => do
    match ← getNextTailParseFn precedence with
    | none => return expr
    | some tailFn =>
      let next ← callTail (onBinaryOperator · · fuel) (onInfixLeftParen · fuel) expr tailFn
      parseTails precedence next fuel

def onPrefixLeftBrace : Nat → Parser AstExpression
  | 0 => halt .exhausted
  | fuel+1 => do
    let token ← next
    let statements ← parseBlock fuel
    return .block token.offset statements

def onKwReturn : Nat → Parser AstExpression
  | 0 => halt .exhausted
  | fuel+1 => do
    let token ← next
    if ← isExpressionNext then
      let retValues ← doWhileComma (parseExpression .statement fuel) fuel
      return .return_ token.offset retValues
    else return .return_ token.offset []

def onPrefixOperator (op : UnaryOperator) : Nat → Parser AstExpression
  | 0 => halt .exhausted
  | fuel+1 => do
    let token ← next
    let operand ← parseExpression .prefix_ fuel
    return .unary token.offset op operand

def onBinaryOperator (op : BinaryOperator) (left : AstExpression) : Nat → Parser AstExpression
  | 0 => halt .exhausted
  | fuel+1 => do
    advance
    (if op = .shr then advance else return ())
    let right ← parseExpression (lookupPrecedenceForAssociativity op) fuel
    return .binary left.tokenOffset op left right

def onInfixLeftParen (left : AstExpression) : Nat → Parser AstExpression
  | 0 => halt .exhausted
  | fuel+1 => do
    advance
    if ← matchKind .rParen then return .call left.tokenOffset left []
    else
      let args ← doWhileComma (parseExpression .statement fuel) fuel
      expect .rParen .expectClosingParenInCall
      return .call left.tokenOffset left args
end

def parseType (errorMessage : Message) : Parser AstExpression := do
  if (← peekKind) = .identifier then onIdentifier
  else
    reportExpected errorMessage
    throw

def parseFunctionDefinitionParameter : Parser AstFunctionParameter := do
  let offset ← peekOffset
  let type ← parseType .expectParameterType
  let name ← expectIdentifier .expectParameterName
  if name.isEmpty then throw else return ⟨offset,type,name⟩

def parseFunctionDefinitionParameters (rounds : Nat) : Parser (List AstFunctionParameter) := do
  if ← matchKind .rParen then return []
  else
    let parameters ← doWhileComma parseFunctionDefinitionParameter rounds
    expect .rParen .expectParenAfterParameters
    return parameters

def parseFunctionDefinitionOutput : Parser AstFunctionOutput := do
  let offset ← peekOffset
  let type ← parseType .expectReturnType
  return ⟨offset,type⟩

def parseFunctionDefinitionOutputs (rounds : Nat) : Parser (List AstFunctionOutput) := do
  if ← matchKind .thinArrow then doWhileComma parseFunctionDefinitionOutput rounds
  else return []

def parseFunctionDefinition (offset : BitVec sourceSizeBits) (accessModifier : AccessModifier)
    (identifier : Token) (fuel : Nat) : Parser AstDefinition := do
  let name ← ofExcept (AstName.fromToken identifier)
  expect .lParen .expectParenAfterFunctionName
  let parameters ← parseFunctionDefinitionParameters fuel
  let outputs ← parseFunctionDefinitionOutputs fuel
  expect .lBrace .expectBraceBeforeFunctionBody
  let statements ← parseBlock fuel
  return ⟨offset,accessModifier,name,parameters,outputs,statements⟩

def parseAccessModifier : Parser AccessModifier := do
  if ← matchKind .kwPrivate then return .private_
  else if ← matchKind .kwPublic then return .public_
  else return .none

def parseDefinition (fuel : Nat) : Parser AstDefinition := do
  let offset ← peekOffset
  let accessModifier ← parseAccessModifier
  match ← matchToken .identifier with
  | some token => parseFunctionDefinition offset accessModifier token fuel
  | none =>
    reportExpected .expectFunctionStructOrEnum
    throw

def run : Nat → Parser (List AstDefinition)
  | 0 => halt .exhausted
  | fuel+1 => do
    if ← matchKind .endOfFile then return []
    else match ← attempt (parseDefinition fuel) with
      | some definition =>
        let definitions ← run fuel
        return definition :: definitions
      | none =>
        recoverAtDefinitionLevel
        run fuel

def enoughFuel (tokens : List Token) : Nat := 8 * tokens.length + 8

-- The definitions of the root, where the cursor came to stand, and the reports.
def runParser (tokens : List Token) : Except Fault (Outcome (List Token) Expected (List AstDefinition)) :=
  run (enoughFuel tokens) tokens
end Cero.Parser
