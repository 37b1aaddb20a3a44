import Mathlib.Data.List.Chain
import Cero.Library.Simulation
import Cero.ParserExact

-- The parser looks at the kinds of the tokens, at which `>` stand directly behind a
-- `>` and at which names are empty. Where the tokens stand and how long they are
-- goes into the nodes and the reports and nowhere else.
namespace Cero.Parser
open Effect TokenCursor

-- Where a token is moved to, and the length it gets there.
structure Layout where
  place : BitVec sourceSizeBits → BitVec sourceSizeBits
  size : BitVec sourceSizeBits → Nat → Nat

namespace Layout
def token (l : Layout) (t : Token) : Token := ⟨t.kind,l.place t.offset,l.size t.offset t.variableLength⟩

def expected (l : Layout) (e : Expected) : Expected := ⟨e.message,l.token e.found⟩

mutual
def expression (l : Layout) : AstExpression → AstExpression
  | .ident offset length => .ident (l.place offset) (l.size offset length)
  | .literal offset kind length => .literal (l.place offset) kind (l.size offset length)
  | .block offset es => .block (l.place offset) (expressions l es)
  | .return_ offset es => .return_ (l.place offset) (expressions l es)
  | .unary offset op e => .unary (l.place offset) op (expression l e)
  | .binary offset op left right => .binary (l.place offset) op (expression l left) (expression l right)
  | .call offset callee es => .call (l.place offset) (expression l callee) (expressions l es)

def expressions (l : Layout) : List AstExpression → List AstExpression
  | [] => []
  | e :: es => expression l e :: expressions l es
end

-- A name keeps the whole of its offset in a wider field.
def name (l : Layout) (name : AstName) : AstName :=
  ⟨(l.place (BitVec.ofNat sourceSizeBits name.offset)).toNat,l.size (BitVec.ofNat sourceSizeBits name.offset) name.length⟩

def parameter (l : Layout) (p : AstFunctionParameter) : AstFunctionParameter :=
  ⟨l.place p.tokenOffset,l.expression p.type,l.name p.name⟩

def output (l : Layout) (o : AstFunctionOutput) : AstFunctionOutput := ⟨l.place o.tokenOffset,l.expression o.type⟩

def definition (l : Layout) (d : AstDefinition) : AstDefinition :=
  ⟨l.place d.tokenOffset,d.accessModifier,l.name d.name,d.parameters.map l.parameter,d.outputs.map l.output,
    l.expressions d.statements⟩

theorem expressions_map (l : Layout) (es : List AstExpression) : l.expressions es = es.map l.expression := by
  induction es with
  | nil => rfl
  | cons e es ih => rw [expressions,ih,List.map_cons]

@[simp] theorem token_kind (l : Layout) (t : Token) : (l.token t).kind = t.kind := rfl
@[simp] theorem token_offset (l : Layout) (t : Token) : (l.token t).offset = l.place t.offset := rfl

@[simp] theorem expression_offset (l : Layout) (e : AstExpression) : (l.expression e).tokenOffset = l.place e.tokenOffset := by
  cases e <;> simp only [expression,AstExpression.tokenOffset]

-- Two neighbours that are angles stay as close as they were, or as far apart.
def KeepsAngles (l : Layout) (t u : Token) : Prop :=
  t.kind = .rAngle → adjacentAngle (l.token t) (l.token u) = adjacentAngle t u

def KeepsName (l : Layout) (t : Token) : Prop :=
  t.kind = .identifier → (l.size t.offset t.variableLength = 0 ↔ t.variableLength = 0)

structure Keeps (l : Layout) (ts : List Token) : Prop where
  names : ∀ t ∈ ts, l.KeepsName t
  angles : ts.IsChain l.KeepsAngles

theorem Keeps.tail {l : Layout} {t : Token} {rest : List Token} (keeps : l.Keeps (t :: rest)) : l.Keeps rest :=
  ⟨fun u member => keeps.names u (List.mem_cons_of_mem _ member),keeps.angles.tail⟩

-- The tokens that are left on both sides.
def link (l : Layout) : Link (List Token) (List Token) Expected Expected where
  states ts us := us = ts.map l.token ∧ l.Keeps ts
  logs log log' := log' = log.map l.expected
  silent := rfl
  append first second := by rw [first,second,List.map_append]

-- A computation does over the moved tokens what another does over the tokens.
abbrev Moves {α β : Type} (l : Layout) (values : α → β → Prop) (m : Parser α) (n : Parser β) : Prop := Simulates l.link values m n

theorem moves_done {l : Layout} {α β : Type} {values : α → β → Prop} {a : α} {b : β} {ts : List Token} (same : values a b)
    (keeps : l.Keeps ts) : Agree (φ := Fault) l.link values (.ok ⟨.ok a,ts,[]⟩) (.ok ⟨.ok b,ts.map l.token,[]⟩) :=
  .done (.ok same) ⟨rfl,keeps⟩ rfl
end Layout

section Cursor
variable {l : Layout}
open Cero.Parser.Layout

theorem moves_peek : l.Moves (fun t u => u = l.token t) peek peek := by
  rintro (_ | ⟨t,rest⟩) _ ⟨rfl,keeps⟩
  · exact .fault _
  · exact moves_done rfl keeps

theorem moves_peekKind : l.Moves Eq peekKind peekKind :=
  simulates_bind moves_peek fun t _ same => simulates_pure (by rw [same,token_kind])

theorem moves_peekOffset : l.Moves (fun o o' => o' = l.place o) peekOffset peekOffset :=
  simulates_bind moves_peek fun t _ same => simulates_pure (by rw [same,token_offset])

theorem moves_advance : l.Moves (fun _ _ => True) advance advance := by
  rintro (_ | ⟨t,rest⟩) _ ⟨rfl,keeps⟩
  · exact .fault _
  · by_cases atEnd : t.kind = .endOfFile
    · rw [advance_end atEnd,List.map_cons,advance_end (by rwa [token_kind])]
      exact moves_done trivial keeps
    · rw [advance_run atEnd,List.map_cons,advance_run (by rwa [token_kind])]
      exact moves_done trivial keeps.tail

theorem moves_next : l.Moves (fun t u => u = l.token t) next next :=
  simulates_bind moves_peek fun _ _ same => simulates_bind moves_advance fun _ _ _ => simulates_pure same

theorem moves_matchKind (kind : TokenKind) : l.Moves Eq (matchKind kind) (matchKind kind) := by
  refine simulates_bind moves_peekKind ?_
  rintro found _ rfl
  exact simulates_ite Iff.rfl (fun _ => simulates_bind moves_advance fun _ _ _ => simulates_pure rfl) (fun _ => simulates_pure rfl)

theorem moves_reportExpected (message : Message) : l.Moves (fun _ _ => True) (reportExpected message) (reportExpected message) := by
  refine simulates_bind moves_peek ?_
  rintro t _ rfl
  exact simulates_tell rfl

theorem moves_expect (kind : TokenKind) (message : Message) : l.Moves (fun _ _ => True) (expect kind message) (expect kind message) := by
  refine simulates_bind (moves_matchKind kind) ?_
  rintro found _ rfl
  exact simulates_ite Iff.rfl (fun _ => simulates_pure trivial)
    (fun _ => simulates_bind (moves_reportExpected message) fun _ _ _ => simulates_throw)

theorem moves_isExpressionNext : l.Moves Eq isExpressionNext isExpressionNext :=
  simulates_bind moves_peekKind fun _ _ same => simulates_pure (by rw [same])

theorem nextTail_moved {ts : List Token} (keeps : l.Keeps ts) : nextTail (ts.map l.token) = nextTail ts := by
  match ts with
  | [] => rfl
  | [t] => by_cases angle : t.kind = .rAngle <;> simp [nextTail,angle]
  | t :: u :: rest =>
    by_cases angle : t.kind = .rAngle
    · have same := (List.isChain_cons_cons.mp keeps.angles).1 angle
      simp [nextTail,angle,same]
    · simp [nextTail,angle]

theorem getNextTailParseFn_short {ts : List Token} (none_ : nextTail ts = none) (p : Precedence) :
    getNextTailParseFn p ts = .error .readPastTokens := by
  match ts with
  | [] => rfl
  | [t] =>
    by_cases angle : t.kind = .rAngle
    · have behind : (peekAhead : Parser Token) [t] = .error .readPastTokens := by simp [peekAhead,angle]
      simp only [getNextTailParseFn]
      rw [bind_ok peek_run,map_after_nil]
      simp only [lookupTailParseRule,angle,if_true,bind_run,behind]
    · simp [nextTail,angle] at none_
  | t :: u :: rest =>
    by_cases angle : t.kind = .rAngle <;> simp [nextTail,angle] at none_

-- The only look at a second token.
theorem moves_getNextTailParseFn (p : Precedence) : l.Moves Eq (getNextTailParseFn p) (getNextTailParseFn p) := by
  rintro ts _ ⟨rfl,keeps⟩
  cases found : nextTail ts with
  | none =>
    rw [getNextTailParseFn_short found,getNextTailParseFn_short ((nextTail_moved keeps).trans found)]
    exact .fault _
  | some rule =>
    rw [getNextTailParseFn_run found,getNextTailParseFn_run ((nextTail_moved keeps).trans found)]
    exact moves_done rfl keeps
end Cursor

section Heads
variable {l : Layout}

-- The node that is built from the moved tokens is the node with its offsets moved.
abbrev Layout.Builds (l : Layout) (m : Parser AstExpression) : Prop := l.Moves (fun e f => f = l.expression e) m m

theorem moves_onIdentifier : l.Builds onIdentifier := by
  refine simulates_bind moves_next ?_
  rintro t _ rfl
  exact simulates_pure (by rw [Layout.expression]; rfl)

theorem moves_onLiteral (kind : LiteralKind) : l.Builds (onLiteral kind) := by
  refine simulates_bind moves_next ?_
  rintro t _ rfl
  exact simulates_pure (by rw [Layout.expression]; rfl)

theorem moves_onPostfixOperator (op : UnaryOperator) (left : AstExpression) :
    l.Moves (fun e f => f = l.expression e) (onPostfixOperator op left) (onPostfixOperator op (l.expression left)) :=
  simulates_bind moves_advance fun _ _ _ => simulates_pure (by rw [Layout.expression,Layout.expression_offset])

theorem moves_doWhileComma {α : Type} {f : α → α} {item : Parser α} (moved : l.Moves (fun a b => b = f a) item item) (rounds : Nat) :
    l.Moves (fun as bs => bs = as.map f) (doWhileComma item rounds) (doWhileComma item rounds) := by
  induction rounds with
  | zero => exact simulates_halt _
  | succ rounds ih =>
    refine simulates_bind moved ?_
    rintro a _ rfl
    refine simulates_bind (moves_matchKind .comma) ?_
    rintro again _ rfl
    refine simulates_ite Iff.rfl (fun _ => simulates_bind ih ?_) (fun _ => simulates_pure rfl)
    rintro as _ rfl
    exact simulates_pure rfl

theorem moves_recoverAtStatementLevel : l.Moves Eq recoverAtStatementLevel recoverAtStatementLevel := by
  refine simulates_bind simulates_get ?_
  rintro ts _ ⟨rfl,_⟩
  rw [List.length_map]
  refine simulates_iterate (R := fun _ _ => True) ?_ _ trivial
  intro _ _ _
  refine simulates_bind moves_peekKind ?_
  rintro kind _ rfl
  refine simulates_ite Iff.rfl (fun _ => simulates_pure (.inr rfl)) fun _ => ?_
  refine simulates_ite Iff.rfl (fun _ => simulates_bind moves_advance fun _ _ _ => simulates_pure (.inr rfl)) fun _ => ?_
  refine simulates_ite Iff.rfl (fun _ => simulates_pure (.inr rfl)) fun _ => ?_
  exact simulates_bind moves_advance fun _ _ _ => simulates_pure (.inl trivial)

theorem moves_recoverAtDefinitionLevel : l.Moves Eq recoverAtDefinitionLevel recoverAtDefinitionLevel := by
  refine simulates_bind simulates_get ?_
  rintro ts _ ⟨rfl,_⟩
  rw [List.length_map]
  refine simulates_iterate (R := fun _ _ => True) ?_ _ trivial
  intro _ _ _
  refine simulates_bind moves_advance fun _ _ _ => simulates_bind moves_peekKind ?_
  rintro kind _ rfl
  exact simulates_ite Iff.rfl (fun _ => simulates_pure (.inr rfl)) (fun _ => simulates_pure (.inl trivial))
end Heads

-- What the mutually recursive functions do with `fuel` left.
structure MovesWith (l : Layout) (fuel : Nat) : Prop where
  block : l.Moves (fun es fs => fs = l.expressions es) (parseBlock fuel) (parseBlock fuel)
  statement : l.Builds (parseStatement fuel)
  expression : ∀ p, l.Builds (parseExpression p fuel)
  tails : ∀ p e, l.Moves (fun e f => f = l.expression e) (parseTails p e fuel) (parseTails p (l.expression e) fuel)
  brace : l.Builds (onPrefixLeftBrace fuel)
  return_ : l.Builds (onKwReturn fuel)
  prefixed : ∀ op, l.Builds (onPrefixOperator op fuel)
  binary : ∀ op e, l.Moves (fun e f => f = l.expression e) (onBinaryOperator op e fuel) (onBinaryOperator op (l.expression e) fuel)
  call : ∀ e, l.Moves (fun e f => f = l.expression e) (onInfixLeftParen e fuel) (onInfixLeftParen (l.expression e) fuel)

section Expressions
variable {l : Layout} {fuel : Nat}

theorem moves_callHead (below : MovesWith l fuel) (fn : HeadParseFunction) :
    l.Builds (callHead (onPrefixLeftBrace fuel) (onKwReturn fuel) (onPrefixOperator · fuel) fn) := by
  cases fn with
  | onIdentifier => exact moves_onIdentifier
  | onLiteral kind => exact moves_onLiteral kind
  | onPrefixLeftBrace => exact below.brace
  | onKwReturn => exact below.return_
  | onPrefixOperator op => exact below.prefixed op

theorem moves_callTail (below : MovesWith l fuel) (e : AstExpression) (fn : TailParseFunction) :
    l.Moves (fun e f => f = l.expression e) (callTail (onBinaryOperator · · fuel) (onInfixLeftParen · fuel) e fn)
      (callTail (onBinaryOperator · · fuel) (onInfixLeftParen · fuel) (l.expression e) fn) := by
  cases fn with
  | onBinaryOperator op => exact below.binary op e
  | onPostfixOperator op => exact moves_onPostfixOperator op e
  | onInfixLeftParen => exact below.call e

theorem moves_values (below : MovesWith l fuel) : l.Moves (fun es fs => fs = l.expressions es)
    (doWhileComma (parseExpression .statement fuel) fuel) (doWhileComma (parseExpression .statement fuel) fuel) :=
  simulates_weaken (moves_doWhileComma (below.expression .statement) fuel) fun es _ same => by rw [same,l.expressions_map]

theorem moves_parseBlock (below : MovesWith l fuel) :
    l.Moves (fun es fs => fs = l.expressions es) (parseBlock (fuel+1)) (parseBlock (fuel+1)) := by
  refine simulates_bind (moves_matchKind .rBrace) ?_
  rintro closed _ rfl
  refine simulates_ite Iff.rfl (fun _ => simulates_pure (by rw [Layout.expressions])) fun _ => ?_
  refine simulates_bind (simulates_attempt below.statement) ?_
  rintro _ _ (@⟨e,_,rfl⟩ | _)
  · refine simulates_bind below.block ?_
    rintro es _ rfl
    exact simulates_pure (by rw [Layout.expressions])
  · refine simulates_bind moves_recoverAtStatementLevel ?_
    rintro atEnd _ rfl
    exact simulates_ite Iff.rfl (fun _ => simulates_pure (by rw [Layout.expressions])) (fun _ => below.block)

theorem moves_parseStatement (below : MovesWith l fuel) : l.Builds (parseStatement (fuel+1)) := by
  refine simulates_bind moves_peekKind ?_
  rintro kind _ rfl
  refine simulates_bind (simulates_ite Iff.rfl (fun _ => below.brace) (fun _ => below.expression .statement)) ?_
  rintro e _ rfl
  have ended : l.Moves (fun _ _ => True) (if (lookupStatementRule kind).needsSemicolon then expect .semicolon .expectSemicolon else pure ())
      (if (lookupStatementRule kind).needsSemicolon then expect .semicolon .expectSemicolon else pure ()) :=
    simulates_ite Iff.rfl (fun _ => moves_expect _ _) (fun _ => simulates_pure trivial)
  exact simulates_bind ended fun _ _ _ => simulates_pure rfl

theorem moves_parseExpression (below : MovesWith l fuel) (p : Precedence) : l.Builds (parseExpression p (fuel+1)) := by
  refine simulates_bind moves_peek ?_
  rintro t _ rfl
  rw [Layout.token_kind]
  cases lookupHeadParseFn t.kind with
  | none => exact simulates_bind (moves_reportExpected _) fun _ _ _ => simulates_throw
  | some fn =>
    refine simulates_bind (moves_callHead below fn) ?_
    rintro e _ rfl
    exact below.tails p e

theorem moves_parseTails (below : MovesWith l fuel) (p : Precedence) (e : AstExpression) :
    l.Moves (fun e f => f = l.expression e) (parseTails p e (fuel+1)) (parseTails p (l.expression e) (fuel+1)) := by
  refine simulates_bind (moves_getNextTailParseFn p) ?_
  rintro (_ | fn) _ rfl
  · exact simulates_pure rfl
  · refine simulates_bind (moves_callTail below e fn) ?_
    rintro next _ rfl
    exact below.tails p next

theorem moves_onPrefixLeftBrace (below : MovesWith l fuel) : l.Builds (onPrefixLeftBrace (fuel+1)) := by
  refine simulates_bind moves_next ?_
  rintro t _ rfl
  refine simulates_bind below.block ?_
  rintro es _ rfl
  exact simulates_pure (by rw [Layout.expression]; rfl)

theorem moves_onKwReturn (below : MovesWith l fuel) : l.Builds (onKwReturn (fuel+1)) := by
  refine simulates_bind moves_next ?_
  rintro t _ rfl
  refine simulates_bind moves_isExpressionNext ?_
  rintro more _ rfl
  refine simulates_ite Iff.rfl (fun _ => simulates_bind (moves_values below) ?_)
    (fun _ => simulates_pure (by rw [Layout.expression,Layout.expressions]; rfl))
  rintro es _ rfl
  exact simulates_pure (by rw [Layout.expression]; rfl)

theorem moves_onPrefixOperator (below : MovesWith l fuel) (op : UnaryOperator) : l.Builds (onPrefixOperator op (fuel+1)) := by
  refine simulates_bind moves_next ?_
  rintro t _ rfl
  refine simulates_bind (below.expression .prefix_) ?_
  rintro e _ rfl
  exact simulates_pure (by rw [Layout.expression]; rfl)

theorem moves_onBinaryOperator (below : MovesWith l fuel) (op : BinaryOperator) (left : AstExpression) :
    l.Moves (fun e f => f = l.expression e) (onBinaryOperator op left (fuel+1)) (onBinaryOperator op (l.expression left) (fuel+1)) := by
  refine simulates_bind moves_advance fun _ _ _ => ?_
  refine simulates_bind (simulates_ite Iff.rfl (fun _ => moves_advance) (fun _ => simulates_pure trivial)) fun _ _ _ => ?_
  refine simulates_bind (below.expression _) ?_
  rintro e _ rfl
  exact simulates_pure (by rw [Layout.expression,Layout.expression_offset])

theorem moves_onInfixLeftParen (below : MovesWith l fuel) (left : AstExpression) :
    l.Moves (fun e f => f = l.expression e) (onInfixLeftParen left (fuel+1)) (onInfixLeftParen (l.expression left) (fuel+1)) := by
  refine simulates_bind moves_advance fun _ _ _ => simulates_bind (moves_matchKind .rParen) ?_
  rintro closed _ rfl
  refine simulates_ite Iff.rfl (fun _ => simulates_pure (by rw [Layout.expression,Layout.expression_offset,Layout.expressions])) fun _ => ?_
  refine simulates_bind (moves_values below) ?_
  rintro es _ rfl
  refine simulates_bind (moves_expect _ _) fun _ _ _ => ?_
  exact simulates_pure (by rw [Layout.expression,Layout.expression_offset])

theorem movesWith (l : Layout) (fuel : Nat) : MovesWith l fuel := by
  induction fuel with
  | zero =>
    constructor <;> intros <;> exact simulates_halt _
  | succ fuel below =>
    exact ⟨moves_parseBlock below,moves_parseStatement below,moves_parseExpression below,moves_parseTails below,
      moves_onPrefixLeftBrace below,moves_onKwReturn below,moves_onPrefixOperator below,moves_onBinaryOperator below,
      moves_onInfixLeftParen below⟩
end Expressions

section Definitions
variable {l : Layout}
open Cero.Parser.Layout

theorem moves_parseType (message : Message) : l.Builds (parseType message) := by
  refine simulates_bind moves_peekKind ?_
  rintro kind _ rfl
  exact simulates_ite Iff.rfl (fun _ => moves_onIdentifier)
    (fun _ => simulates_bind (moves_reportExpected message) fun _ _ _ => simulates_throw)

theorem name_fromToken (l : Layout) (t : Token) : l.name ⟨t.offset.toNat,t.variableLength⟩ = ⟨(l.place t.offset).toNat,l.size t.offset t.variableLength⟩ := by
  rw [Layout.name,BitVec.ofNat_toNat,BitVec.setWidth_eq]

-- The name of a declaration that has none is no name that was moved.
def NameMoved (l : Layout) (name moved : AstName) : Prop := moved.isEmpty = name.isEmpty ∧ (name.isEmpty = false → moved = l.name name)

theorem moves_fromToken {t : Token} (keeps : l.KeepsName t) :
    l.Moves (NameMoved l) (ofExcept (AstName.fromToken t)) (ofExcept (AstName.fromToken (l.token t))) := by
  by_cases kind : t.kind = .identifier
  · rw [AstName.fromToken,AstName.fromToken,if_pos kind,if_pos (by rwa [token_kind])]
    refine simulates_pure ⟨?_,fun _ => (name_fromToken l t).symm⟩
    rw [Bool.eq_iff_iff]
    simpa [AstName.isEmpty,Layout.token] using keeps kind
  · rw [AstName.fromToken,AstName.fromToken,if_neg kind,if_neg (by rwa [token_kind])]
    exact fun _ _ _ => .fault _

theorem moves_matchToken (kind : TokenKind) :
    l.Moves (Option.Rel fun t u => u = l.token t ∧ l.KeepsName t ∧ t.kind = kind) (matchToken kind) (matchToken kind) := by
  refine simulates_bind (R := fun t u => u = l.token t ∧ l.KeepsName t) ?_ ?_
  · rintro (_ | ⟨t,rest⟩) _ ⟨rfl,keeps⟩
    · exact .fault _
    · exact moves_done ⟨rfl,keeps.names t List.mem_cons_self⟩ keeps
  · rintro t _ ⟨rfl,name⟩
    exact simulates_ite Iff.rfl (fun same => simulates_bind moves_advance fun _ _ _ => simulates_pure (.some ⟨rfl,name,same⟩))
      (fun _ => simulates_pure .none)

theorem moves_expectIdentifier (message : Message) : l.Moves (NameMoved l) (expectIdentifier message) (expectIdentifier message) := by
  refine simulates_bind (moves_matchToken .identifier) ?_
  rintro _ _ (@⟨t,_,rfl,name,_⟩ | _)
  · exact moves_fromToken name
  · exact simulates_bind (moves_reportExpected message) fun _ _ _ => simulates_pure ⟨rfl,fun some_ => by cases some_⟩

theorem moves_parseFunctionDefinitionParameter :
    l.Moves (fun p q => q = l.parameter p) parseFunctionDefinitionParameter parseFunctionDefinitionParameter := by
  refine simulates_bind moves_peekOffset ?_
  rintro offset _ rfl
  refine simulates_bind (moves_parseType _) ?_
  rintro type _ rfl
  refine simulates_bind (moves_expectIdentifier _) ?_
  rintro name moved ⟨same,named⟩
  refine simulates_ite (by rw [same]) (fun _ => simulates_throw) fun some_ => simulates_pure ?_
  rw [named (by simpa using some_)]
  rfl

theorem moves_parseFunctionDefinitionParameters (rounds : Nat) : l.Moves (fun ps qs => qs = ps.map l.parameter)
    (parseFunctionDefinitionParameters rounds) (parseFunctionDefinitionParameters rounds) := by
  refine simulates_bind (moves_matchKind .rParen) ?_
  rintro closed _ rfl
  refine simulates_ite Iff.rfl (fun _ => simulates_pure rfl) fun _ => ?_
  refine simulates_bind (moves_doWhileComma moves_parseFunctionDefinitionParameter rounds) ?_
  rintro ps _ rfl
  exact simulates_bind (moves_expect _ _) fun _ _ _ => simulates_pure rfl

theorem moves_parseFunctionDefinitionOutput :
    l.Moves (fun o o' => o' = l.output o) parseFunctionDefinitionOutput parseFunctionDefinitionOutput := by
  refine simulates_bind moves_peekOffset ?_
  rintro offset _ rfl
  refine simulates_bind (moves_parseType _) ?_
  rintro type _ rfl
  exact simulates_pure rfl

theorem moves_parseFunctionDefinitionOutputs (rounds : Nat) : l.Moves (fun os os' => os' = os.map l.output)
    (parseFunctionDefinitionOutputs rounds) (parseFunctionDefinitionOutputs rounds) := by
  refine simulates_bind (moves_matchKind .thinArrow) ?_
  rintro arrow _ rfl
  exact simulates_ite Iff.rfl (fun _ => moves_doWhileComma moves_parseFunctionDefinitionOutput rounds) (fun _ => simulates_pure rfl)

theorem moves_parseAccessModifier : l.Moves Eq parseAccessModifier parseAccessModifier := by
  refine simulates_bind (moves_matchKind .kwPrivate) ?_
  rintro isPrivate _ rfl
  refine simulates_ite Iff.rfl (fun _ => simulates_pure rfl) fun _ => simulates_bind (moves_matchKind .kwPublic) ?_
  rintro isPublic _ rfl
  exact simulates_ite Iff.rfl (fun _ => simulates_pure rfl) (fun _ => simulates_pure rfl)

-- A name that is read here may be empty.
theorem moves_parseFunctionDefinition {t : Token} (kind : t.kind = .identifier) (offset : BitVec sourceSizeBits)
    (modifier : AccessModifier) (fuel : Nat) : l.Moves (fun d e => e = l.definition d)
      (parseFunctionDefinition offset modifier t fuel) (parseFunctionDefinition (l.place offset) modifier (l.token t) fuel) := by
  have named : l.Moves (fun n m => m = l.name n) (ofExcept (AstName.fromToken t)) (ofExcept (AstName.fromToken (l.token t))) := by
    rw [AstName.fromToken,AstName.fromToken,if_pos kind,if_pos (by rwa [token_kind])]
    exact simulates_pure (name_fromToken l t).symm
  refine simulates_bind named ?_
  rintro name _ rfl
  refine simulates_bind (moves_expect _ _) fun _ _ _ => simulates_bind (moves_parseFunctionDefinitionParameters fuel) ?_
  rintro ps _ rfl
  refine simulates_bind (moves_parseFunctionDefinitionOutputs fuel) ?_
  rintro os _ rfl
  refine simulates_bind (moves_expect _ _) fun _ _ _ => simulates_bind (movesWith l fuel).block ?_
  rintro es _ rfl
  exact simulates_pure rfl

theorem moves_parseDefinition (fuel : Nat) : l.Moves (fun d e => e = l.definition d) (parseDefinition fuel) (parseDefinition fuel) := by
  refine simulates_bind moves_peekOffset ?_
  rintro offset _ rfl
  refine simulates_bind moves_parseAccessModifier ?_
  rintro modifier _ rfl
  refine simulates_bind (moves_matchToken .identifier) ?_
  rintro _ _ (@⟨t,_,rfl,_,kind⟩ | _)
  · exact moves_parseFunctionDefinition kind offset modifier fuel
  · exact simulates_bind (moves_reportExpected _) fun _ _ _ => simulates_throw

theorem moves_run (fuel : Nat) : l.Moves (fun ds es => es = ds.map l.definition) (run fuel) (run fuel) := by
  induction fuel with
  | zero => exact simulates_halt _
  | succ fuel ih =>
    refine simulates_bind (moves_matchKind .endOfFile) ?_
    rintro atEnd _ rfl
    refine simulates_ite Iff.rfl (fun _ => simulates_pure rfl) fun _ => ?_
    refine simulates_bind (simulates_attempt (moves_parseDefinition fuel)) ?_
    rintro _ _ (@⟨d,_,rfl⟩ | _)
    · refine simulates_bind ih ?_
      rintro ds _ rfl
      exact simulates_pure rfl
    · exact simulates_bind moves_recoverAtDefinitionLevel fun _ _ _ => ih
end Definitions

def Layout.outcome (l : Layout) (o : Outcome (List Token) Expected (List AstDefinition)) :
    Outcome (List Token) Expected (List AstDefinition) :=
  ⟨o.reply.map (·.map l.definition),o.state.map l.token,o.log.map l.expected⟩

theorem agree_outcome {l : Layout} {r r' : Except Fault (Outcome (List Token) Expected (List AstDefinition))}
    (agree : Agree l.link (fun ds es => es = ds.map l.definition) r r') : r' = r.map l.outcome := by
  cases agree with
  | fault f => rfl
  | done replies states logs =>
    obtain ⟨rfl,_⟩ := states
    obtain rfl := logs
    cases replies with
    | ok same =>
      obtain rfl := same
      rfl
    | thrown => rfl

-- Tokens that are moved give the trees and the reports with the tokens moved, and no
-- other ones.
theorem parser_relocates (l : Layout) (tokens : List Token) (keeps : l.Keeps tokens) :
    runParser (tokens.map l.token) = (runParser tokens).map l.outcome := by
  have fuel : enoughFuel (tokens.map l.token) = enoughFuel tokens := by rw [enoughFuel,enoughFuel,List.length_map]
  rw [runParser,runParser,fuel]
  exact agree_outcome (moves_run _ _ _ ⟨rfl,keeps⟩)

-- `f(){a>>b`, broken off, and each of its tokens moved away from the one in front of
-- it but for the second half of `>>`.
def brokenOff : List Token :=
  [.make .identifier 0 1,.fixed .lParen 1,.fixed .rParen 2,.fixed .lBrace 3,.make .identifier 4 1,.fixed .rAngle 5,
    .fixed .rAngle 6,.make .identifier 7 1,.fixed .endOfFile 8]

def stretched : Layout := ⟨fun offset => if offset ≤ 5 then 3 * offset else 3 * offset - 2,fun _ length => 2 * length⟩

theorem parser_relocates_stretched :
    runParser (brokenOff.map stretched.token) = (runParser brokenOff).map stretched.outcome := by
  have names : ∀ t ∈ brokenOff, stretched.KeepsName t := by
    unfold Layout.KeepsName
    decide
  have angles : brokenOff.IsChain stretched.KeepsAngles := by
    unfold Layout.KeepsAngles
    decide
  exact parser_relocates stretched brokenOff ⟨names,angles⟩

-- Every token moved by the same distance.
def Layout.shift (n : Nat) : Layout := ⟨(· + BitVec.ofNat sourceSizeBits n),fun _ length => length⟩

end Cero.Parser
