import Cero.Parser

namespace Cero.Parser

-- The rule of the tail at the front of the remaining tokens, `none` where looking
-- it up reads behind the last token.
def nextTail : List Token → Option TailParseRule
  | [] => none
  | token :: rest =>
    if token.kind = .rAngle then rest.head?.map (fun ahead =>
      if adjacentAngle token ahead then ⟨.additiveOrBit,some (.onBinaryOperator .shr)⟩
      else ⟨.comparison,some (.onBinaryOperator .greater)⟩)
    else some (tailRuleOfKind token.kind)

def Stops (p : Precedence) (ts : List Token) : Prop :=
  ∃ rule, nextTail ts = some rule ∧ ¬ p < rule.precedence

def Attaches (p : Precedence) (ts : List Token) : Prop :=
  ∃ rule, nextTail ts = some rule ∧ p < rule.precedence

def operatorWidth (op : BinaryOperator) : Nat := if op = .shr then 2 else 1

-- Where the skipping of `recover_at_statement_level` ends, and whether that is
-- the end of the file.
def skipStatement : List Token → Option (Bool × List Token)
  | [] => none
  | t :: rest =>
    if t.kind = .endOfFile then some (true,t :: rest)
    else if t.kind = .semicolon then some (false,rest)
    else if t.kind = .rBrace then some (false,t :: rest)
    else skipStatement rest

inductive Form where
  | expr (e : AstExpression)
  | list (es : List AstExpression)

inductive Task where
  | block
  | statement
  | expression (p : Precedence)
  | tails (p : Precedence) (left : AstExpression)
  | head
  | tail (left : AstExpression)
  | values

-- Independent rules for the mutually recursive parse functions: from the remaining
-- tokens to a reply, the tokens then remaining and the reports made on the way.
-- One rule for each way through a function; no rule says how long a run may be.
inductive Runs : Task → List Token → Reply Form → List Token → List Expected → Prop where
  | blockClose {t : Token} {rest : List Token} (close : t.kind = .rBrace) :
      Runs .block (t :: rest) (.ok (.list [])) rest []
  | blockNext {t : Token} {rest ts₁ ts₂ : List Token} {e : AstExpression} {es : List AstExpression}
      {log₁ log₂ : List Expected} (inside : t.kind ≠ .rBrace)
      (first : Runs .statement (t :: rest) (.ok (.expr e)) ts₁ log₁)
      (others : Runs .block ts₁ (.ok (.list es)) ts₂ log₂) :
      Runs .block (t :: rest) (.ok (.list (e :: es))) ts₂ (log₁ ++ log₂)
  | blockRecover {t : Token} {rest ts₁ ts₂ ts₃ : List Token} {es : List AstExpression}
      {log₁ log₂ : List Expected} (inside : t.kind ≠ .rBrace)
      (first : Runs .statement (t :: rest) .thrown ts₁ log₁)
      (skipped : skipStatement ts₁ = some (false,ts₂))
      (others : Runs .block ts₂ (.ok (.list es)) ts₃ log₂) :
      Runs .block (t :: rest) (.ok (.list es)) ts₃ (log₁ ++ log₂)
  | blockEnd {t : Token} {rest ts₁ ts₂ : List Token} {log : List Expected} (inside : t.kind ≠ .rBrace)
      (first : Runs .statement (t :: rest) .thrown ts₁ log)
      (skipped : skipStatement ts₁ = some (true,ts₂)) :
      Runs .block (t :: rest) (.ok (.list [])) ts₂ log
  | statementBlock {t : Token} {rest ts₁ : List Token} {reply : Reply Form} {log : List Expected}
      (brace : t.kind = .lBrace) (run : Runs .head (t :: rest) reply ts₁ log) :
      Runs .statement (t :: rest) reply ts₁ log
  | statementClosed {t u : Token} {rest ts₁ : List Token} {e : AstExpression} {log : List Expected}
      (noBrace : t.kind ≠ .lBrace)
      (run : Runs (.expression .statement) (t :: rest) (.ok (.expr e)) (u :: ts₁) log)
      (semicolon : u.kind = .semicolon) : Runs .statement (t :: rest) (.ok (.expr e)) ts₁ log
  | statementOpen {t u : Token} {rest ts₁ : List Token} {e : AstExpression} {log : List Expected}
      (noBrace : t.kind ≠ .lBrace)
      (run : Runs (.expression .statement) (t :: rest) (.ok (.expr e)) (u :: ts₁) log)
      (other : u.kind ≠ .semicolon) :
      Runs .statement (t :: rest) .thrown (u :: ts₁) (log ++ [⟨.expectSemicolon,u⟩])
  | statementThrown {t : Token} {rest ts₁ : List Token} {log : List Expected} (noBrace : t.kind ≠ .lBrace)
      (run : Runs (.expression .statement) (t :: rest) .thrown ts₁ log) :
      Runs .statement (t :: rest) .thrown ts₁ log
  | noHead {t : Token} {rest : List Token} {p : Precedence} (none : lookupHeadParseFn t.kind = none) :
      Runs (.expression p) (t :: rest) .thrown (t :: rest) [⟨.expectExpression,t⟩]
  | headThrown {ts ts₁ : List Token} {p : Precedence} {log : List Expected}
      (run : Runs .head ts .thrown ts₁ log) : Runs (.expression p) ts .thrown ts₁ log
  | headTails {ts ts₁ ts₂ : List Token} {p : Precedence} {e : AstExpression} {reply : Reply Form}
      {log₁ log₂ : List Expected} (run : Runs .head ts (.ok (.expr e)) ts₁ log₁)
      (tails : Runs (.tails p e) ts₁ reply ts₂ log₂) : Runs (.expression p) ts reply ts₂ (log₁ ++ log₂)
  | tailsStop {ts : List Token} {p : Precedence} {left : AstExpression} (stops : Stops p ts) :
      Runs (.tails p left) ts (.ok (.expr left)) ts []
  | tailsThrown {ts ts₁ : List Token} {p : Precedence} {left : AstExpression} {log : List Expected}
      (attaches : Attaches p ts) (run : Runs (.tail left) ts .thrown ts₁ log) :
      Runs (.tails p left) ts .thrown ts₁ log
  | tailsNext {ts ts₁ ts₂ : List Token} {p : Precedence} {left e : AstExpression} {reply : Reply Form}
      {log₁ log₂ : List Expected} (attaches : Attaches p ts)
      (run : Runs (.tail left) ts (.ok (.expr e)) ts₁ log₁)
      (tails : Runs (.tails p e) ts₁ reply ts₂ log₂) : Runs (.tails p left) ts reply ts₂ (log₁ ++ log₂)
  | identifier {t : Token} {rest : List Token} (kind : t.kind = .identifier) :
      Runs .head (t :: rest) (.ok (.expr (.ident t.offset t.variableLength))) rest []
  | literal {t : Token} {rest : List Token} {literalKind : LiteralKind}
      (found : lookupHeadParseFn t.kind = some (.onLiteral literalKind)) :
      Runs .head (t :: rest) (.ok (.expr (.literal t.offset literalKind t.variableLength))) rest []
  | brace {t : Token} {rest ts₁ : List Token} {es : List AstExpression} {log : List Expected}
      (kind : t.kind = .lBrace) (run : Runs .block rest (.ok (.list es)) ts₁ log) :
      Runs .head (t :: rest) (.ok (.expr (.block t.offset es))) ts₁ log
  | returnBare {t u : Token} {rest : List Token} (kind : t.kind = .kwReturn)
      (none : lookupHeadParseFn u.kind = none) :
      Runs .head (t :: u :: rest) (.ok (.expr (.return_ t.offset []))) (u :: rest) []
  | returnValues {t u : Token} {rest ts₁ : List Token} {es : List AstExpression} {log : List Expected}
      (kind : t.kind = .kwReturn) (some : lookupHeadParseFn u.kind ≠ none)
      (run : Runs .values (u :: rest) (.ok (.list es)) ts₁ log) :
      Runs .head (t :: u :: rest) (.ok (.expr (.return_ t.offset es))) ts₁ log
  | returnThrown {t u : Token} {rest ts₁ : List Token} {log : List Expected} (kind : t.kind = .kwReturn)
      (some : lookupHeadParseFn u.kind ≠ none) (run : Runs .values (u :: rest) .thrown ts₁ log) :
      Runs .head (t :: u :: rest) .thrown ts₁ log
  | prefixed {t : Token} {rest ts₁ : List Token} {op : UnaryOperator} {e : AstExpression} {log : List Expected}
      (found : lookupHeadParseFn t.kind = some (.onPrefixOperator op))
      (run : Runs (.expression .prefix_) rest (.ok (.expr e)) ts₁ log) :
      Runs .head (t :: rest) (.ok (.expr (.unary t.offset op e))) ts₁ log
  | prefixThrown {t : Token} {rest ts₁ : List Token} {op : UnaryOperator} {log : List Expected}
      (found : lookupHeadParseFn t.kind = some (.onPrefixOperator op))
      (run : Runs (.expression .prefix_) rest .thrown ts₁ log) : Runs .head (t :: rest) .thrown ts₁ log
  | binary {ts ts₁ : List Token} {p : Precedence} {op : BinaryOperator} {left right : AstExpression}
      {log : List Expected} (found : nextTail ts = some ⟨p,some (.onBinaryOperator op)⟩)
      (run : Runs (.expression (lookupPrecedenceForAssociativity op)) (ts.drop (operatorWidth op))
        (.ok (.expr right)) ts₁ log) :
      Runs (.tail left) ts (.ok (.expr (.binary left.tokenOffset op left right))) ts₁ log
  | binaryThrown {ts ts₁ : List Token} {p : Precedence} {op : BinaryOperator} {left : AstExpression}
      {log : List Expected} (found : nextTail ts = some ⟨p,some (.onBinaryOperator op)⟩)
      (run : Runs (.expression (lookupPrecedenceForAssociativity op)) (ts.drop (operatorWidth op)) .thrown ts₁ log) :
      Runs (.tail left) ts .thrown ts₁ log
  | postfixed {t : Token} {rest : List Token} {p : Precedence} {op : UnaryOperator} {left : AstExpression}
      (found : nextTail (t :: rest) = some ⟨p,some (.onPostfixOperator op)⟩) :
      Runs (.tail left) (t :: rest) (.ok (.expr (.unary left.tokenOffset op left))) rest []
  | callEmpty {t u : Token} {rest : List Token} {left : AstExpression} (kind : t.kind = .lParen)
      (close : u.kind = .rParen) :
      Runs (.tail left) (t :: u :: rest) (.ok (.expr (.call left.tokenOffset left []))) rest []
  | callClosed {t u v : Token} {rest ts₁ : List Token} {left : AstExpression} {es : List AstExpression}
      {log : List Expected} (kind : t.kind = .lParen) (argument : u.kind ≠ .rParen)
      (run : Runs .values (u :: rest) (.ok (.list es)) (v :: ts₁) log) (close : v.kind = .rParen) :
      Runs (.tail left) (t :: u :: rest) (.ok (.expr (.call left.tokenOffset left es))) ts₁ log
  | callOpen {t u v : Token} {rest ts₁ : List Token} {left : AstExpression} {es : List AstExpression}
      {log : List Expected} (kind : t.kind = .lParen) (argument : u.kind ≠ .rParen)
      (run : Runs .values (u :: rest) (.ok (.list es)) (v :: ts₁) log) (other : v.kind ≠ .rParen) :
      Runs (.tail left) (t :: u :: rest) .thrown (v :: ts₁) (log ++ [⟨.expectClosingParenInCall,v⟩])
  | callThrown {t u : Token} {rest ts₁ : List Token} {left : AstExpression} {log : List Expected}
      (kind : t.kind = .lParen) (argument : u.kind ≠ .rParen)
      (run : Runs .values (u :: rest) .thrown ts₁ log) : Runs (.tail left) (t :: u :: rest) .thrown ts₁ log
  | valuesLast {ts ts₁ : List Token} {u : Token} {e : AstExpression} {log : List Expected}
      (run : Runs (.expression .statement) ts (.ok (.expr e)) (u :: ts₁) log) (last : u.kind ≠ .comma) :
      Runs .values ts (.ok (.list [e])) (u :: ts₁) log
  | valuesNext {ts ts₁ ts₂ : List Token} {u : Token} {e : AstExpression} {es : List AstExpression}
      {log₁ log₂ : List Expected} (run : Runs (.expression .statement) ts (.ok (.expr e)) (u :: ts₁) log₁)
      (comma : u.kind = .comma) (others : Runs .values ts₁ (.ok (.list es)) ts₂ log₂) :
      Runs .values ts (.ok (.list (e :: es))) ts₂ (log₁ ++ log₂)
  | valuesNextThrown {ts ts₁ ts₂ : List Token} {u : Token} {e : AstExpression} {log₁ log₂ : List Expected}
      (run : Runs (.expression .statement) ts (.ok (.expr e)) (u :: ts₁) log₁) (comma : u.kind = .comma)
      (others : Runs .values ts₁ .thrown ts₂ log₂) : Runs .values ts .thrown ts₂ (log₁ ++ log₂)
  | valuesThrown {ts ts₁ : List Token} {log : List Expected}
      (run : Runs (.expression .statement) ts .thrown ts₁ log) : Runs .values ts .thrown ts₁ log
end Cero.Parser
