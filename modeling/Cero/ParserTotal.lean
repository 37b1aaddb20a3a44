import Cero.ParserProgress

namespace Cero.Parser
open Effect TokenCursor

def rank : Task → Nat
  | .block => 4
  | .statement | .values => 3
  | .expression _ | .tails _ _ => 2
  | .head | .tail _ => 1

-- Enough fuel for a task: a call on the same tokens goes down in rank, and all
-- ranks fit under one token.
def need (task : Task) (ts : List Token) : Nat := 8 * ts.length + rank task

theorem expression_cons {p : Precedence} {ts ts' : List Token} {r : Reply Form} {log : List Expected}
    (run : Runs (.expression p) ts r ts' log) : ∃ t rest, ts = t :: rest := by
  cases run with
  | noHead none => exact ⟨_,_,rfl⟩
  | headThrown run | headTails run tails => cases run <;> exact ⟨_,_,rfl⟩

-- A statement that was thrown and skipped has moved the block on.
theorem recover_progress {t : Token} {rest ts₁ ts₂ : List Token} {log : List Expected} (inside : t.kind ≠ .rBrace)
    (first : Runs .statement (t :: rest) .thrown ts₁ log) (skipped : skipStatement ts₁ = some (false,ts₂)) :
    ts₂.length ≤ rest.length := by
  obtain ⟨seg,same,_⟩ := (runs_consume first).1
  rcases skip_progress skipped with shorter | ⟨rfl,u,rest₁,rfl,close⟩
  · have bound := (runs_consume first).1.length
    simp only [List.length_cons] at bound; omega
  · cases seg with
    | nil => cases same; exact absurd close inside
    | cons v seg =>
      simp only [List.cons_append,List.cons.injEq] at same
      rw [same.2,List.length_append]; omega

theorem fuel_left {task : Task} {ts : List Token} {n : Nat} (fuel : need task ts ≤ n) : ∃ m, n = m + 1 := by
  have positive : 0 < need task ts := by
    rw [need]
    cases task <;> exact Nat.succ_pos _
  exact ⟨n-1,by omega⟩

-- Each function from where it has looked at the tokens that decide it.
section Enter
variable {t u : Token} {ts rest : List Token} {p q : Precedence} {left : AstExpression}

theorem parseBlock_next {n : Nat} {e : AstExpression} {ts₁ : List Token} {log : List Expected} (inside : t.kind ≠ .rBrace)
    (statement : parseStatement n (t :: rest) = .ok ⟨.ok e,ts₁,log⟩) : parseBlock (n+1) (t :: rest) =
      ((do let statements ← parseBlock n; return e :: statements : Parser (List AstExpression)) ts₁).map (Outcome.after log) := by
  rw [parseBlock,bind_ok (matchKind_other inside),map_after_nil,if_neg Bool.false_ne_true,bind_ok (attempt_ok statement)]

theorem parseBlock_thrown {n : Nat} {ts₁ : List Token} {log : List Expected} (inside : t.kind ≠ .rBrace)
    (statement : parseStatement n (t :: rest) = .ok ⟨.thrown,ts₁,log⟩) : parseBlock (n+1) (t :: rest) =
      ((do if ← recoverAtStatementLevel then return [] else parseBlock n : Parser (List AstExpression)) ts₁).map (Outcome.after log) := by
  rw [parseBlock,bind_ok (matchKind_other inside),map_after_nil,if_neg Bool.false_ne_true,bind_ok (attempt_thrown statement)]

theorem parseStatement_enter (noBrace : t.kind ≠ .lBrace) (n : Nat) (rest : List Token) :
    parseStatement (n+1) (t :: rest) = (do
      let lastExpr ← parseExpression .statement n
      expect .semicolon .expectSemicolon
      return lastExpr : Parser AstExpression) (t :: rest) := by
  rw [parseStatement,bind_ok peekKind_run,map_after_nil]
  simp only [statementRule_other noBrace,if_true,Bool.false_eq_true,if_false]

theorem parseExpression_enter {fn : HeadParseFunction} (found : lookupHeadParseFn t.kind = some fn) (n : Nat) :
    parseExpression p (n+1) (t :: rest) = (do
      let expr ← callHead (onPrefixLeftBrace n) (onKwReturn n) (onPrefixOperator · n) fn
      parseTails p expr n : Parser AstExpression) (t :: rest) := by
  rw [parseExpression,bind_ok peek_run,map_after_nil]
  simp only [found]

theorem parseTails_enter {fn : TailParseFunction} (found : nextTail ts = some ⟨q,some fn⟩) (binds : p < q) (n : Nat) :
    parseTails p left (n+1) ts = (do
      let next ← callTail (onBinaryOperator · · n) (onInfixLeftParen · n) left fn
      parseTails p next n : Parser AstExpression) ts := by
  rw [parseTails,bind_ok (getNextTailParseFn_run found p),if_pos binds,map_after_nil]

theorem onKwReturn_enter (kind : t.kind = .kwReturn) (some : lookupHeadParseFn u.kind ≠ none) (n : Nat) :
    onKwReturn (n+1) (t :: u :: rest) = (do
      let retValues ← doWhileComma (parseExpression .statement n) n
      return .return_ t.offset retValues : Parser AstExpression) (u :: rest) := by
  have next : isExpressionNext (u :: rest) = .ok ⟨.ok true,u :: rest,[]⟩ := by
    simp [isExpressionNext,bind_run,Option.isSome_iff_ne_none,some]
  rw [onKwReturn,bind_ok (next_run (kind_more kind (by decide))),map_after_nil,bind_ok next,map_after_nil,if_pos rfl]

theorem onPrefixOperator_enter {op : UnaryOperator} (found : lookupHeadParseFn t.kind = some (.onPrefixOperator op)) (n : Nat) :
    onPrefixOperator op (n+1) (t :: rest) = (do
      let operand ← parseExpression .prefix_ n
      return .unary t.offset op operand : Parser AstExpression) rest := by
  rw [onPrefixOperator,bind_ok (next_run (head_more found)),map_after_nil]

theorem onInfixLeftParen_enter (kind : t.kind = .lParen) (argument : u.kind ≠ .rParen) (left : AstExpression)
    (n : Nat) (rest : List Token) : onInfixLeftParen left (n+1) (t :: u :: rest) = (do
      let args ← doWhileComma (parseExpression .statement n) n
      expect .rParen .expectClosingParenInCall
      return .call left.tokenOffset left args : Parser AstExpression) (u :: rest) := by
  rw [onInfixLeftParen,bind_ok (advance_run (kind_more kind (by decide))),map_after_nil,bind_ok (matchKind_other argument),
    map_after_nil]
  simp only [Bool.false_eq_true,if_false]
end Enter

theorem complete {task : Task} {ts ts' : List Token} {r : Reply Form} {log : List Expected}
    (run : Runs task ts r ts' log) (n rounds : Nat) (fuel : need task ts ≤ n) (counted : ts.length ≤ rounds) :
    Ends task n rounds ts r ts' log := by
  induction run generalizing n rounds with
  | @blockClose t rest close =>
    obtain ⟨n,rfl⟩ := fuel_left fuel
    refine ⟨.ok [],?_,rfl⟩
    rw [parseBlock,bind_ok (matchKind_same close (by decide))]; rfl
  | @blockNext t rest ts₁ ts₂ e es log₁ log₂ inside first others ih₁ ih₂ =>
    have shorter := (runs_consume first).2
    obtain ⟨n,rfl⟩ := fuel_left fuel
    simp only [need,rank,least,List.length_cons] at *
    obtain ⟨_ | _,statement,⟨⟩⟩ := ih₁ n rounds (by omega) counted
    obtain ⟨_ | _,block,⟨⟩⟩ := ih₂ n rounds (by omega) (by omega)
    refine ⟨.ok (e :: es),?_,rfl⟩
    rw [parseBlock_next inside statement]
    simp [bind_ok block]
  | @blockRecover t rest ts₁ ts₂ ts₃ es log₁ log₂ inside first skipped others ih₁ ih₂ =>
    have shorter := recover_progress inside first skipped
    obtain ⟨n,rfl⟩ := fuel_left fuel
    simp only [need,rank,List.length_cons] at *
    obtain ⟨_ | _,statement,⟨⟩⟩ := ih₁ n rounds (by omega) counted
    obtain ⟨_ | _,block,⟨⟩⟩ := ih₂ n rounds (by omega) (by omega)
    refine ⟨.ok es,?_,rfl⟩
    rw [parseBlock_thrown inside statement]
    simp [bind_ok (recoverAtStatementLevel_run skipped),block]
  | @blockEnd t rest ts₁ ts₂ log inside first skipped ih =>
    obtain ⟨n,rfl⟩ := fuel_left fuel
    simp only [need,rank,List.length_cons] at *
    obtain ⟨_ | _,statement,⟨⟩⟩ := ih n rounds (by omega) counted
    refine ⟨.ok [],?_,rfl⟩
    rw [parseBlock_thrown inside statement]
    simp [bind_ok (recoverAtStatementLevel_run skipped)]
  | @statementBlock t rest ts₁ r log brace run ih =>
    obtain ⟨n,rfl⟩ := fuel_left fuel
    simp only [need,rank,List.length_cons] at *
    obtain ⟨u,_,fn,reply,⟨⟩,found,ran,rfl⟩ := ih n rounds (by omega) counted
    have same : fn = .onPrefixLeftBrace := by rw [brace] at found; cases found; rfl
    subst same
    refine ⟨reply,?_,rfl⟩
    rw [parseStatement,bind_ok peekKind_run,map_after_nil]
    simp only [brace,lookupStatementRule,if_true,Bool.false_eq_true,if_false]
    rw [callHead] at ran
    cases reply with
    | ok e => rw [bind_ok ran,bind_ok pure_run]; simp
    | thrown => exact bind_thrown ran
  | @statementClosed t u rest ts₁ e log noBrace run semicolon ih =>
    obtain ⟨n,rfl⟩ := fuel_left fuel
    simp only [need,rank,List.length_cons] at *
    obtain ⟨_ | _,ran,⟨⟩⟩ := ih n rounds (by omega) counted
    refine ⟨.ok e,?_,rfl⟩
    rw [parseStatement_enter noBrace,bind_ok ran,bind_ok (expect_same semicolon (by decide))]; simp
  | @statementOpen t u rest ts₁ e log noBrace run other ih =>
    obtain ⟨n,rfl⟩ := fuel_left fuel
    simp only [need,rank,List.length_cons] at *
    obtain ⟨_ | _,ran,⟨⟩⟩ := ih n rounds (by omega) counted
    refine ⟨.thrown,?_,rfl⟩
    rw [parseStatement_enter noBrace,bind_ok ran,bind_thrown (expect_other other)]; simp
  | @statementThrown t rest ts₁ log noBrace run ih =>
    obtain ⟨n,rfl⟩ := fuel_left fuel
    simp only [need,rank,List.length_cons] at *
    obtain ⟨_ | _,ran,⟨⟩⟩ := ih n rounds (by omega) counted
    refine ⟨.thrown,?_,rfl⟩
    rw [parseStatement_enter noBrace]
    exact bind_thrown ran
  | @noHead t rest p none =>
    obtain ⟨n,rfl⟩ := fuel_left fuel
    refine ⟨.thrown,?_,rfl⟩
    rw [parseExpression,bind_ok peek_run,map_after_nil]
    simp only [none]; rfl
  | @headThrown ts ts₁ p log run ih =>
    obtain ⟨n,rfl⟩ := fuel_left fuel
    simp only [need,rank] at *
    obtain ⟨t,rest,fn,_ | _,rfl,found,ran,⟨⟩⟩ := ih n rounds (by omega) counted
    refine ⟨.thrown,?_,rfl⟩
    rw [parseExpression_enter found]
    exact bind_thrown ran
  | @headTails ts ts₁ ts₂ p e r log₁ log₂ run tails ih₁ ih₂ =>
    have shorter := (runs_consume run).2
    obtain ⟨n,rfl⟩ := fuel_left fuel
    simp only [need,rank,least] at *
    obtain ⟨t,rest,fn,_ | _,rfl,found,ran,⟨⟩⟩ := ih₁ n rounds (by omega) counted
    obtain ⟨reply,loop,rfl⟩ := ih₂ n rounds (by omega) (by omega)
    refine ⟨reply,?_,rfl⟩
    rw [parseExpression_enter found,bind_ok ran,loop]; rfl
  | @tailsStop ts p left stops =>
    obtain ⟨rule,found,loose⟩ := stops
    obtain ⟨n,rfl⟩ := fuel_left fuel
    refine ⟨.ok left,?_,rfl⟩
    rw [parseTails,bind_ok (getNextTailParseFn_run found p),if_neg loose]; rfl
  | @tailsThrown ts ts₁ p left log attaches run ih =>
    obtain ⟨rule,found,binds⟩ := attaches
    obtain ⟨n,rfl⟩ := fuel_left fuel
    simp only [need,rank] at *
    obtain ⟨q,fn,_ | _,again,ran,⟨⟩⟩ := ih n rounds (by omega) counted
    rw [again] at found; cases found
    refine ⟨.thrown,?_,rfl⟩
    rw [parseTails_enter again binds]
    exact bind_thrown ran
  | @tailsNext ts ts₁ ts₂ p left e r log₁ log₂ attaches run tails ih₁ ih₂ =>
    obtain ⟨rule,found,binds⟩ := attaches
    have shorter := (runs_consume run).2
    obtain ⟨n,rfl⟩ := fuel_left fuel
    simp only [need,rank,least] at *
    obtain ⟨q,fn,_ | _,again,ran,⟨⟩⟩ := ih₁ n rounds (by omega) counted
    rw [again] at found; cases found
    obtain ⟨reply,loop,rfl⟩ := ih₂ n rounds (by omega) (by omega)
    refine ⟨reply,?_,rfl⟩
    rw [parseTails_enter again binds,bind_ok ran,loop]; rfl
  | @identifier t rest kind =>
    refine ⟨t,rest,.onIdentifier,.ok _,rfl,by rw [kind]; rfl,?_,rfl⟩
    rw [callHead,onIdentifier,bind_ok (next_run (kind_more kind (by decide)))]; rfl
  | @literal t rest literalKind found =>
    refine ⟨t,rest,_,.ok _,rfl,found,?_,rfl⟩
    rw [callHead,onLiteral,bind_ok (next_run (head_more found))]; rfl
  | @brace t rest ts₁ es log kind run ih =>
    obtain ⟨n,rfl⟩ := fuel_left fuel
    simp only [need,rank,List.length_cons] at *
    obtain ⟨_ | _,ran,⟨⟩⟩ := ih n rounds (by omega) (by omega)
    refine ⟨t,rest,.onPrefixLeftBrace,.ok _,rfl,by rw [kind]; rfl,?_,rfl⟩
    rw [callHead,onPrefixLeftBrace,bind_ok (next_run (kind_more kind (by decide))),map_after_nil,bind_ok ran]
    simp
  | @returnBare t u rest kind none =>
    obtain ⟨n,rfl⟩ := fuel_left fuel
    simp only [need,rank,List.length_cons] at *
    refine ⟨t,u :: rest,.onKwReturn,.ok _,rfl,by rw [kind]; rfl,?_,rfl⟩
    rw [callHead,onKwReturn,bind_ok (next_run (kind_more kind (by decide))),map_after_nil]
    simp [isExpressionNext,bind_run,none]
  | @returnValues t u rest ts₁ es log kind some run ih =>
    obtain ⟨n,rfl⟩ := fuel_left fuel
    simp only [need,rank,List.length_cons] at *
    obtain ⟨_ | _,ran,⟨⟩⟩ := ih n n (by omega) (by omega)
    refine ⟨t,u :: rest,.onKwReturn,.ok _,rfl,by rw [kind]; rfl,?_,rfl⟩
    rw [callHead,onKwReturn_enter kind some,bind_ok ran]
    simp
  | @returnThrown t u rest ts₁ log kind some run ih =>
    obtain ⟨n,rfl⟩ := fuel_left fuel
    simp only [need,rank,List.length_cons] at *
    obtain ⟨_ | _,ran,⟨⟩⟩ := ih n n (by omega) (by omega)
    refine ⟨t,u :: rest,.onKwReturn,.thrown,rfl,by rw [kind]; rfl,?_,rfl⟩
    rw [callHead,onKwReturn_enter kind some]
    exact bind_thrown ran
  | @prefixed t rest ts₁ op e log found run ih =>
    obtain ⟨n,rfl⟩ := fuel_left fuel
    simp only [need,rank,List.length_cons] at *
    obtain ⟨_ | _,ran,⟨⟩⟩ := ih n rounds (by omega) (by omega)
    refine ⟨t,rest,_,.ok _,rfl,found,?_,rfl⟩
    rw [callHead,onPrefixOperator_enter found,bind_ok ran]
    simp
  | @prefixThrown t rest ts₁ op log found run ih =>
    obtain ⟨n,rfl⟩ := fuel_left fuel
    simp only [need,rank,List.length_cons] at *
    obtain ⟨_ | _,ran,⟨⟩⟩ := ih n rounds (by omega) (by omega)
    refine ⟨t,rest,_,.thrown,rfl,found,?_,rfl⟩
    rw [callHead,onPrefixOperator_enter found]
    exact bind_thrown ran
  | @binary ts ts₁ p op left right log found run ih =>
    have shorter := (operator_consumed found).2
    obtain ⟨n,rfl⟩ := fuel_left fuel
    simp only [need,rank] at *
    obtain ⟨_ | _,ran,⟨⟩⟩ := ih n rounds (by omega) (by omega)
    refine ⟨p,_,.ok _,found,?_,rfl⟩
    rw [callTail,onBinaryOperator,binary_advance found,bind_ok ran]
    simp
  | @binaryThrown ts ts₁ p op left log found run ih =>
    have shorter := (operator_consumed found).2
    obtain ⟨n,rfl⟩ := fuel_left fuel
    simp only [need,rank] at *
    obtain ⟨_ | _,ran,⟨⟩⟩ := ih n rounds (by omega) (by omega)
    refine ⟨p,_,.thrown,found,?_,rfl⟩
    rw [callTail,onBinaryOperator,binary_advance found]
    exact bind_thrown ran
  | @postfixed t rest p op left found =>
    refine ⟨p,_,.ok _,found,?_,rfl⟩
    rw [callTail,onPostfixOperator,bind_ok (advance_run (postfix_more found))]; rfl
  | @callEmpty t u rest left kind close =>
    obtain ⟨n,rfl⟩ := fuel_left fuel
    simp only [need,rank,List.length_cons] at *
    refine ⟨.postfix_,.onInfixLeftParen,.ok _,paren_tail kind _,?_,rfl⟩
    rw [callTail,onInfixLeftParen,bind_ok (advance_run (kind_more kind (by decide))),map_after_nil,
      bind_ok (matchKind_same close (by decide))]
    rfl
  | @callClosed t u v rest ts₁ left es log kind argument run close ih =>
    obtain ⟨n,rfl⟩ := fuel_left fuel
    simp only [need,rank,List.length_cons] at *
    obtain ⟨_ | _,ran,⟨⟩⟩ := ih n n (by omega) (by omega)
    refine ⟨.postfix_,.onInfixLeftParen,.ok _,paren_tail kind _,?_,rfl⟩
    rw [callTail,onInfixLeftParen_enter kind argument,bind_ok ran,bind_ok (expect_same close (by decide))]
    simp
  | @callOpen t u v rest ts₁ left es log kind argument run other ih =>
    obtain ⟨n,rfl⟩ := fuel_left fuel
    simp only [need,rank,List.length_cons] at *
    obtain ⟨_ | _,ran,⟨⟩⟩ := ih n n (by omega) (by omega)
    refine ⟨.postfix_,.onInfixLeftParen,.thrown,paren_tail kind _,?_,rfl⟩
    rw [callTail,onInfixLeftParen_enter kind argument,bind_ok ran,bind_thrown (expect_other other)]
    rfl
  | @callThrown t u rest ts₁ left log kind argument run ih =>
    obtain ⟨n,rfl⟩ := fuel_left fuel
    simp only [need,rank,List.length_cons] at *
    obtain ⟨_ | _,ran,⟨⟩⟩ := ih n n (by omega) (by omega)
    refine ⟨.postfix_,.onInfixLeftParen,.thrown,paren_tail kind _,?_,rfl⟩
    rw [callTail,onInfixLeftParen_enter kind argument]
    exact bind_thrown ran
  | @valuesLast ts ts₁ u e log run last ih =>
    obtain ⟨t,rest,rfl⟩ := expression_cons run
    obtain _ | rounds := rounds
    · simp at counted
    obtain ⟨_ | _,ran,⟨⟩⟩ := ih n (rounds+1) (Nat.le_of_succ_le fuel) counted
    refine ⟨.ok [e],?_,rfl⟩
    rw [doWhileComma,bind_ok ran,bind_ok (matchKind_other last)]; simp
  | @valuesNext ts ts₁ ts₂ u e es log₁ log₂ run comma others ih₁ ih₂ =>
    have shorter := (runs_consume run).2
    simp only [need,rank,least,List.length_cons] at *
    obtain _ | rounds := rounds
    · omega
    obtain ⟨_ | _,ran,⟨⟩⟩ := ih₁ n (rounds+1) (by omega) counted
    obtain ⟨_ | _,loop,⟨⟩⟩ := ih₂ n rounds (by omega) (by omega)
    refine ⟨.ok (e :: es),?_,rfl⟩
    rw [doWhileComma,bind_ok ran,bind_ok (matchKind_same comma (by decide))]
    simp [bind_ok loop]
  | @valuesNextThrown ts ts₁ ts₂ u e log₁ log₂ run comma others ih₁ ih₂ =>
    have shorter := (runs_consume run).2
    simp only [need,rank,least,List.length_cons] at *
    obtain _ | rounds := rounds
    · omega
    obtain ⟨_ | _,ran,⟨⟩⟩ := ih₁ n (rounds+1) (by omega) counted
    obtain ⟨_ | _,loop,⟨⟩⟩ := ih₂ n rounds (by omega) (by omega)
    refine ⟨.thrown,?_,rfl⟩
    rw [doWhileComma,bind_ok ran,bind_ok (matchKind_same comma (by decide))]
    simp [bind_thrown loop]
  | @valuesThrown ts ts₁ log run ih =>
    obtain ⟨t,rest,rfl⟩ := expression_cons run
    obtain _ | rounds := rounds
    · simp at counted
    obtain ⟨_ | _,ran,⟨⟩⟩ := ih n (rounds+1) (Nat.le_of_succ_le fuel) counted
    refine ⟨.thrown,?_,rfl⟩
    rw [doWhileComma,bind_thrown ran]

-- The rules leave no choice: two runs on the same tokens are one run.
theorem runs_unique {task : Task} {ts ts₁ ts₂ : List Token} {r₁ r₂ : Reply Form} {log₁ log₂ : List Expected}
    (run₁ : Runs task ts r₁ ts₁ log₁) (run₂ : Runs task ts r₂ ts₂ log₂) : r₁ = r₂ ∧ ts₁ = ts₂ ∧ log₁ = log₂ := by
  have ends₁ := complete run₁ (need task ts) ts.length (Nat.le_refl _) (Nat.le_refl _)
  have ends₂ := complete run₂ (need task ts) ts.length (Nat.le_refl _) (Nat.le_refl _)
  cases task with
  | block | statement | expression p | tails p left | values =>
    obtain ⟨_,ran₁,rfl⟩ := ends₁
    obtain ⟨_,ran₂,rfl⟩ := ends₂
    rw [ran₁] at ran₂; cases ran₂; exact ⟨rfl,rfl,rfl⟩
  | head =>
    obtain ⟨t,rest,fn₁,_,rfl,found₁,ran₁,rfl⟩ := ends₁
    obtain ⟨_,_,fn₂,_,⟨⟩,found₂,ran₂,rfl⟩ := ends₂
    rw [found₁] at found₂; cases found₂
    rw [ran₁] at ran₂; cases ran₂; exact ⟨rfl,rfl,rfl⟩
  | tail left =>
    obtain ⟨p,fn₁,_,found₁,ran₁,rfl⟩ := ends₁
    obtain ⟨_,fn₂,_,found₂,ran₂,rfl⟩ := ends₂
    rw [found₁] at found₂; cases found₂
    rw [ran₁] at ran₂; cases ran₂; exact ⟨rfl,rfl,rfl⟩

def listed : Task → Bool
  | .block | .values => true
  | _ => false

-- Blocks and comma lists return node lists, every other task one node.
theorem reply_shape {task : Task} {ts ts' : List Token} {r : Reply Form} {log : List Expected}
    (run : Runs task ts r ts' log) :
    r = .thrown ∨ ∃ f, r = .ok f ∧ if listed task then ∃ es, f = .list es else ∃ e, f = .expr e := by
  induction run with
  | headTails run tails ih₁ ih₂ | tailsNext attaches run tails ih₁ ih₂ => exact ih₂
  | statementBlock brace run ih => exact ih
  | _ => first | exact .inl rfl | exact .inr ⟨_,rfl,_,rfl⟩

theorem expr_reply {task : Task} {ts ts' : List Token} {r : Reply Form} {log : List Expected}
    (run : Runs task ts r ts' log) (single : listed task = false) : r = .thrown ∨ ∃ e, r = .ok (.expr e) := by
  rcases reply_shape run with thrown | ⟨f,rfl,shaped⟩
  · exact .inl thrown
  · rw [single] at shaped
    obtain ⟨e,rfl⟩ := shaped
    exact .inr ⟨e,rfl⟩

theorem list_reply {task : Task} {ts ts' : List Token} {r : Reply Form} {log : List Expected}
    (run : Runs task ts r ts' log) (many : listed task = true) : r = .thrown ∨ ∃ es, r = .ok (.list es) := by
  rcases reply_shape run with thrown | ⟨f,rfl,shaped⟩
  · exact .inl thrown
  · rw [many] at shaped
    obtain ⟨es,rfl⟩ := shaped
    exact .inr ⟨es,rfl⟩

-- Where a task can start: a head or a tail is only called where it was looked up.
def Ready : Task → List Token → Prop
  | .head,ts => ∃ t rest fn, ts = t :: rest ∧ lookupHeadParseFn t.kind = some fn
  | .tail _,ts => ∃ rule fn, nextTail ts = some rule ∧ rule.fn = some fn
  | _,_ => True

theorem nextTail_total {ts : List Token} (ends : Terminated ts) : ∃ rule, nextTail ts = some rule := by
  obtain ⟨t,rest,rfl⟩ := ends.cons
  by_cases atEnd : t.kind = .endOfFile
  · exact ⟨_,by rw [nextTail,if_neg (by rw [atEnd]; decide)]⟩
  · obtain ⟨u,rest,rfl⟩ := (ends.tail atEnd).cons
    exact nextTail_some (by simp)

section Total
variable {bound : Nat} {t : Token} {ts rest : List Token} {p : Precedence} {left : AstExpression}

-- A task of which a run is wanted, and those that need less than `bound`.
def Finishes (task : Task) (ts : List Token) : Prop := ∃ r ts' log, Runs task ts r ts' log

def FinishesBelow (bound : Nat) : Prop := ∀ (task : Task) {ts : List Token}, Terminated ts → Ready task ts → need task ts < bound →
  Finishes task ts

theorem block_finishes (smaller : FinishesBelow (need .block (t :: rest))) (ends : Terminated (t :: rest)) :
    Finishes .block (t :: rest) := by
  by_cases close : t.kind = .rBrace
  · exact ⟨_,_,_,.blockClose close⟩
  obtain ⟨r,ts₁,log₁,first⟩ := smaller .statement ends trivial (by simp [need,rank])
  have consumed := runs_consume first
  rcases expr_reply first rfl with rfl | ⟨e,rfl⟩
  · obtain ⟨atEnd,ts₂,skipped⟩ := skip_total (ends.consumed consumed.1)
    cases atEnd with
    | true => exact ⟨_,_,_,.blockEnd close first skipped⟩
    | false =>
      have shorter := recover_progress close first skipped
      obtain ⟨r,ts₃,log₂,others⟩ := smaller .block
        ((ends.consumed consumed.1).consumed (skip_consumed skipped)) trivial
        (by simp only [need,rank,List.length_cons]; omega)
      obtain ⟨es,rfl⟩ := block_returns others
      exact ⟨_,_,_,.blockRecover close first skipped others⟩
  · have shorter := consumed.2
    simp only [least] at shorter
    obtain ⟨r,ts₂,log₂,others⟩ := smaller .block (ends.consumed consumed.1) trivial
      (by simp only [need,rank]; omega)
    obtain ⟨es,rfl⟩ := block_returns others
    exact ⟨_,_,_,.blockNext close first others⟩

theorem statement_finishes (smaller : FinishesBelow (need .statement (t :: rest))) (ends : Terminated (t :: rest)) :
    Finishes .statement (t :: rest) := by
  by_cases brace : t.kind = .lBrace
  · obtain ⟨r,ts₁,log,run⟩ := smaller .head ends ⟨t,rest,.onPrefixLeftBrace,rfl,by rw [brace]; rfl⟩
      (by simp [need,rank])
    exact ⟨_,_,_,.statementBlock brace run⟩
  obtain ⟨r,ts₁,log,run⟩ := smaller (.expression .statement) ends trivial (by simp [need,rank])
  rcases expr_reply run rfl with rfl | ⟨e,rfl⟩
  · exact ⟨_,_,_,.statementThrown brace run⟩
  · obtain ⟨u,ts₁,rfl⟩ := (ends.consumed (runs_consume run).1).cons
    by_cases semicolon : u.kind = .semicolon
    · exact ⟨_,_,_,.statementClosed brace run semicolon⟩
    · exact ⟨_,_,_,.statementOpen brace run semicolon⟩

theorem expression_finishes (smaller : FinishesBelow (need (.expression p) (t :: rest))) (ends : Terminated (t :: rest)) :
    Finishes (.expression p) (t :: rest) := by
  cases found : lookupHeadParseFn t.kind with
  | none => exact ⟨_,_,_,.noHead found⟩
  | some fn =>
    obtain ⟨r,ts₁,log,run⟩ := smaller .head ends ⟨t,rest,fn,rfl,found⟩ (by simp [need,rank])
    rcases expr_reply run rfl with rfl | ⟨e,rfl⟩
    · exact ⟨_,_,_,.headThrown run⟩
    · have consumed := runs_consume run
      have shorter := consumed.2
      simp only [least] at shorter
      obtain ⟨r,ts₂,log₂,tails⟩ := smaller (.tails p e) (ends.consumed consumed.1) trivial
        (by simp only [need,rank]; omega)
      exact ⟨_,_,_,.headTails run tails⟩

theorem tails_finish (smaller : FinishesBelow (need (.tails p left) (t :: rest))) (ends : Terminated (t :: rest)) :
    Finishes (.tails p left) (t :: rest) := by
  obtain ⟨rule,found⟩ := nextTail_total ends
  by_cases binds : p < rule.precedence
  · obtain ⟨fn,isFn⟩ := nextTail_fn found binds
    obtain ⟨r,ts₁,log,run⟩ := smaller (.tail left) ends ⟨rule,fn,found,isFn⟩ (by simp [need,rank])
    rcases expr_reply run rfl with rfl | ⟨e,rfl⟩
    · exact ⟨_,_,_,.tailsThrown ⟨rule,found,binds⟩ run⟩
    · have consumed := runs_consume run
      have shorter := consumed.2
      simp only [least] at shorter
      obtain ⟨r,ts₂,log₂,tails⟩ := smaller (.tails p e) (ends.consumed consumed.1) trivial
        (by simp only [need,rank]; omega)
      exact ⟨_,_,_,.tailsNext ⟨rule,found,binds⟩ run tails⟩
  · exact ⟨_,_,_,.tailsStop ⟨rule,found,binds⟩⟩

theorem head_finishes (smaller : FinishesBelow (need .head (t :: rest))) (ends : Terminated (t :: rest)) (ready : Ready .head (t :: rest)) :
    Finishes .head (t :: rest) := by
  obtain ⟨_,_,fn,⟨⟩,found⟩ := ready
  have rest_ends := ends.tail (head_more found)
  cases fn with
  | onIdentifier =>
    have kind : t.kind = .identifier := (head_kind found).1 rfl
    exact ⟨_,_,_,.identifier kind⟩
  | onLiteral literalKind => exact ⟨_,_,_,.literal found⟩
  | onPrefixLeftBrace =>
    have kind : t.kind = .lBrace := (head_kind found).2.1 rfl
    obtain ⟨r,ts₁,log,run⟩ := smaller .block rest_ends trivial (by simp [need,rank]; omega)
    obtain ⟨es,rfl⟩ := block_returns run
    exact ⟨_,_,_,.brace kind run⟩
  | onKwReturn =>
    have kind : t.kind = .kwReturn := (head_kind found).2.2 rfl
    obtain ⟨u,rest,rfl⟩ := rest_ends.cons
    by_cases value : lookupHeadParseFn u.kind = none
    · exact ⟨_,_,_,.returnBare kind value⟩
    obtain ⟨r,ts₁,log,run⟩ := smaller .values rest_ends trivial (by simp [need,rank]; omega)
    rcases list_reply run rfl with rfl | ⟨es,rfl⟩
    · exact ⟨_,_,_,.returnThrown kind value run⟩
    · exact ⟨_,_,_,.returnValues kind value run⟩
  | onPrefixOperator op =>
    obtain ⟨r,ts₁,log,run⟩ := smaller (.expression .prefix_) rest_ends trivial (by simp [need,rank]; omega)
    rcases expr_reply run rfl with rfl | ⟨e,rfl⟩
    · exact ⟨_,_,_,.prefixThrown found run⟩
    · exact ⟨_,_,_,.prefixed found run⟩

theorem tail_finishes (smaller : FinishesBelow (need (.tail left) (t :: rest))) (ends : Terminated (t :: rest)) (ready : Ready (.tail left) (t :: rest)) :
    Finishes (.tail left) (t :: rest) := by
  obtain ⟨⟨p,_⟩,fn,found,rfl⟩ := ready
  cases fn with
  | onBinaryOperator op =>
    have operator := operator_consumed found
    have shorter := operator.2
    obtain ⟨r,ts₁,log,run⟩ := smaller (.expression (lookupPrecedenceForAssociativity op))
      (ends.consumed operator.1) trivial (by simp only [need,rank]; omega)
    rcases expr_reply run rfl with rfl | ⟨e,rfl⟩
    · exact ⟨_,_,_,.binaryThrown found run⟩
    · exact ⟨_,_,_,.binary found run⟩
  | onPostfixOperator op => exact ⟨_,_,_,.postfixed found⟩
  | onInfixLeftParen =>
    obtain ⟨_,_,_,⟨⟩,kind⟩ := nextTail_paren found
    have rest_ends := ends.tail (kind_more kind (by decide))
    obtain ⟨u,rest,rfl⟩ := rest_ends.cons
    by_cases close : u.kind = .rParen
    · exact ⟨_,_,_,.callEmpty kind close⟩
    obtain ⟨r,ts₁,log,run⟩ := smaller .values rest_ends trivial (by simp [need,rank]; omega)
    rcases list_reply run rfl with rfl | ⟨es,rfl⟩
    · exact ⟨_,_,_,.callThrown kind close run⟩
    · obtain ⟨v,ts₁,rfl⟩ := (rest_ends.consumed (runs_consume run).1).cons
      by_cases closed : v.kind = .rParen
      · exact ⟨_,_,_,.callClosed kind close run closed⟩
      · exact ⟨_,_,_,.callOpen kind close run closed⟩

theorem values_finish (smaller : FinishesBelow (need .values (t :: rest))) (ends : Terminated (t :: rest)) :
    Finishes .values (t :: rest) := by
  obtain ⟨r,ts₁,log,run⟩ := smaller (.expression .statement) ends trivial (by simp [need,rank])
  rcases expr_reply run rfl with rfl | ⟨e,rfl⟩
  · exact ⟨_,_,_,.valuesThrown run⟩
  · have consumed := runs_consume run
    have shorter := consumed.2
    obtain ⟨u,ts₁,rfl⟩ := (ends.consumed consumed.1).cons
    by_cases comma : u.kind = .comma
    · simp only [least,List.length_cons] at shorter
      obtain ⟨r,ts₂,log₂,others⟩ := smaller .values
        ((ends.consumed consumed.1).tail (kind_more comma (by decide))) trivial
        (by simp only [need,rank,List.length_cons]; omega)
      rcases list_reply others rfl with rfl | ⟨es,rfl⟩
      · exact ⟨_,_,_,.valuesNextThrown run comma others⟩
      · exact ⟨_,_,_,.valuesNext run comma others⟩
    · exact ⟨_,_,_,.valuesLast run comma⟩

end Total

-- On a list that ends in its only end of file every task runs to its end.
theorem runs_total {task : Task} {ts : List Token} (ends : Terminated ts) (ready : Ready task ts) :
    ∃ r ts' log, Runs task ts r ts' log := by
  generalize bound : need task ts = m
  induction m using Nat.strongRecOn generalizing task ts with
  | _ m ih =>
    subst bound
    have smaller : FinishesBelow (need task ts) := fun _ _ ends ready less => ih _ less ends ready rfl
    obtain ⟨t,rest,rfl⟩ := ends.cons
    cases task with
    | block => exact block_finishes smaller ends
    | statement => exact statement_finishes smaller ends
    | expression p => exact expression_finishes smaller ends
    | tails p left => exact tails_finish smaller ends
    | head => exact head_finishes smaller ends ready
    | tail left => exact tail_finishes smaller ends ready
    | values => exact values_finish smaller ends
end Cero.Parser
