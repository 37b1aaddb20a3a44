import Cero.ParserRules

namespace Cero.Parser
open Effect TokenCursor

theorem lookups_agree {kind : TokenKind} {p : Precedence} {op : BinaryOperator}
    (found : tailRuleOfKind kind = ⟨p,some (.onBinaryOperator op)⟩) :
    p = lookupPrecedenceForAssociativity op ∧ op ≠ .shr ∧ op ≠ .greater := by
  cases kind <;> cases found <;> exact ⟨rfl,by decide,by decide⟩

theorem tailRule_postfixed {kind : TokenKind} {p : Precedence} {op : UnaryOperator}
    (found : tailRuleOfKind kind = ⟨p,some (.onPostfixOperator op)⟩) : p = .postfix_ := by
  cases kind <;> cases found <;> rfl

theorem tailRule_paren {kind : TokenKind} {p : Precedence}
    (found : tailRuleOfKind kind = ⟨p,some .onInfixLeftParen⟩) : p = .postfix_ ∧ kind = .lParen := by
  cases kind <;> cases found
  exact ⟨rfl,rfl⟩

theorem tailRule_fn {kind : TokenKind} {p : Precedence} (binds : p < (tailRuleOfKind kind).precedence) :
    ∃ fn, (tailRuleOfKind kind).fn = some fn := by
  cases kind <;> first | exact ⟨_,rfl⟩ | exact absurd binds (Nat.not_lt_zero _)

-- The heads that one kind of token has for itself.
theorem head_kind {kind : TokenKind} {fn : HeadParseFunction} (found : lookupHeadParseFn kind = some fn) :
    (fn = .onIdentifier → kind = .identifier) ∧ (fn = .onPrefixLeftBrace → kind = .lBrace) ∧
      (fn = .onKwReturn → kind = .kwReturn) := by
  cases kind <;> cases found <;> decide

-- The ways to a rule: by the kind of one token, or by what stands behind a `>`.
theorem nextTail_cases {ts : List Token} {rule : TailParseRule} (found : nextTail ts = some rule) : ∃ t rest, ts = t :: rest ∧
    (t.kind ≠ .rAngle ∧ rule = tailRuleOfKind t.kind ∨ t.kind = .rAngle ∧ ∃ u more, rest = u :: more ∧
      (adjacentAngle t u = true ∧ rule = ⟨.additiveOrBit,some (.onBinaryOperator .shr)⟩ ∨
        adjacentAngle t u = false ∧ rule = ⟨.comparison,some (.onBinaryOperator .greater)⟩)) := by
  cases ts with
  | nil => cases found
  | cons t rest =>
    refine ⟨t,rest,rfl,?_⟩
    by_cases angle : t.kind = .rAngle
    · cases rest with
      | nil => simp [nextTail,angle] at found
      | cons u more =>
        refine .inr ⟨angle,u,more,rfl,?_⟩
        simp only [nextTail,angle,if_true,List.head?_cons,Option.map_some,Option.some.injEq] at found
        split at found
        · rename_i adjacent
          exact .inl ⟨adjacent,found.symm⟩
        · rename_i apart
          exact .inr ⟨by simpa using apart,found.symm⟩
    · simp only [nextTail,angle,if_false,Option.some.injEq] at found
      exact .inl ⟨angle,found.symm⟩

-- What stands at the front where a tail was found.
theorem nextTail_binary {ts : List Token} {p : Precedence} {op : BinaryOperator}
    (found : nextTail ts = some ⟨p,some (.onBinaryOperator op)⟩) :
    p = lookupPrecedenceForAssociativity op ∧
      ((∃ t rest, ts = t :: rest ∧ t.kind ≠ .rAngle ∧ op ≠ .shr ∧ op ≠ .greater ∧
          tailRuleOfKind t.kind = ⟨p,some (.onBinaryOperator op)⟩) ∨
        (∃ t u rest, ts = t :: u :: rest ∧ t.kind = .rAngle ∧ op = .greater ∧ adjacentAngle t u = false) ∨
        ∃ t u rest, ts = t :: u :: rest ∧ t.kind = .rAngle ∧ op = .shr ∧ adjacentAngle t u = true) := by
  obtain ⟨t,rest,rfl,⟨plain,rule⟩ | ⟨angle,u,more,rfl,⟨adjacent,rule⟩ | ⟨apart,rule⟩⟩⟩ := nextTail_cases found
  · obtain ⟨same,notShr,notGreater⟩ := lookups_agree rule.symm
    exact ⟨same,.inl ⟨t,rest,rfl,plain,notShr,notGreater,rule.symm⟩⟩
  · cases rule; exact ⟨rfl,.inr (.inr ⟨t,u,more,rfl,angle,rfl,adjacent⟩)⟩
  · cases rule; exact ⟨rfl,.inr (.inl ⟨t,u,more,rfl,angle,rfl,apart⟩)⟩

theorem nextTail_postfixed {t : Token} {rest : List Token} {p : Precedence} {op : UnaryOperator}
    (found : nextTail (t :: rest) = some ⟨p,some (.onPostfixOperator op)⟩) :
    p = .postfix_ ∧ tailRuleOfKind t.kind = ⟨.postfix_,some (.onPostfixOperator op)⟩ := by
  obtain ⟨_,_,⟨⟩,⟨_,rule⟩ | ⟨_,_,_,_,⟨_,rule⟩ | ⟨_,rule⟩⟩⟩ := nextTail_cases found
  · obtain rfl := tailRule_postfixed rule.symm
    exact ⟨rfl,rule.symm⟩
  all_goals cases rule

theorem nextTail_paren {ts : List Token} {p : Precedence} (found : nextTail ts = some ⟨p,some .onInfixLeftParen⟩) :
    p = .postfix_ ∧ ∃ t rest, ts = t :: rest ∧ t.kind = .lParen := by
  obtain ⟨t,rest,rfl,⟨_,rule⟩ | ⟨_,_,_,_,⟨_,rule⟩ | ⟨_,rule⟩⟩⟩ := nextTail_cases found
  · exact ⟨(tailRule_paren rule.symm).1,t,rest,rfl,(tailRule_paren rule.symm).2⟩
  all_goals cases rule

theorem paren_tail {t : Token} (same : t.kind = .lParen) (rest : List Token) :
    nextTail (t :: rest) = some ⟨.postfix_,some .onInfixLeftParen⟩ := by simp [nextTail,same,tailRuleOfKind]

theorem nextTail_fn {ts : List Token} {rule : TailParseRule} {p : Precedence} (found : nextTail ts = some rule)
    (binds : p < rule.precedence) : ∃ fn, rule.fn = some fn := by
  obtain ⟨t,rest,rfl,⟨_,rfl⟩ | ⟨_,_,_,_,⟨_,rfl⟩ | ⟨_,rfl⟩⟩⟩ := nextTail_cases found
  · exact tailRule_fn binds
  all_goals exact ⟨_,rfl⟩

theorem nextTail_some {t : Token} {rest : List Token} (ahead : rest ≠ []) : ∃ rule, nextTail (t :: rest) = some rule := by
  by_cases angle : t.kind = .rAngle
  · cases rest with
    | nil => exact absurd rfl ahead
    | cons u rest => simp [nextTail,angle]
  · exact ⟨tailRuleOfKind t.kind,by simp [nextTail,angle]⟩

theorem getNextTailParseFn_run {ts : List Token} {rule : TailParseRule} (found : nextTail ts = some rule)
    (p : Precedence) :
    getNextTailParseFn p ts = .ok ⟨.ok (if p < rule.precedence then rule.fn else none),ts,[]⟩ := by
  have looked : ∃ t rest, ts = t :: rest ∧ lookupTailParseRule t (t :: rest) = .ok ⟨.ok rule,t :: rest,[]⟩ := by
    obtain ⟨t,rest,rfl,⟨plain,rfl⟩ | ⟨angle,u,more,rfl,ways⟩⟩ := nextTail_cases found
    · exact ⟨t,rest,rfl,by simp [lookupTailParseRule,plain]⟩
    · have ahead : (peekAhead : Parser Token) (t :: u :: more) = .ok ⟨.ok u,t :: u :: more,[]⟩ :=
        peekAhead_run (by rw [angle]; decide)
      refine ⟨t,u :: more,rfl,?_⟩
      rw [lookupTailParseRule,if_pos angle,bind_ok ahead,map_after_nil]
      rcases ways with ⟨adjacent,rfl⟩ | ⟨apart,rfl⟩
      · rw [adjacent]; rfl
      · rw [apart]; rfl
  obtain ⟨t,rest,rfl,looked⟩ := looked
  simp only [getNextTailParseFn]
  rw [bind_ok peek_run,map_after_nil,bind_ok looked,map_after_nil]
  split <;> simp

-- A finished lookup read only tokens that are there.
theorem getNextTailParseFn_parts {ts ts' : List Token} {p : Precedence} {r : Reply (Option TailParseFunction)}
    {log : List Expected} (ran : getNextTailParseFn p ts = .ok ⟨r,ts',log⟩) :
    ts' = ts ∧ log = [] ∧ ∃ rule, nextTail ts = some rule ∧ r = .ok (if p < rule.precedence then rule.fn else none) := by
  cases found : nextTail ts with
  | some rule =>
    rw [getNextTailParseFn_run found] at ran
    cases ran; exact ⟨rfl,rfl,rule,rfl,rfl⟩
  | none =>
    cases ts with
    | nil => cases ran
    | cons t rest =>
      by_cases angle : t.kind = .rAngle
      · cases rest with
        | nil =>
          have behind : (peekAhead : Parser Token) [t] = .error .readPastTokens := by simp [peekAhead,angle]
          simp only [getNextTailParseFn] at ran
          rw [bind_ok peek_run,map_after_nil] at ran
          simp only [lookupTailParseRule,angle,if_true,bind_run,behind] at ran
          cases ran
        | cons u rest => simp [nextTail,angle] at found
      · simp [nextTail,angle] at found

theorem binary_advance {ts : List Token} {p : Precedence} {op : BinaryOperator}
    (found : nextTail ts = some ⟨p,some (.onBinaryOperator op)⟩) (k : Parser AstExpression) :
    (advance >>= fun _ => (if op = BinaryOperator.shr then advance else pure ()) >>= fun _ => k) ts =
      k (ts.drop (operatorWidth op)) := by
  obtain ⟨_,⟨t,rest,rfl,_,notShr,_,rule⟩ | ⟨t,u,rest,rfl,angle,rfl,_⟩ | ⟨t,u,rest,rfl,angle,rfl,adjacent⟩⟩ :=
    nextTail_binary found
  · have more : t.kind ≠ .endOfFile := fun same => by rw [same] at rule; cases rule
    rw [bind_ok (advance_run more),map_after_nil]
    simp [bind_run,notShr,operatorWidth]
  · rw [bind_ok (advance_run (by rw [angle]; decide)),map_after_nil]
    simp [bind_run,operatorWidth]
  · have more : u.kind ≠ .endOfFile := by
      simp only [adjacentAngle,Bool.and_eq_true,decide_eq_true_eq] at adjacent
      rw [adjacent.1]; decide
    rw [bind_ok (advance_run (by rw [angle]; decide)),map_after_nil]
    simp [bind_run,advance_run more,operatorWidth]

theorem recoverAtStatementLevel_run {ts ts' : List Token} {atEnd : Bool} (skipped : skipStatement ts = some (atEnd,ts')) :
    recoverAtStatementLevel ts = .ok ⟨.ok atEnd,ts',[]⟩ := by
  rw [recoverAtStatementLevel,bind_ok get_run,map_after_nil]
  generalize enough : ts.length + 1 = rounds
  have bound : ts.length < rounds := by omega
  clear enough
  induction ts generalizing rounds with
  | nil => cases skipped
  | cons t rest ih =>
    obtain _ | rounds := rounds
    · exact absurd bound (Nat.not_lt_zero _)
    rw [skipStatement] at skipped
    rw [iterate]
    simp only [bind_run,peekKind_run]
    by_cases atEof : t.kind = .endOfFile
    · simp_all
    · by_cases semicolon : t.kind = .semicolon
      · simp_all [bind_run,advance_run]
      · by_cases close : t.kind = .rBrace
        · simp_all
        · simp only [atEof,semicolon,close,if_false] at skipped ⊢
          have onward := ih skipped rounds (by simpa using bound)
          simp [bind_run,advance_run atEof,onward]

theorem recoverAtStatementLevel_parts {ts ts' : List Token} {r : Reply Bool} {log : List Expected}
    (ran : recoverAtStatementLevel ts = .ok ⟨r,ts',log⟩) :
    log = [] ∧ ∃ atEnd, skipStatement ts = some (atEnd,ts') ∧ r = .ok atEnd := by
  cases skipped : skipStatement ts with
  | some found =>
    rw [recoverAtStatementLevel_run skipped] at ran
    cases ran; exact ⟨rfl,found.1,rfl,rfl⟩
  | none =>
    rw [recoverAtStatementLevel,bind_ok get_run,map_after_nil] at ran
    generalize ts.length + 1 = rounds at ran
    induction ts generalizing rounds with
    | nil => cases rounds <;> simp [iterate,bind_run,peekKind,peek] at ran
    | cons t rest ih =>
      obtain _ | rounds := rounds
      · cases ran
      rw [skipStatement] at skipped
      split at skipped
      · cases skipped
      split at skipped
      · cases skipped
      split at skipped
      · cases skipped
      rename_i more semicolon close
      rw [iterate] at ran
      simp only [bind_run,peekKind_run,more,semicolon,close,if_false,advance_run more] at ran
      simp only [pure_run,map_ok,after_mk,List.append_nil,map_after_nil] at ran
      exact ih skipped rounds ran

-- `task` run by its function with that much fuel. The do-while loop of the values
-- has a counter of its own.
def Ends : Task → (fuel rounds : Nat) → List Token → Reply Form → List Token → List Expected → Prop
  | .block,n,_,ts,r,ts',log => ∃ reply, parseBlock n ts = .ok ⟨reply,ts',log⟩ ∧ r = reply.map .list
  | .statement,n,_,ts,r,ts',log => ∃ reply, parseStatement n ts = .ok ⟨reply,ts',log⟩ ∧ r = reply.map .expr
  | .expression p,n,_,ts,r,ts',log => ∃ reply, parseExpression p n ts = .ok ⟨reply,ts',log⟩ ∧ r = reply.map .expr
  | .tails p left,n,_,ts,r,ts',log => ∃ reply, parseTails p left n ts = .ok ⟨reply,ts',log⟩ ∧ r = reply.map .expr
  | .head,n,_,ts,r,ts',log => ∃ t rest fn reply, ts = t :: rest ∧ lookupHeadParseFn t.kind = some fn ∧
      callHead (onPrefixLeftBrace n) (onKwReturn n) (onPrefixOperator · n) fn ts = .ok ⟨reply,ts',log⟩ ∧
      r = reply.map .expr
  | .tail left,n,_,ts,r,ts',log => ∃ p fn reply, nextTail ts = some ⟨p,some fn⟩ ∧
      callTail (onBinaryOperator · · n) (onInfixLeftParen · n) left fn ts = .ok ⟨reply,ts',log⟩ ∧ r = reply.map .expr
  | .values,n,rounds,ts,r,ts',log =>
      ∃ reply, doWhileComma (parseExpression .statement n) rounds ts = .ok ⟨reply,ts',log⟩ ∧ r = reply.map .list

def Sound (n : Nat) : Prop := ∀ task rounds ts r ts' log, Ends task n rounds ts r ts' log → Runs task ts r ts' log

section Soundness
variable {n : Nat} {ts ts' : List Token} {log : List Expected}

-- A block always returns: whatever is thrown in it is caught by it.
theorem block_returns {r : Reply Form} (run : Runs .block ts r ts' log) : ∃ es, r = .ok (.list es) := by
  cases run <;> exact ⟨_,rfl⟩

theorem matchKind_nil {ω : Type} {kind : TokenKind} :
    (matchKind kind : Effect Fault (List Token) ω Bool) [] = .error .readPastTokens := rfl

theorem block_sound (below : Sound n) {r : Reply (List AstExpression)}
    (ran : parseBlock (n+1) ts = .ok ⟨r,ts',log⟩) : Runs .block ts (r.map .list) ts' log := by
  rw [parseBlock] at ran
  cases ts with
  | nil => simp [bind_run,matchKind_nil] at ran
  | cons t rest =>
    by_cases close : t.kind = .rBrace
    · rw [bind_ok (matchKind_same close (by decide))] at ran
      cases ran; exact .blockClose close
    rw [bind_ok (matchKind_other close),map_after_nil] at ran
    rcases bind_parts ran with ⟨never,_⟩ | ⟨tried,ts₁,log₁,log₂,first,second,rfl⟩
    · rcases attempt_parts never with ⟨_,impossible⟩ | ⟨_,_,impossible⟩ <;> cases impossible
    rcases attempt_parts first with ⟨thrown,caught⟩ | ⟨statement,returned,caught⟩
    · cases caught
      have stopped := below .statement 0 _ _ _ _ ⟨_,thrown,rfl⟩
      rcases bind_parts second with ⟨never,_⟩ | ⟨atEnd,ts₂,log₂,log₃,skipped,third,rfl⟩
      · obtain ⟨_,_,_,impossible⟩ := recoverAtStatementLevel_parts never
        cases impossible
      obtain ⟨rfl,atEnd,found,same⟩ := recoverAtStatementLevel_parts skipped
      cases same
      cases atEnd with
      | true => cases third; simpa using Runs.blockEnd close stopped found
      | false =>
        have others := below .block 0 _ _ _ _ ⟨_,third,rfl⟩
        obtain ⟨es,listed⟩ := block_returns others
        rw [listed] at others ⊢
        exact .blockRecover close stopped found others
    · cases caught
      have head := below .statement 0 _ _ _ _ ⟨_,returned,rfl⟩
      rcases bind_parts second with ⟨never,_⟩ | ⟨es,ts₂,log₂,log₃,third,fourth,rfl⟩
      · obtain ⟨es,impossible⟩ := block_returns (below .block 0 _ _ _ _ ⟨_,never,rfl⟩)
        cases impossible
      have others := below .block 0 _ _ _ _ ⟨_,third,rfl⟩
      cases fourth
      simpa using Runs.blockNext close head others

theorem expect_parts {kind : TokenKind} {message : Message} {r : Reply Unit} (more : kind ≠ .endOfFile)
    (ran : expect kind message ts = .ok ⟨r,ts',log⟩) : ∃ t rest, ts = t :: rest ∧
      ((t.kind = kind ∧ r = .ok () ∧ ts' = rest ∧ log = []) ∨
        (t.kind ≠ kind ∧ r = .thrown ∧ ts' = t :: rest ∧ log = [⟨message,t⟩])) := by
  rw [expect] at ran
  cases ts with
  | nil => simp [bind_run,matchKind_nil] at ran
  | cons t rest =>
    refine ⟨t,rest,rfl,?_⟩
    by_cases same : t.kind = kind
    · rw [bind_ok (matchKind_same same more)] at ran
      cases ran; exact .inl ⟨same,rfl,rfl,rfl⟩
    · rw [bind_ok (matchKind_other same)] at ran
      cases ran; exact .inr ⟨same,rfl,rfl,rfl⟩

theorem expect_same {kind : TokenKind} {message : Message} {t : Token} {rest : List Token} (same : t.kind = kind)
    (more : kind ≠ .endOfFile) : expect kind message (t :: rest) = .ok ⟨.ok (),rest,[]⟩ := by
  rw [expect,bind_ok (matchKind_same same more)]; rfl

theorem expect_other {kind : TokenKind} {message : Message} {t : Token} {rest : List Token} (other : t.kind ≠ kind) :
    expect kind message (t :: rest) = .ok ⟨.thrown,t :: rest,[⟨message,t⟩]⟩ := by
  rw [expect,bind_ok (matchKind_other other)]; rfl

theorem statementRule_other {kind : TokenKind} (noBrace : kind ≠ .lBrace) : lookupStatementRule kind = ⟨false,true⟩ := by
  unfold lookupStatementRule; split <;> simp_all

theorem statement_sound (below : Sound n) {r : Reply AstExpression}
    (ran : parseStatement (n+1) ts = .ok ⟨r,ts',log⟩) : Runs .statement ts (r.map .expr) ts' log := by
  rw [parseStatement] at ran
  cases ts with
  | nil => simp [bind_run,peekKind,peek] at ran
  | cons t rest =>
    rw [bind_ok peekKind_run,map_after_nil] at ran
    by_cases brace : t.kind = .lBrace
    · simp only [brace,lookupStatementRule,if_true,Bool.false_eq_true,if_false] at ran
      have asHead : lookupHeadParseFn t.kind = some .onPrefixLeftBrace := by rw [brace]; rfl
      refine .statementBlock brace (below .head 0 _ _ _ _ ⟨t,rest,_,r,rfl,asHead,?_,rfl⟩)
      rcases bind_parts ran with ⟨thrown,rfl⟩ | ⟨e,ts₁,log₁,log₂,first,second,rfl⟩
      · exact thrown
      · cases second; simpa [callHead] using first
    simp only [statementRule_other brace,if_true,Bool.false_eq_true,if_false] at ran
    rcases bind_parts ran with ⟨thrown,rfl⟩ | ⟨e,ts₁,log₁,log₂,first,second,rfl⟩
    · exact .statementThrown brace (below (.expression .statement) 0 _ _ _ _ ⟨_,thrown,rfl⟩)
    have expression := below (.expression .statement) 0 _ _ _ _ ⟨_,first,rfl⟩
    rcases bind_parts second with ⟨thrown,rfl⟩ | ⟨_,ts₂,log₂,log₃,closed,third,rfl⟩
    · obtain ⟨u,rest₁,rfl,⟨_,impossible,_⟩ | ⟨other,_,rfl,rfl⟩⟩ := expect_parts (by decide) thrown
      · cases impossible
      · exact .statementOpen brace expression other
    · obtain ⟨u,rest₁,rfl,⟨semicolon,_,rfl,rfl⟩ | ⟨_,impossible,_⟩⟩ := expect_parts (by decide) closed
      · cases third; simpa using Runs.statementClosed brace expression semicolon
      · cases impossible

theorem expression_sound (below : Sound n) {p : Precedence} {r : Reply AstExpression}
    (ran : parseExpression p (n+1) ts = .ok ⟨r,ts',log⟩) : Runs (.expression p) ts (r.map .expr) ts' log := by
  rw [parseExpression] at ran
  cases ts with
  | nil => simp [bind_run,peek] at ran
  | cons t rest =>
    rw [bind_ok peek_run,map_after_nil] at ran
    cases found : lookupHeadParseFn t.kind with
    | none =>
      simp only [found] at ran
      cases ran; exact .noHead found
    | some fn =>
      simp only [found] at ran
      rcases bind_parts ran with ⟨thrown,rfl⟩ | ⟨e,ts₁,log₁,log₂,first,second,rfl⟩
      · exact .headThrown (below .head 0 _ _ _ _ ⟨t,rest,fn,_,rfl,found,thrown,rfl⟩)
      · have head := below .head 0 _ _ _ _ ⟨t,rest,fn,_,rfl,found,first,rfl⟩
        exact .headTails head (below (.tails p e) 0 _ _ _ _ ⟨_,second,rfl⟩)

theorem tails_sound (below : Sound n) {p : Precedence} {left : AstExpression} {r : Reply AstExpression}
    (ran : parseTails p left (n+1) ts = .ok ⟨r,ts',log⟩) : Runs (.tails p left) ts (r.map .expr) ts' log := by
  rw [parseTails] at ran
  rcases bind_parts ran with ⟨never,_⟩ | ⟨fn,ts₁,log₁,log₂,looked,rest,rfl⟩
  · obtain ⟨_,_,_,_,impossible⟩ := getNextTailParseFn_parts never
    cases impossible
  obtain ⟨rfl,rfl,rule,found,same⟩ := getNextTailParseFn_parts looked
  cases same
  rw [List.nil_append]
  by_cases binds : p < rule.precedence
  · obtain ⟨fn,isFn⟩ := nextTail_fn found binds
    have ruled : nextTail ts₁ = some ⟨rule.precedence,some fn⟩ := by rw [found,← isFn]
    simp only [binds,if_true,isFn] at rest
    rcases bind_parts rest with ⟨thrown,rfl⟩ | ⟨e,ts₂,log₂,log₃,first,second,rfl⟩
    · exact .tailsThrown ⟨rule,found,binds⟩ (below (.tail left) 0 _ _ _ _ ⟨_,fn,_,ruled,thrown,rfl⟩)
    · have tail := below (.tail left) 0 _ _ _ _ ⟨_,fn,_,ruled,first,rfl⟩
      exact .tailsNext ⟨rule,found,binds⟩ tail (below (.tails p e) 0 _ _ _ _ ⟨_,second,rfl⟩)
  · simp only [binds,if_false] at rest
    cases rest
    exact .tailsStop ⟨rule,found,binds⟩

theorem values_sound (below : ∀ ts r ts' log, Ends (.expression .statement) n 0 ts r ts' log →
      Runs (.expression .statement) ts r ts' log) {rounds : Nat} {r : Reply (List AstExpression)}
    (ran : doWhileComma (parseExpression .statement n) rounds ts = .ok ⟨r,ts',log⟩) :
    Runs .values ts (r.map .list) ts' log := by
  induction rounds generalizing ts r log with
  | zero => cases ran
  | succ rounds ih =>
    rw [doWhileComma] at ran
    rcases bind_parts ran with ⟨thrown,rfl⟩ | ⟨e,ts₁,log₁,log₂,first,second,rfl⟩
    · exact .valuesThrown (below _ _ _ _ ⟨_,thrown,rfl⟩)
    have expression := below _ _ _ _ ⟨_,first,rfl⟩
    cases ts₁ with
    | nil => simp [bind_run,matchKind_nil] at second
    | cons u rest =>
      by_cases comma : u.kind = .comma
      · rw [bind_ok (matchKind_same comma (by decide)),map_after_nil] at second
        simp only [if_true] at second
        rcases bind_parts second with ⟨thrown,rfl⟩ | ⟨es,ts₂,log₂,log₃,third,fourth,rfl⟩
        · exact .valuesNextThrown expression comma (ih thrown)
        · cases fourth
          simpa using Runs.valuesNext expression comma (ih third)
      · rw [bind_ok (matchKind_other comma)] at second
        cases second
        simpa using Runs.valuesLast expression comma

-- The functions that call no other parse function.
theorem identifier_sound {t : Token} {rest : List Token} {r : Reply AstExpression}
    (found : lookupHeadParseFn t.kind = some .onIdentifier) (ran : onIdentifier (t :: rest) = .ok ⟨r,ts',log⟩) :
    Runs .head (t :: rest) (r.map .expr) ts' log := by
  have kind : t.kind = .identifier := (head_kind found).1 rfl
  rw [onIdentifier,bind_ok (next_run (by rw [kind]; decide))] at ran
  cases ran; exact .identifier kind

theorem literal_sound {t : Token} {rest : List Token} {literalKind : LiteralKind} {r : Reply AstExpression}
    (found : lookupHeadParseFn t.kind = some (.onLiteral literalKind))
    (ran : onLiteral literalKind (t :: rest) = .ok ⟨r,ts',log⟩) : Runs .head (t :: rest) (r.map .expr) ts' log := by
  have more : t.kind ≠ .endOfFile := fun same => by rw [same] at found; cases found
  rw [onLiteral,bind_ok (next_run more)] at ran
  cases ran; exact .literal found

theorem postfixed_sound {p : Precedence} {op : UnaryOperator} {left : AstExpression} {r : Reply AstExpression}
    (found : nextTail ts = some ⟨p,some (.onPostfixOperator op)⟩)
    (ran : onPostfixOperator op left ts = .ok ⟨r,ts',log⟩) : Runs (.tail left) ts (r.map .expr) ts' log := by
  cases ts with
  | nil => cases found
  | cons t rest =>
    have more : t.kind ≠ .endOfFile := fun same => by
      have rule := (nextTail_postfixed found).2
      rw [same] at rule; cases rule
    rw [onPostfixOperator,bind_ok (advance_run more)] at ran
    cases ran; exact .postfixed found

theorem head_sound (below : Sound n) {t : Token} {rest : List Token} {fn : HeadParseFunction} {r : Reply AstExpression}
    (found : lookupHeadParseFn t.kind = some fn)
    (ran : callHead (onPrefixLeftBrace (n+1)) (onKwReturn (n+1)) (onPrefixOperator · (n+1)) fn (t :: rest) =
      .ok ⟨r,ts',log⟩) : Runs .head (t :: rest) (r.map .expr) ts' log := by
  have more : t.kind ≠ .endOfFile := fun same => by rw [same] at found; cases found
  cases fn with
  | onIdentifier => exact identifier_sound found ran
  | onLiteral literalKind => exact literal_sound found ran
  | onPrefixLeftBrace =>
    have kind : t.kind = .lBrace := (head_kind found).2.1 rfl
    rw [callHead,onPrefixLeftBrace,bind_ok (next_run more),map_after_nil] at ran
    rcases bind_parts ran with ⟨never,_⟩ | ⟨es,ts₁,log₁,log₂,first,second,rfl⟩
    · obtain ⟨_,impossible⟩ := block_returns (below .block 0 _ _ _ _ ⟨_,never,rfl⟩)
      cases impossible
    · have block := below .block 0 _ _ _ _ ⟨_,first,rfl⟩
      cases second; simpa using Runs.brace kind block
  | onKwReturn =>
    have kind : t.kind = .kwReturn := (head_kind found).2.2 rfl
    rw [callHead,onKwReturn,bind_ok (next_run more),map_after_nil] at ran
    cases rest with
    | nil => simp [isExpressionNext,bind_run,peekKind,peek] at ran
    | cons u rest =>
      have asked : isExpressionNext (u :: rest) = .ok ⟨.ok (lookupHeadParseFn u.kind).isSome,u :: rest,[]⟩ := rfl
      rw [bind_ok asked,map_after_nil] at ran
      cases none : lookupHeadParseFn u.kind with
      | none =>
        simp only [none,Option.isSome_none,Bool.false_eq_true,if_false] at ran
        cases ran; exact .returnBare kind none
      | some fn =>
        have some : lookupHeadParseFn u.kind ≠ .none := by rw [none]; exact Option.some_ne_none _
        simp only [none,Option.isSome_some,if_true] at ran
        have items := fun ts r ts' log => below (.expression .statement) 0 ts r ts' log
        rcases bind_parts ran with ⟨thrown,rfl⟩ | ⟨es,ts₁,log₁,log₂,first,second,rfl⟩
        · exact .returnThrown kind some (values_sound items thrown)
        · cases second
          simpa using Runs.returnValues kind some (values_sound items first)
  | onPrefixOperator op =>
    rw [callHead,onPrefixOperator,bind_ok (next_run more),map_after_nil] at ran
    rcases bind_parts ran with ⟨thrown,rfl⟩ | ⟨e,ts₁,log₁,log₂,first,second,rfl⟩
    · exact .prefixThrown found (below (.expression .prefix_) 0 _ _ _ _ ⟨_,thrown,rfl⟩)
    · have operand := below (.expression .prefix_) 0 _ _ _ _ ⟨_,first,rfl⟩
      cases second; simpa using Runs.prefixed found operand

theorem tail_sound (below : Sound n) {p : Precedence} {left : AstExpression} {fn : TailParseFunction}
    {r : Reply AstExpression} (found : nextTail ts = some ⟨p,some fn⟩)
    (ran : callTail (onBinaryOperator · · (n+1)) (onInfixLeftParen · (n+1)) left fn ts = .ok ⟨r,ts',log⟩) :
    Runs (.tail left) ts (r.map .expr) ts' log := by
  cases fn with
  | onBinaryOperator op =>
    rw [callTail,onBinaryOperator,binary_advance found] at ran
    rcases bind_parts ran with ⟨thrown,rfl⟩ | ⟨e,ts₁,log₁,log₂,first,second,rfl⟩
    · exact .binaryThrown found (below (.expression _) 0 _ _ _ _ ⟨_,thrown,rfl⟩)
    · have right := below (.expression _) 0 _ _ _ _ ⟨_,first,rfl⟩
      cases second; simpa using Runs.binary found right
  | onPostfixOperator op => exact postfixed_sound found ran
  | onInfixLeftParen =>
    obtain ⟨_,t,rest,rfl,kind⟩ := nextTail_paren found
    rw [callTail,onInfixLeftParen,bind_ok (advance_run (by rw [kind]; decide)),map_after_nil] at ran
    cases rest with
    | nil => simp [bind_run,matchKind_nil] at ran
    | cons u rest =>
      by_cases close : u.kind = .rParen
      · rw [bind_ok (matchKind_same close (by decide))] at ran
        cases ran; exact .callEmpty kind close
      rw [bind_ok (matchKind_other close),map_after_nil] at ran
      have items := fun ts r ts' log => below (.expression .statement) 0 ts r ts' log
      rcases bind_parts ran with ⟨thrown,rfl⟩ | ⟨es,ts₁,log₁,log₂,first,second,rfl⟩
      · exact .callThrown kind close (values_sound items thrown)
      have values := values_sound items first
      rcases bind_parts second with ⟨thrown,rfl⟩ | ⟨_,ts₂,log₂,log₃,closed,third,rfl⟩
      · obtain ⟨v,rest₁,rfl,⟨_,impossible,_⟩ | ⟨other,_,rfl,rfl⟩⟩ := expect_parts (by decide) thrown
        · cases impossible
        · exact .callOpen kind close values other
      · obtain ⟨v,rest₁,rfl,⟨same,_,rfl,rfl⟩ | ⟨_,impossible,_⟩⟩ := expect_parts (by decide) closed
        · cases third; simpa using Runs.callClosed kind close values same
        · cases impossible
end Soundness

-- With no fuel left only the functions that do not recurse can still return.
theorem sound_zero : Sound 0 := by
  intro task rounds ts r ts' log ends
  cases task with
  | block | statement | expression p | tails p left => obtain ⟨_,ran,_⟩ := ends; cases ran
  | head =>
    obtain ⟨t,rest,fn,reply,rfl,found,ran,rfl⟩ := ends
    cases fn with
    | onIdentifier => exact identifier_sound found ran
    | onLiteral literalKind => exact literal_sound found ran
    | onPrefixLeftBrace | onKwReturn | onPrefixOperator op => cases ran
  | tail left =>
    obtain ⟨p,fn,reply,found,ran,rfl⟩ := ends
    cases fn with
    | onPostfixOperator op => exact postfixed_sound found ran
    | onBinaryOperator op | onInfixLeftParen => cases ran
  | values =>
    obtain ⟨reply,ran,rfl⟩ := ends
    exact values_sound (fun _ _ _ _ ends => by obtain ⟨_,ran,_⟩ := ends; cases ran) ran

theorem sound (n : Nat) : Sound n := by
  induction n with
  | zero => exact sound_zero
  | succ n ih =>
    intro task rounds ts r ts' log ends
    cases task with
    | block => obtain ⟨_,ran,rfl⟩ := ends; exact block_sound ih ran
    | statement => obtain ⟨_,ran,rfl⟩ := ends; exact statement_sound ih ran
    | expression p => obtain ⟨_,ran,rfl⟩ := ends; exact expression_sound ih ran
    | tails p left => obtain ⟨_,ran,rfl⟩ := ends; exact tails_sound ih ran
    | head => obtain ⟨t,rest,fn,_,rfl,found,ran,rfl⟩ := ends; exact head_sound ih found ran
    | tail left => obtain ⟨p,fn,_,found,ran,rfl⟩ := ends; exact tail_sound ih found ran
    | values =>
      obtain ⟨_,ran,rfl⟩ := ends
      exact values_sound (fun _ _ _ _ ends => by obtain ⟨_,ran,rfl⟩ := ends; exact expression_sound ih ran) ran
end Cero.Parser
