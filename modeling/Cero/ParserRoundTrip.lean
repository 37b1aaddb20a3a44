import Cero.ParserFlatten
import Cero.ParserPrecedence

namespace Cero.Parser
open AstExpression

mutual
def erase : AstExpression → AstExpression
  | .ident _ length => .ident 0 length
  | .literal _ kind length => .literal 0 kind length
  | .block _ es => .block 0 (eraseList es)
  | .return_ _ es => .return_ 0 (eraseList es)
  | .unary _ op e => .unary 0 op (erase e)
  | .binary _ op left right => .binary 0 op (erase left) (erase right)
  | .call _ callee es => .call 0 (erase callee) (eraseList es)

def eraseList : List AstExpression → List AstExpression
  | [] => []
  | e :: es => erase e :: eraseList es
end

def eraseName (name : AstName) : AstName := ⟨0,name.length⟩

def eraseParameter (p : AstFunctionParameter) : AstFunctionParameter := ⟨0,erase p.type,eraseName p.name⟩

def eraseOutput (o : AstFunctionOutput) : AstFunctionOutput := ⟨0,erase o.type⟩

-- A definition without the offsets of its nodes and names.
def eraseDefinition (d : AstDefinition) : AstDefinition :=
  ⟨0,d.accessModifier,eraseName d.name,d.parameters.map eraseParameter,d.outputs.map eraseOutput,eraseList d.statements⟩

-- The first token of the expression is the brace of a block.
def beginsWithBlock : AstExpression → Bool
  | .block _ _ => true
  | .unary _ op e => !isPrefixOperator op && beginsWithBlock e
  | .binary _ _ left _ => beginsWithBlock left
  | .call _ callee _ => beginsWithBlock callee
  | _ => false

inductive Role where
  | operand
  | statement

inductive Canonical : Role → AstExpression → Prop where
  | ident {offset : BitVec sourceSizeBits} {length : Nat} : Canonical .operand (.ident offset length)
  | literal {offset : BitVec sourceSizeBits} {kind : LiteralKind} {length : Nat} :
      Canonical .operand (.literal offset kind length)
  | block {offset : BitVec sourceSizeBits} {es : List AstExpression} (each : ∀ e ∈ es, Canonical .statement e) :
      Canonical .operand (.block offset es)
  | unary {offset : BitVec sourceSizeBits} {op : UnaryOperator} {e : AstExpression}
      (bound : WellBound (.unary offset op e)) (operand : Canonical .operand e) :
      Canonical .operand (.unary offset op e)
  | binary {offset : BitVec sourceSizeBits} {op : BinaryOperator} {left right : AstExpression}
      (bound : WellBound (.binary offset op left right)) (first : Canonical .operand left)
      (second : Canonical .operand right) : Canonical .operand (.binary offset op left right)
  | call {offset : BitVec sourceSizeBits} {callee : AstExpression} {es : List AstExpression}
      (bound : WellBound (.call offset callee es)) (base : Canonical .operand callee)
      (each : ∀ e ∈ es, Canonical .operand e) : Canonical .operand (.call offset callee es)
  | blockStatement {offset : BitVec sourceSizeBits} {es : List AstExpression}
      (block : Canonical .operand (.block offset es)) : Canonical .statement (.block offset es)
  | returnStatement {offset : BitVec sourceSizeBits} {es : List AstExpression}
      (each : ∀ e ∈ es, Canonical .operand e) : Canonical .statement (.return_ offset es)
  | expressionStatement {e : AstExpression} (operand : Canonical .operand e) (open_ : beginsWithBlock e = false) :
      Canonical .statement e

-- A type is a name, and the name of a parameter is not the empty one that stands
-- for none.
structure CanonicalDefinition (d : AstDefinition) : Prop where
  parameters : ∀ p ∈ d.parameters, (∃ offset length, p.type = .ident offset length) ∧ p.name.length ≠ 0
  outputs : ∀ o ∈ d.outputs, ∃ offset length, o.type = .ident offset length
  statements : ∀ e ∈ d.statements, Canonical .statement e

def anywhere : Nat → Nat → Prop := fun _ _ => True

theorem literal_head (kind : LiteralKind) : lookupHeadParseFn (literalToken kind) = some (.onLiteral kind) := by
  cases kind <;> rfl

theorem prefix_head {op : UnaryOperator} (isPrefix : isPrefixOperator op = true) :
    lookupHeadParseFn (unaryToken op) = some (.onPrefixOperator op) := by
  cases op <;> first | rfl | cases isPrefix

theorem postfix_tail {op : UnaryOperator} (isPostfix : isPrefixOperator op = false) {t : Token}
    (same : t.kind = unaryToken op) (rest : List Token) :
    nextTail (t :: rest) = some ⟨.postfix_,some (.onPostfixOperator op)⟩ := by
  cases op <;> first | exact absurd isPostfix (by decide) | simp [nextTail,same,unaryToken,tailRuleOfKind]

theorem binary_tail {op : BinaryOperator} {seg : List Token} {at_ : Nat → Nat → Prop}
    (spelled : Spells at_ [binaryPiece op] seg) {u : Token} (rest : List Token) (apart : u.kind ≠ .rAngle) :
    nextTail (seg ++ u :: rest) = some ⟨lookupPrecedenceForAssociativity op,some (.onBinaryOperator op)⟩ ∧
      (seg ++ u :: rest).drop (operatorWidth op) = u :: rest := by
  cases op
  case shr =>
    cases spelled with
    | shr first second adjacent rest =>
      cases rest
      simp [nextTail,first,adjacentAngle,second,adjacent,operatorWidth,lookupPrecedenceForAssociativity]
  case greater =>
    cases spelled with
    | fixed same rest =>
      cases rest
      simp [nextTail,same,adjacentAngle,apart,operatorWidth,lookupPrecedenceForAssociativity]
  all_goals
    cases spelled with
    | fixed same rest =>
      cases rest
      simp [nextTail,same,tailRuleOfKind,operatorWidth,lookupPrecedenceForAssociativity]

-- A token that no expression goes on with.
def Closes (kind : TokenKind) : Prop := tailRuleOfKind kind = ⟨.statement,none⟩ ∧ kind ≠ .rAngle

theorem closes_stops {u : Token} (closes : Closes u.kind) (p : Precedence) (rest : List Token) : Stops p (u :: rest) :=
  ⟨⟨.statement,none⟩,by simp [nextTail,closes.2,closes.1],Nat.not_lt_zero _⟩

theorem stops_weaken {p q : Precedence} {ts : List Token} (stops : Stops p ts) (weaker : p ≤ q) : Stops q ts := by
  obtain ⟨rule,found,loose⟩ := stops
  exact ⟨rule,found,fun binds => loose (Nat.lt_of_le_of_lt weaker binds)⟩

theorem stops_found {ts : List Token} {p q : Precedence} {fn : Option TailParseFunction}
    (found : nextTail ts = some ⟨p,fn⟩) (loose : p ≤ q) : Stops q ts := ⟨_,found,Nat.not_lt_of_le loose⟩

theorem binary_level (op : BinaryOperator) : Precedence.statement < lookupPrecedenceForAssociativity op ∧
    lookupPrecedenceForAssociativity op < .prefix_ := by cases op <;> decide

-- `ts` does not go on with a part of `e` instead of `e`.
def Follows (e : AstExpression) (ts : List Token) : Prop :=
  (isPrefixNode e = true → Stops .prefix_ ts) ∧ ∀ q, binaryPrecedence e = some q → Stops q ts

theorem closes_follows {u : Token} (closes : Closes u.kind) (e : AstExpression) (rest : List Token) :
    Follows e (u :: rest) := ⟨fun _ => closes_stops closes _ rest,fun q _ => closes_stops closes q rest⟩

theorem expression_head {p : Precedence} {ts ts' : List Token} {f : Form} {log : List Expected}
    (run : Runs (.expression p) ts (.ok f) ts' log) : ∃ t rest fn, ts = t :: rest ∧ lookupHeadParseFn t.kind = some fn := by
  cases run with
  | headTails run tails =>
    cases run with
    | identifier kind | brace kind => exact ⟨_,_,_,rfl,by rw [kind]; rfl⟩
    | returnBare kind none | returnValues kind some => exact ⟨_,_,_,rfl,by rw [kind]; rfl⟩
    | literal found | prefixed found => exact ⟨_,_,_,rfl,found⟩

theorem values_head {ts ts' : List Token} {f : Form} {log : List Expected} (run : Runs .values ts (.ok f) ts' log) :
    ∃ t rest fn, ts = t :: rest ∧ lookupHeadParseFn t.kind = some fn := by
  cases run with
  | valuesLast run last => exact expression_head run
  | valuesNext run comma others => exact expression_head run

theorem head_not {t : Token} {fn : HeadParseFunction} (found : lookupHeadParseFn t.kind = some fn) {kind : TokenKind}
    (none : lookupHeadParseFn kind = none) : t.kind ≠ kind := by
  rintro rfl
  rw [none] at found
  cases found

-- Every expression can be read at a level that binds weaker than it, whatever then
-- goes on behind it.
def Reparses (e : AstExpression) : Prop := ∀ p seg ts', p < .postfix_ → Above p e →
  Spells anywhere (flatten e) seg → Follows e ts' → ∃ e', erase e' = erase e ∧
    ∀ r ts'' log, Runs (.tails p e') ts' r ts'' log → Runs (.expression p) (seg ++ ts') r ts'' log

def ReparsesStatement (e : AstExpression) : Prop := ∀ seg ts', Spells anywhere (flatten e ++ statementEnd e) seg →
  ∃ e', erase e' = erase e ∧ Runs .statement (seg ++ ts') (.ok (.expr e')) ts' []

theorem reparses_stop {e : AstExpression} (reparses : Reparses e) {p : Precedence} {seg ts' : List Token}
    (level : p < .postfix_) (above : Above p e) (spelled : Spells anywhere (flatten e) seg) (follows : Follows e ts')
    (stops : Stops p ts') :
    ∃ e', erase e' = erase e ∧ Runs (.expression p) (seg ++ ts') (.ok (.expr e')) ts' [] := by
  obtain ⟨e',same,onward⟩ := reparses p seg ts' level above spelled follows
  exact ⟨e',same,onward _ _ _ (.tailsStop stops)⟩

theorem above_statement (e : AstExpression) : Above .statement e := by
  intro q same
  cases e with
  | binary offset op left right => cases same; exact (binary_level op).1
  | _ => cases same

theorem values_reparse {es : List AstExpression} (each : ∀ e ∈ es, Reparses e) (some : es ≠ []) {seg : List Token}
    (spelled : Spells anywhere (flattenValues es) seg) {u : Token} (rest : List Token) (closes : Closes u.kind)
    (noComma : u.kind ≠ .comma) :
    ∃ es', eraseList es' = eraseList es ∧ Runs .values (seg ++ u :: rest) (.ok (.list es')) (u :: rest) [] := by
  induction es generalizing seg with
  | nil => exact absurd rfl some
  | cons e es ih =>
    obtain ⟨seg₁,seg₂,rfl,first,others⟩ := Spells.split spelled
    have reparses := each e (List.mem_cons_self)
    by_cases last : es = []
    · subst last
      cases others
      obtain ⟨e',same,run⟩ := reparses_stop reparses (by decide) (above_statement e) first
        (closes_follows closes e rest) (closes_stops closes .statement rest)
      exact ⟨[e'],by simp [eraseList,same],by simpa using Runs.valuesLast run noComma⟩
    · rw [flattenMore_values last] at others
      cases others with
      | @fixed kind c ps ts comma others =>
        have commaCloses : Closes c.kind := by rw [comma]; exact ⟨rfl,by decide⟩
        obtain ⟨e',same,run⟩ := reparses_stop reparses (by decide) (above_statement e) first
          (closes_follows commaCloses e (ts ++ u :: rest)) (closes_stops commaCloses .statement (ts ++ u :: rest))
        obtain ⟨es',sames,runs⟩ := ih (fun e member => each e (List.mem_cons_of_mem _ member)) last others
        refine ⟨e' :: es',by simp [eraseList,same,sames],?_⟩
        simpa using Runs.valuesNext run comma runs

theorem statement_inside {t : Token} {rest ts' : List Token} {f : Form} {log : List Expected}
    (run : Runs .statement (t :: rest) (.ok f) ts' log) : t.kind ≠ .rBrace := by
  cases run with
  | statementBlock brace run => rw [brace]; decide
  | statementClosed noBrace run semicolon =>
    obtain ⟨_,_,_,⟨⟩,found⟩ := expression_head run
    exact head_not found rfl

theorem block_reparses {es : List AstExpression} (each : ∀ e ∈ es, ReparsesStatement e) {seg : List Token}
    (spelled : Spells anywhere (flattenStatements es ++ [.fixed .rBrace]) seg) (ts' : List Token) :
    ∃ es', eraseList es' = eraseList es ∧ Runs .block (seg ++ ts') (.ok (.list es')) ts' [] := by
  induction es generalizing seg with
  | nil =>
    cases spelled with
    | fixed close rest => cases rest; exact ⟨[],rfl,.blockClose close⟩
  | cons e es ih =>
    rw [flattenStatements,List.append_assoc] at spelled
    obtain ⟨seg₁,seg₂,rfl,first,others⟩ := Spells.split spelled
    obtain ⟨e',same,run⟩ := each e List.mem_cons_self seg₁ (seg₂ ++ ts') first
    obtain ⟨es',sames,runs⟩ := ih (fun e member => each e (List.mem_cons_of_mem _ member)) others
    refine ⟨e' :: es',by simp [eraseList,same,sames],?_⟩
    have shorter := (runs_consume run).2
    rw [List.append_assoc]
    cases front : seg₁ ++ (seg₂ ++ ts') with
    | nil => simp [front,least] at shorter
    | cons t rest =>
      rw [front] at run
      simpa using Runs.blockNext (statement_inside run) run runs

theorem first_token {e : AstExpression} (open_ : beginsWithBlock e = false) {seg : List Token}
    (spelled : Spells anywhere (flatten e) seg) : ∃ t rest, seg = t :: rest ∧ t.kind ≠ .lBrace := by
  induction e using AstExpression.induct generalizing seg with
  | ident offset length => cases spelled with | text same => exact ⟨_,_,rfl,by rw [same]; decide⟩
  | literal offset kind length =>
    cases spelled with | text same => exact ⟨_,_,rfl,by rw [same]; cases kind <;> decide⟩
  | block offset es => cases open_
  | return_ offset es =>
    rw [flatten_return] at spelled
    cases spelled with | fixed same => exact ⟨_,_,rfl,by rw [same]; decide⟩
  | unary offset op e ih =>
    rw [flatten] at spelled
    cases isPrefix : isPrefixOperator op with
    | true =>
      simp only [isPrefix,if_true] at spelled
      cases spelled with | fixed same => exact ⟨_,_,rfl,by rw [same]; cases op <;> decide⟩
    | false =>
      simp only [isPrefix,Bool.false_eq_true,if_false] at spelled
      obtain ⟨seg₁,seg₂,rfl,first,_⟩ := Spells.split spelled
      obtain ⟨t,rest,rfl,noBrace⟩ := ih (by simpa [beginsWithBlock,isPrefix] using open_) first
      exact ⟨t,rest ++ seg₂,rfl,noBrace⟩
  | binary offset op left right ihl ihr =>
    obtain ⟨seg₁,seg₂,rfl,first,_⟩ := Spells.split spelled
    obtain ⟨t,rest,rfl,noBrace⟩ := ihl open_ first
    exact ⟨t,rest ++ seg₂,rfl,noBrace⟩
  | call offset callee es ih ihs =>
    rw [flatten_call] at spelled
    obtain ⟨seg₁,seg₂,rfl,first,_⟩ := Spells.split spelled
    obtain ⟨t,rest,rfl,noBrace⟩ := ih open_ first
    exact ⟨t,rest ++ seg₂,rfl,noBrace⟩

theorem semicolon_closes {t : Token} (same : t.kind = .semicolon) : Closes t.kind := by rw [same]; exact ⟨rfl,by decide⟩

theorem expression_statement {e : AstExpression} (reparses : Reparses e) (open_ : beginsWithBlock e = false) :
    ReparsesStatement e := by
  intro seg ts' spelled
  have plain : isBlock e = false := by cases e <;> first | rfl | cases open_
  rw [statementEnd,plain] at spelled
  obtain ⟨seg₁,seg₂,rfl,first,last⟩ := Spells.split spelled
  cases last with
  | @fixed kind u ps ts semicolon rest =>
  cases rest
  obtain ⟨t,rest,rfl,noBrace⟩ := first_token open_ first
  have closes := semicolon_closes semicolon
  obtain ⟨e',same,run⟩ := reparses_stop reparses (by decide) (above_statement e) first
    (closes_follows closes e ts') (closes_stops closes .statement ts')
  exact ⟨e',same,by simpa using Runs.statementClosed noBrace run semicolon⟩

theorem unary_reparses {offset : BitVec sourceSizeBits} {op : UnaryOperator} {e : AstExpression}
    (bound : WellBound (.unary offset op e)) (reparses : Reparses e) : Reparses (.unary offset op e) := by
  intro p seg ts' level above spelled follows
  obtain ⟨noBinary,noPrefix⟩ := bound
  have loose (q : Precedence) : Above q e := fun q' same => by rw [noBinary] at same; cases same
  rw [flatten] at spelled
  cases isPrefix : isPrefixOperator op with
  | true =>
    simp only [isPrefix,if_true] at spelled
    cases spelled with
    | @fixed kind t ps seg same rest =>
    have stops := follows.1 isPrefix
    have inner : Follows e ts' := ⟨fun _ => stops,fun q same => by rw [noBinary] at same; cases same⟩
    obtain ⟨e',erased,run⟩ := reparses_stop reparses (by decide) (loose .prefix_) rest inner stops
    have found : lookupHeadParseFn t.kind = some (.onPrefixOperator op) := same ▸ prefix_head isPrefix
    exact ⟨.unary t.offset op e',by simp [erase,erased],fun r ts'' log tails => .headTails (.prefixed found run) tails⟩
  | false =>
    simp only [isPrefix,Bool.false_eq_true,if_false] at spelled
    obtain ⟨seg₁,seg₂,rfl,first,last⟩ := Spells.split spelled
    cases last with
    | @fixed kind t ps ts same rest =>
    cases rest
    have found := postfix_tail isPrefix same ts'
    have inner : Follows e (t :: ts') := by
      refine ⟨fun impossible => ?_,fun q same => by rw [noBinary] at same; cases same⟩
      rw [noPrefix isPrefix] at impossible; cases impossible
    obtain ⟨e',erased,onward⟩ := reparses p seg₁ (t :: ts') level (loose p) first inner
    refine ⟨.unary e'.tokenOffset op e',by simp [erase,erased],fun r ts'' log tails => ?_⟩
    have run := onward _ _ _ (.tailsNext ⟨_,found,level⟩ (.postfixed found) tails)
    simpa using run

theorem binary_reparses {offset : BitVec sourceSizeBits} {op : BinaryOperator} {left right : AstExpression}
    (bound : WellBound (.binary offset op left right)) (first : Reparses left) (second : Reparses right) :
    Reparses (.binary offset op left right) := by
  intro p seg ts' level above spelled follows
  have binds : p < lookupPrecedenceForAssociativity op := above _ rfl
  have below : lookupPrecedenceForAssociativity op < .prefix_ := (binary_level op).2
  have stops : Stops (lookupPrecedenceForAssociativity op) ts' := follows.2 _ rfl
  obtain ⟨seg₁,seg₂,rfl,spelledLeft,others⟩ := Spells.split spelled
  have others' : Spells anywhere ([binaryPiece op] ++ flatten right) _ := others
  obtain ⟨seg₂,seg₃,rfl,spelledOp,spelledRight⟩ := Spells.split others'
  have inner : Follows right ts' :=
    ⟨fun _ => stops_weaken stops (Nat.le_of_lt below),fun q same => stops_weaken stops (Nat.le_of_lt (bound.2 q same))⟩
  obtain ⟨right',erasedRight,run⟩ := reparses_stop second (Nat.lt_trans below (by decide)) bound.2 spelledRight inner stops
  obtain ⟨u,rest,fn,front,isHead⟩ := expression_head run
  rw [front] at run
  obtain ⟨found,dropped⟩ := binary_tail spelledOp rest (head_not isHead rfl)
  have outer : Follows left (seg₂ ++ u :: rest) :=
    ⟨fun _ => stops_found found (Nat.le_of_lt below),fun q same => stops_found found (bound.1 q same)⟩
  have aboveLeft : Above p left := fun q same => Nat.lt_of_lt_of_le binds (bound.1 q same)
  obtain ⟨left',erasedLeft,onward⟩ := first p seg₁ (seg₂ ++ u :: rest) level aboveLeft spelledLeft outer
  refine ⟨.binary left'.tokenOffset op left' right',by simp [erase,erasedLeft,erasedRight],fun r ts'' log tails => ?_⟩
  have whole := onward _ _ _ (.tailsNext ⟨_,found,binds⟩ (.binary found (dropped ▸ run)) tails)
  simpa [← front] using whole

theorem call_reparses {offset : BitVec sourceSizeBits} {callee : AstExpression} {es : List AstExpression}
    (bound : WellBound (.call offset callee es)) (base : Reparses callee) (each : ∀ e ∈ es, Reparses e) :
    Reparses (.call offset callee es) := by
  intro p seg ts' level above spelled follows
  obtain ⟨noBinary,noPrefix⟩ := bound
  rw [flatten_call] at spelled
  obtain ⟨seg₁,seg₂,rfl,spelledBase,others⟩ := Spells.split spelled
  cases others with
  | @fixed kind t ps seg paren others =>
  obtain ⟨seg₂,seg₃,rfl,values,last⟩ := Spells.split others
  cases last with
  | @fixed kind v ps ts close rest =>
  cases rest
  have outer (rest : List Token) : Follows callee (t :: rest) := by
    refine ⟨fun impossible => ?_,fun q same => by rw [noBinary] at same; cases same⟩
    rw [noPrefix] at impossible; cases impossible
  have aboveBase : Above p callee := fun q same => by rw [noBinary] at same; cases same
  obtain ⟨callee',erased,onward⟩ := base p seg₁ (t :: (seg₂ ++ v :: ts')) level aboveBase spelledBase (outer _)
  have found := paren_tail paren (seg₂ ++ v :: ts')
  by_cases empty : es = []
  · subst empty
    cases values
    refine ⟨.call callee'.tokenOffset callee' [],by simp [erase,erased],fun r ts'' log tails => ?_⟩
    simpa using onward _ _ _ (.tailsNext ⟨_,found,level⟩ (.callEmpty paren close) tails)
  · have closes : Closes v.kind := by rw [close]; exact ⟨rfl,by decide⟩
    obtain ⟨es',erasedAll,run⟩ := values_reparse each empty values ts' closes (by rw [close]; decide)
    obtain ⟨u,rest,fn,front,isHead⟩ := values_head run
    have argument : u.kind ≠ .rParen := head_not isHead rfl
    rw [front] at run found onward
    refine ⟨.call callee'.tokenOffset callee' es',by simp [erase,erased,erasedAll],fun r ts'' log tails => ?_⟩
    have whole := onward _ _ _ (.tailsNext ⟨_,found,level⟩ (.callClosed paren argument run close) tails)
    simpa [← front] using whole

theorem return_reparses {offset : BitVec sourceSizeBits} {es : List AstExpression} (each : ∀ e ∈ es, Reparses e) :
    ReparsesStatement (.return_ offset es) := by
  intro seg ts' spelled
  rw [flatten_return,statementEnd,List.cons_append] at spelled
  cases spelled with
  | @fixed kind t ps seg kind' others =>
  obtain ⟨seg₁,seg₂,rfl,values,last⟩ := Spells.split others
  cases last with
  | @fixed kind u ps ts semicolon rest =>
  cases rest
  have closes := semicolon_closes semicolon
  have noBrace : t.kind ≠ .lBrace := by rw [kind']; decide
  by_cases empty : es = []
  · subst empty
    cases values
    have none : lookupHeadParseFn u.kind = none := by rw [semicolon]; rfl
    have run : Runs (.expression .statement) (t :: u :: ts') (.ok (.expr (.return_ t.offset []))) (u :: ts') [] :=
      .headTails (.returnBare kind' none) (.tailsStop (closes_stops closes _ ts'))
    exact ⟨.return_ t.offset [],rfl,.statementClosed noBrace run semicolon⟩
  · obtain ⟨es',erased,run⟩ := values_reparse each empty values ts' closes (by rw [semicolon]; decide)
    obtain ⟨v,rest,fn,front,isHead⟩ := values_head run
    have argument : lookupHeadParseFn v.kind ≠ none := by simp [isHead]
    rw [front] at run
    have whole := Runs.headTails (.returnValues kind' argument run) (.tailsStop (closes_stops closes .statement ts'))
    refine ⟨.return_ t.offset es',by simp [erase,erased],?_⟩
    simpa [← front] using Runs.statementClosed noBrace whole semicolon

theorem reparses (e : AstExpression) :
    (Canonical .operand e → Reparses e) ∧ (Canonical .statement e → ReparsesStatement e) := by
  induction e using AstExpression.induct with
  | ident offset length =>
    have operand : Reparses (.ident offset length) := by
      intro p seg ts' level above spelled follows
      cases spelled with
      | @text kind place length t ps ts same near long rest =>
      cases rest
      exact ⟨.ident t.offset t.variableLength,by simp [erase,long],fun r ts'' log tails => .headTails (.identifier same) tails⟩
    exact ⟨fun _ => operand,fun _ => expression_statement operand rfl⟩
  | literal offset kind length =>
    have operand : Reparses (.literal offset kind length) := by
      intro p seg ts' level above spelled follows
      cases spelled with
      | @text kind' place length t ps ts same near long rest =>
      cases rest
      have found : lookupHeadParseFn t.kind = some (.onLiteral kind) := same ▸ literal_head kind
      exact ⟨.literal t.offset kind t.variableLength,by simp [erase,long],
        fun r ts'' log tails => .headTails (.literal found) tails⟩
    exact ⟨fun _ => operand,fun _ => expression_statement operand rfl⟩
  | block offset es ih =>
    have body (canonical : Canonical .operand (.block offset es)) (seg ts' : List Token)
        (spelled : Spells anywhere (flatten (.block offset es)) seg) : ∃ t rest es',
          seg ++ ts' = t :: rest ∧ t.kind = .lBrace ∧ eraseList es' = eraseList es ∧
            Runs .head (t :: rest) (.ok (.expr (.block t.offset es'))) ts' [] := by
      cases canonical with
      | block each =>
      rw [flatten] at spelled
      cases spelled with
      | @fixed kind t ps seg brace others =>
      obtain ⟨es',erased,run⟩ := block_reparses (fun e member => (ih e member).2 (each e member)) others ts'
      exact ⟨t,seg ++ ts',es',rfl,brace,erased,.brace brace run⟩
    constructor
    · intro canonical p seg ts' level above spelled follows
      obtain ⟨t,rest,es',front,brace,erased,run⟩ := body canonical seg ts' spelled
      rw [front]
      exact ⟨.block t.offset es',by simp [erase,erased],fun r ts'' log tails => .headTails run tails⟩
    · intro canonical seg ts' spelled
      cases canonical with
      | expressionStatement operand open_ => cases open_
      | blockStatement canonical =>
      obtain ⟨t,rest,es',front,brace,erased,run⟩ := body canonical seg ts' (by simpa [statementEnd,isBlock] using spelled)
      rw [front]
      exact ⟨.block t.offset es',by simp [erase,erased],.statementBlock brace run⟩
  | return_ offset es ih =>
    constructor
    · intro canonical
      cases canonical
    · intro canonical
      cases canonical with
      | returnStatement each => exact return_reparses (fun e member => (ih e member).1 (each e member))
      | expressionStatement operand open_ => cases operand
  | unary offset op e ih =>
    have operand (canonical : Canonical .operand (.unary offset op e)) : Reparses (.unary offset op e) := by
      cases canonical with
      | unary bound operand => exact unary_reparses bound (ih.1 operand)
    refine ⟨operand,fun canonical => ?_⟩
    cases canonical with
    | expressionStatement canonical open_ => exact expression_statement (operand canonical) open_
  | binary offset op left right ihl ihr =>
    have operand (canonical : Canonical .operand (.binary offset op left right)) :
        Reparses (.binary offset op left right) := by
      cases canonical with
      | binary bound first second => exact binary_reparses bound (ihl.1 first) (ihr.1 second)
    refine ⟨operand,fun canonical => ?_⟩
    cases canonical with
    | expressionStatement canonical open_ => exact expression_statement (operand canonical) open_
  | call offset callee es ih ihs =>
    have operand (canonical : Canonical .operand (.call offset callee es)) : Reparses (.call offset callee es) := by
      cases canonical with
      | call bound base each => exact call_reparses bound (ih.1 base) (fun e member => (ihs e member).1 (each e member))
    refine ⟨operand,fun canonical => ?_⟩
    cases canonical with
    | expressionStatement canonical open_ => exact expression_statement (operand canonical) open_

theorem listed_reparses {α : Type} {Item : List Token → Reply α → List Token → List Expected → Prop}
    {item : α → List Piece} {strip : α → α} {as : List α}
    (each : ∀ a ∈ as, ∀ seg, Spells anywhere (item a) seg → ∃ a', strip a' = strip a ∧ ∀ rest, Item (seg ++ rest) (.ok a') rest [])
    (some : as ≠ []) {seg : List Token} (spelled : Spells anywhere (commaSeparated item as) seg) {u : Token}
    (rest : List Token) (noComma : u.kind ≠ .comma) :
    ∃ as', as'.map strip = as.map strip ∧ Listed Item (seg ++ u :: rest) (.ok as') (u :: rest) [] := by
  induction as generalizing seg with
  | nil => exact absurd rfl some
  | cons a as ih =>
    by_cases last : as = []
    · subst last
      obtain ⟨a',same,run⟩ := each a List.mem_cons_self seg (by simpa [commaSeparated] using spelled)
      exact ⟨[a'],by simp [same],.last (run _) noComma⟩
    · rw [comma_cons item a last] at spelled
      obtain ⟨seg₁,seg₂,rfl,first,others⟩ := Spells.split spelled
      cases others with
      | @fixed kind c ps ts comma others =>
      obtain ⟨a',same,run⟩ := each a List.mem_cons_self seg₁ first
      obtain ⟨as',sames,runs⟩ := ih (fun a member => each a (List.mem_cons_of_mem _ member)) last others
      refine ⟨a' :: as',by simp [same,sames],?_⟩
      simpa using Listed.next (run (c :: (ts ++ u :: rest))) comma runs

theorem parameter_reparses {p : AstFunctionParameter} (type : ∃ offset length, p.type = .ident offset length)
    (named : p.name.length ≠ 0) {seg : List Token} (spelled : Spells anywhere (flattenParameter p) seg) :
    ∃ p', eraseParameter p' = eraseParameter p ∧ (∃ t seg', seg = t :: seg' ∧ t.kind = .identifier) ∧
      ∀ rest, ParameterRuns (seg ++ rest) (.ok p') rest [] := by
  obtain ⟨offset,length,same⟩ := type
  rw [flattenParameter,same] at spelled
  cases spelled with
  | @text kind place length t ps ts kindT near long others =>
  cases others with
  | @text kind place length u ps ts kindU near' long' others =>
  cases others
  refine ⟨parameterOf t u,?_,⟨t,[u],rfl,kindT⟩,fun rest => .named kindT kindU (by rw [long']; exact named)⟩
  simp [eraseParameter,parameterOf,erase,eraseName,same,long,long']

theorem output_reparses {o : AstFunctionOutput} (type : ∃ offset length, o.type = .ident offset length)
    {seg : List Token} (spelled : Spells anywhere (flattenOutput o) seg) :
    ∃ o', eraseOutput o' = eraseOutput o ∧ ∀ rest, OutputRuns (seg ++ rest) (.ok o') rest [] := by
  obtain ⟨offset,length,same⟩ := type
  rw [flattenOutput,same] at spelled
  cases spelled with
  | @text kind place length t ps ts kindT near long others =>
  cases others
  refine ⟨outputOf t,?_,fun rest => .typed kindT⟩
  simp [eraseOutput,outputOf,erase,same,long]

theorem parameters_reparse {ps : List AstFunctionParameter}
    (each : ∀ p ∈ ps, (∃ offset length, p.type = .ident offset length) ∧ p.name.length ≠ 0) {seg : List Token}
    (spelled : Spells anywhere (commaSeparated flattenParameter ps) seg) {u : Token} (close : u.kind = .rParen)
    (rest : List Token) :
    ∃ ps', ps'.map eraseParameter = ps.map eraseParameter ∧ ParametersRun (seg ++ u :: rest) (.ok ps') rest [] := by
  cases ps with
  | nil =>
    cases spelled
    exact ⟨[],rfl,.empty close⟩
  | cons p ps =>
    obtain ⟨seg₁,seg₂,rfl,first,_⟩ := Spells.split spelled
    obtain ⟨_,_,⟨t,seg₁,rfl,kind⟩,_⟩ := parameter_reparses (each p List.mem_cons_self).1 (each p List.mem_cons_self).2 first
    have items (p' : AstFunctionParameter) (member : p' ∈ p :: ps) (seg : List Token)
        (spelled : Spells anywhere (flattenParameter p') seg) : ∃ a', eraseParameter a' = eraseParameter p' ∧
          ∀ rest, ParameterRuns (seg ++ rest) (.ok a') rest [] := by
      obtain ⟨a',same,_,run⟩ := parameter_reparses (each p' member).1 (each p' member).2 spelled
      exact ⟨a',same,run⟩
    obtain ⟨ps',sames,run⟩ := listed_reparses items (by simp) spelled rest (by rw [close]; decide)
    exact ⟨ps',sames,.closed (by rw [kind]; decide) run close⟩

theorem outputs_reparse {os : List AstFunctionOutput} (each : ∀ o ∈ os, ∃ offset length, o.type = .ident offset length)
    {seg : List Token} (spelled : Spells anywhere (flattenOutputs os) seg) {u : Token} (brace : u.kind = .lBrace)
    (rest : List Token) :
    ∃ os', os'.map eraseOutput = os.map eraseOutput ∧ OutputsRun (seg ++ u :: rest) (.ok os') (u :: rest) [] := by
  cases os with
  | nil =>
    cases spelled
    exact ⟨[],rfl,.none (by rw [brace]; decide)⟩
  | cons o os =>
    cases spelled with
    | @fixed kind t ps seg arrow others =>
    obtain ⟨os',sames,run⟩ := listed_reparses (fun o member seg spelled => output_reparses (each o member) spelled)
      (by simp) others rest (by rw [brace]; decide)
    exact ⟨os',sames,.some arrow run⟩

theorem modifier_reparses {modifier : AccessModifier} {seg : List Token}
    (spelled : Spells anywhere (flattenModifier modifier) seg) {name : Token} (kind : name.kind = .identifier)
    (rest : List Token) : ∃ t rest', seg ++ name :: rest = t :: rest' ∧ modifierOf t.kind = modifier ∧
      t.kind ≠ .endOfFile ∧ afterModifier (t :: rest') = name :: rest := by
  cases modifier with
  | none =>
    cases spelled
    exact ⟨name,rest,rfl,by rw [kind]; rfl,by rw [kind]; decide,by rw [afterModifier,kind]; rfl⟩
  | private_ | public_ =>
    cases spelled with
    | @fixed _ t ps seg same others =>
    cases others
    exact ⟨t,name :: rest,rfl,by rw [same]; rfl,by rw [same]; decide,by rw [afterModifier,same]; rfl⟩

theorem definition_reparses {d : AstDefinition} (canonical : CanonicalDefinition d) {seg : List Token}
    (spelled : Spells anywhere (flattenDefinition d) seg) (ts' : List Token) : ∃ d' t rest,
      seg ++ ts' = t :: rest ∧ t.kind ≠ .endOfFile ∧ eraseDefinition d' = eraseDefinition d ∧
        DefinitionRuns (t :: rest) (.ok d') ts' [] := by
  rw [flattenDefinition] at spelled
  obtain ⟨seg₀,_,rfl,modifier,named⟩ := Spells.split spelled
  cases named with
  | @text _ _ _ name _ _ kind near long opened =>
  cases opened with
  | @fixed _ p _ _ paren listed =>
  obtain ⟨seg₁,_,rfl,parameters,closed⟩ := Spells.split listed
  cases closed with
  | @fixed _ u _ _ close returned =>
  obtain ⟨seg₂,_,rfl,outputs,braced⟩ := Spells.split returned
  cases braced with
  | @fixed _ v _ seg₃ brace body =>
  obtain ⟨es',sameBody,block⟩ := block_reparses (fun e member => (reparses e).2 (canonical.statements e member)) body ts'
  obtain ⟨os',sameOutputs,outputs⟩ := outputs_reparse canonical.outputs outputs brace (seg₃ ++ ts')
  obtain ⟨ps',sameParameters,parameters⟩ :=
    parameters_reparse canonical.parameters parameters close (seg₂ ++ v :: (seg₃ ++ ts'))
  obtain ⟨t,rest,front,isModifier,more,after⟩ :=
    modifier_reparses modifier kind (p :: (seg₁ ++ u :: (seg₂ ++ v :: (seg₃ ++ ts'))))
  have function : FunctionRuns t.offset (modifierOf t.kind) name _ _ ts' _ := .body paren parameters outputs brace block
  refine ⟨_,t,rest,by simpa using front,more,?_,.function after kind function⟩
  simp [eraseDefinition,eraseName,isModifier,long,sameBody,sameOutputs,sameParameters]

theorem file_reparses {ds : List AstDefinition} (canonical : ∀ d ∈ ds, CanonicalDefinition d) {seg : List Token}
    (spelled : Spells anywhere (flattenFile ds) seg) {e : Token} (atEnd : e.kind = .endOfFile) :
    ∃ ds', ds'.map eraseDefinition = ds.map eraseDefinition ∧ FileRuns (seg ++ [e]) ds' [e] [] := by
  induction ds generalizing seg with
  | nil =>
    cases spelled
    exact ⟨[],rfl,.done atEnd⟩
  | cons d ds ih =>
    obtain ⟨seg₁,seg₂,rfl,first,others⟩ := Spells.split spelled
    obtain ⟨ds',sames,file⟩ := ih (fun d member => canonical d (List.mem_cons_of_mem _ member)) others
    obtain ⟨d',t,rest,front,more,same,run⟩ := definition_reparses (canonical d List.mem_cons_self) first (seg₂ ++ [e])
    refine ⟨d' :: ds',by simp [same,sames],?_⟩
    rw [List.append_assoc,front]
    exact .defined more run file

-- The parser reads the tokens of a canonical file back as that file, without a
-- report.
theorem flattened_parses {definitions : List AstDefinition} (canonical : ∀ d ∈ definitions, CanonicalDefinition d)
    {front : List Token} (spelled : Spells anywhere (flattenFile definitions) front) {e : Token}
    (atEnd : e.kind = .endOfFile) : ∃ parsed, runParser (front ++ [e]) = .ok ⟨.ok parsed,[e],[]⟩ ∧
      parsed.map eraseDefinition = definitions.map eraseDefinition := by
  obtain ⟨ds',sames,file⟩ := file_reparses canonical spelled atEnd
  exact ⟨ds',runParser_exact.mpr ⟨ds',rfl,file⟩,sames⟩

theorem flattened_parses_shift : ∃ parsed,
    runParser (shiftTokens.dropLast ++ [.fixed .endOfFile 25]) = .ok ⟨.ok parsed,[.fixed .endOfFile 25],[]⟩ ∧
      parsed.map eraseDefinition = [shiftDefinition].map eraseDefinition := by
  have shift : Canonical .operand (.binary 14 .shr (.ident 14 1) (.ident 17 1)) :=
    .binary ⟨by simp [binaryPrecedence],by simp [binaryPrecedence]⟩ .ident .ident
  have deref : Canonical .operand (.unary 20 .deref (.ident 20 1)) := .unary ⟨rfl,fun _ => rfl⟩ .ident
  have canonical : ∀ d ∈ [shiftDefinition], CanonicalDefinition d := by
    intro d member
    obtain rfl := List.mem_singleton.mp member
    refine ⟨?_,?_,?_⟩
    · intro p among
      obtain rfl := List.mem_singleton.mp among
      exact ⟨⟨2,1,rfl⟩,by decide⟩
    · intro o among
      cases among
    · intro e among
      rcases List.mem_cons.mp among with rfl | among
      · exact .returnStatement (by simpa using shift)
      · obtain rfl := List.mem_singleton.mp among
        exact .blockStatement (.block (by simpa using .expressionStatement deref rfl))
  have spelled : Spells anywhere (flattenFile [shiftDefinition]) shiftTokens.dropLast := by
    repeat first
      | exact .nil
      | refine .fixed rfl ?_
      | refine .text rfl trivial rfl ?_
      | refine .shr rfl rfl rfl ?_
  exact flattened_parses canonical spelled rfl
end Cero.Parser
