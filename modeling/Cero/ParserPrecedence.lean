import Cero.DefinitionTotal

namespace Cero.Parser
open AstExpression

def binaryPrecedence : AstExpression → Option Precedence
  | .binary _ op _ _ => some (lookupPrecedenceForAssociativity op)
  | _ => none

def isPrefixNode : AstExpression → Bool
  | .unary _ op _ => isPrefixOperator op
  | _ => false

-- What a node may have as its operands.
def WellBound : AstExpression → Prop
  | .binary _ op left right =>
      (∀ p, binaryPrecedence left = some p → lookupPrecedenceForAssociativity op ≤ p) ∧
      ∀ p, binaryPrecedence right = some p → lookupPrecedenceForAssociativity op < p
  | .unary _ op operand =>
      binaryPrecedence operand = none ∧ (isPrefixOperator op = false → isPrefixNode operand = false)
  | .call _ callee _ => binaryPrecedence callee = none ∧ isPrefixNode callee = false
  | _ => True

def Above (p : Precedence) (e : AstExpression) : Prop := ∀ q, binaryPrecedence e = some q → p < q

-- `left` has been ended by an operator that binds no stronger than it does.
def Fits (left : AstExpression) (ts : List Token) : Prop := ∀ rule, nextTail ts = some rule →
  (∀ q, binaryPrecedence left = some q → rule.precedence ≤ q) ∧
  (isPrefixNode left = true → rule.precedence ≤ .prefix_)

theorem stops_fits {p : Precedence} {ts : List Token} {e : AstExpression} (stops : Stops p ts)
    (binary : ∀ q, binaryPrecedence e = some q → p = q) (isPrefix : isPrefixNode e = true → p = .prefix_) :
    Fits e ts := by
  obtain ⟨rule,found,loose⟩ := stops
  intro rule' again
  rw [found] at again; cases again
  have bound : rule.precedence ≤ p := Nat.le_of_not_lt loose
  refine ⟨fun q same => ?_,fun same => ?_⟩
  · exact binary q same ▸ bound
  · exact isPrefix same ▸ bound

-- Nothing an operator with the strongest level could not be put behind.
theorem fits_postfixed {left : AstExpression} {ts : List Token} {fn : Option TailParseFunction} (fits : Fits left ts)
    (found : nextTail ts = some ⟨.postfix_,fn⟩) : binaryPrecedence left = none ∧ isPrefixNode left = false := by
  have bound := fits _ found
  constructor
  · cases same : binaryPrecedence left with
    | none => rfl
    | some q =>
      have level : Precedence.postfix_ ≤ q := bound.1 q same
      cases left with
      | binary offset op l r => cases same; cases op <;> exact absurd level (by decide)
      | _ => cases same
  · cases same : isPrefixNode left with
    | false => rfl
    | true =>
      have level : Precedence.postfix_ ≤ .prefix_ := bound.2 same
      exact absurd level (by decide)

theorem above_prefix {e : AstExpression} (above : Above .prefix_ e) : binaryPrecedence e = none := by
  cases e with
  | binary offset op left right => cases op <;> exact absurd (above _ rfl) (by decide)
  | _ => rfl

-- What each task promises about the expression it returns.
def Binds : Task → List Token → Reply Form → List Token → Prop
  | .expression p,_,.ok (.expr e),ts' => All WellBound e ∧ Above p e ∧ Stops p ts'
  | .tails p left,ts,.ok (.expr e),ts' =>
      All WellBound left → Above p left → Fits left ts → All WellBound e ∧ Above p e ∧ Stops p ts'
  | .head,_,.ok (.expr e),ts' => All WellBound e ∧ binaryPrecedence e = none ∧ Fits e ts'
  | .tail left,ts,.ok (.expr e),ts' => All WellBound left → Fits left ts →
      All WellBound e ∧ (∀ p, Attaches p ts → Above p e) ∧ Fits e ts'
  | _,_,.ok (.expr e),_ => All WellBound e
  | _,_,.ok (.list es),_ => ∀ e ∈ es, All WellBound e
  | _,_,.thrown,_ => True

theorem fits_plain {e : AstExpression} (noBinary : binaryPrecedence e = none) (noPrefix : isPrefixNode e = false)
    (ts : List Token) : Fits e ts := by
  intro rule _
  simp [noBinary,noPrefix]

theorem head_operator {kind : TokenKind} {op : UnaryOperator}
    (found : lookupHeadParseFn kind = some (.onPrefixOperator op)) : isPrefixOperator op = true := by
  revert found; cases kind <;> intro found <;> cases found <;> rfl

theorem tail_operator {kind : TokenKind} {p : Precedence} {op : UnaryOperator}
    (found : tailRuleOfKind kind = ⟨p,some (.onPostfixOperator op)⟩) : isPrefixOperator op = false := by
  cases kind <;> cases found <;> rfl

theorem all_leaf {e : AstExpression} (leaf : e.children = []) (bound : WellBound e) : All WellBound e :=
  all_node.mpr ⟨bound,by simp [leaf]⟩

theorem runs_bind {task : Task} {ts ts' : List Token} {r : Reply Form} {log : List Expected}
    (run : Runs task ts r ts' log) : Binds task ts r ts' := by
  induction run with
  | blockClose close => simp [Binds]
  | blockNext inside first others ih₁ ih₂ =>
    intro e member
    rcases List.mem_cons.mp member with rfl | later
    · exact ih₁
    · exact ih₂ e later
  | blockRecover inside first skipped others ih₁ ih₂ => exact ih₂
  | blockEnd inside first skipped ih => simp [Binds]
  | @statementBlock t rest ts₁ r log brace run ih =>
    rcases expr_reply run rfl with rfl | ⟨e,rfl⟩
    · trivial
    · exact ih.1
  | statementClosed noBrace run semicolon ih => exact ih.1
  | statementOpen | statementThrown | noHead | headThrown | tailsThrown | returnThrown | prefixThrown | binaryThrown
    | callOpen | callThrown | valuesNextThrown | valuesThrown => trivial
  | @headTails ts ts₁ ts₂ p e r log₁ log₂ run tails ih₁ ih₂ =>
    rcases expr_reply tails rfl with rfl | ⟨e',rfl⟩
    · trivial
    · exact ih₂ ih₁.1 (fun q same => by rw [ih₁.2.1] at same; cases same) ih₁.2.2
  | tailsStop stops => exact fun bound above fits => ⟨bound,above,stops⟩
  | @tailsNext ts ts₁ ts₂ p left e r log₁ log₂ attaches run tails ih₁ ih₂ =>
    rcases expr_reply tails rfl with rfl | ⟨e',rfl⟩
    · trivial
    · intro bound above fits
      obtain ⟨bound₁,above₁,fits₁⟩ := ih₁ bound fits
      exact ih₂ bound₁ (above₁ p attaches) fits₁
  | identifier kind => exact ⟨all_leaf rfl trivial,rfl,fits_plain rfl rfl _⟩
  | literal found => exact ⟨all_leaf rfl trivial,rfl,fits_plain rfl rfl _⟩
  | brace kind run ih => exact ⟨all_node.mpr ⟨trivial,ih⟩,rfl,fits_plain rfl rfl _⟩
  | returnBare kind none => exact ⟨all_leaf rfl trivial,rfl,fits_plain rfl rfl _⟩
  | returnValues kind some run ih => exact ⟨all_node.mpr ⟨trivial,ih⟩,rfl,fits_plain rfl rfl _⟩
  | @prefixed t rest ts₁ op e log found run ih =>
    obtain ⟨bound,above,stops⟩ := ih
    have noBinary := above_prefix above
    have isPrefix := head_operator found
    refine ⟨all_node.mpr ⟨⟨noBinary,fun postfixed => ?_⟩,by simpa [children] using bound⟩,rfl,?_⟩
    · rw [isPrefix] at postfixed; cases postfixed
    · exact stops_fits stops (fun q same => by cases same) (fun _ => rfl)
  | @binary ts ts₁ p op left right log found run ih =>
    obtain ⟨bound,above,stops⟩ := ih
    have agree := (nextTail_binary found).1
    intro boundLeft fits
    refine ⟨all_node.mpr ⟨⟨fun q same => ?_,above⟩,by simpa [children] using ⟨boundLeft,bound⟩⟩,fun q attaches => ?_,?_⟩
    · exact agree ▸ (fits _ found).1 q same
    · obtain ⟨rule,again,binds⟩ := attaches
      rw [found] at again; cases again
      intro q' same
      cases same; exact agree ▸ binds
    · exact stops_fits stops (fun q same => by cases same; rfl) (fun same => by cases same)
  | @postfixed t rest p op left found =>
    obtain ⟨rfl,rule⟩ := nextTail_postfixed found
    have isPostfix := tail_operator rule
    intro boundLeft fits
    obtain ⟨noBinary,noPrefix⟩ := fits_postfixed fits found
    exact ⟨all_node.mpr ⟨⟨noBinary,fun _ => noPrefix⟩,by simpa [children] using boundLeft⟩,
      fun q attaches q' same => (by cases same),fits_plain rfl (show isPrefixNode (.unary left.tokenOffset op left) = false from isPostfix) _⟩
  | @callEmpty t u rest left kind close =>
    have found := paren_tail kind (u :: rest)
    intro boundLeft fits
    exact ⟨all_node.mpr ⟨fits_postfixed fits found,by simpa [children] using boundLeft⟩,
      fun q attaches q' same => (by cases same),fits_plain rfl rfl _⟩
  | @callClosed t u v rest ts₁ left es log kind argument run close ih =>
    have found := paren_tail kind (u :: rest)
    intro boundLeft fits
    refine ⟨all_node.mpr ⟨fits_postfixed fits found,fun c member => ?_⟩,fun q attaches q' same => (by cases same),
      fits_plain rfl rfl _⟩
    rcases List.mem_cons.mp member with rfl | argument
    · exact boundLeft
    · exact ih c argument
  | valuesLast run last ih =>
    intro e member
    rw [List.mem_singleton.mp member]
    exact ih.1
  | valuesNext run comma others ih₁ ih₂ =>
    intro e member
    rcases List.mem_cons.mp member with rfl | later
    · exact ih₁.1
    · exact ih₂ e later

-- The operands of every node of every tree that the parser returns, with and
-- without errors.
theorem parsed_precedence {tokens rest : List Token} {definitions : List AstDefinition} {log : List Expected}
    (parsed : runParser tokens = .ok ⟨.ok definitions,rest,log⟩) :
    ∀ d ∈ definitions, ∀ root ∈ d.expressions, ∀ e, Within e root → WellBound e := by
  obtain ⟨_,⟨⟩,file⟩ := runParser_exact.mp parsed
  exact file_expressions (P := All WellBound) (fun _ _ => all_leaf rfl trivial) file
    (fun ts es ts' log _ block => runs_bind block)

-- `f(){-a*b+c;}`
def operatorTokens : List Token :=
  [.make .identifier 0 1,.fixed .lParen 1,.fixed .rParen 2,.fixed .lBrace 3,.fixed .minus 4,.make .identifier 5 1,
    .fixed .star 6,.make .identifier 7 1,.fixed .plus 8,.make .identifier 9 1,.fixed .semicolon 10,.fixed .rBrace 11,
    .fixed .endOfFile 12]

def operatorDefinition : AstDefinition :=
  ⟨0,.none,⟨0,1⟩,[],[],[.binary 4 .add (.binary 4 .mul (.unary 4 .negate (.ident 5 1)) (.ident 7 1)) (.ident 9 1)]⟩

theorem parsed_precedence_operators :
    runParser operatorTokens = .ok ⟨.ok [operatorDefinition],[.fixed .endOfFile 12],[]⟩ ∧
      ∀ d ∈ [operatorDefinition], ∀ root ∈ d.expressions, ∀ e, Within e root → WellBound e := by
  have parsed : runParser operatorTokens = .ok ⟨.ok [operatorDefinition],[.fixed .endOfFile 12],[]⟩ := by
    decide +kernel
  exact ⟨parsed,parsed_precedence parsed⟩
end Cero.Parser
