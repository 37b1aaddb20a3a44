import Cero.DefinitionTotal
import Cero.Flatten

namespace Cero.Parser

theorem literal_token {kind : TokenKind} {literalKind : LiteralKind}
    (found : lookupHeadParseFn kind = some (.onLiteral literalKind)) : kind = literalToken literalKind := by
  revert found; cases kind <;> intro found <;> cases found <;> rfl

theorem prefix_token {kind : TokenKind} {op : UnaryOperator}
    (found : lookupHeadParseFn kind = some (.onPrefixOperator op)) :
    kind = unaryToken op ∧ isPrefixOperator op = true := by
  revert found; cases kind <;> intro found <;> cases found <;> exact ⟨rfl,rfl⟩

theorem postfix_token {kind : TokenKind} {p : Precedence} {op : UnaryOperator}
    (found : tailRuleOfKind kind = ⟨p,some (.onPostfixOperator op)⟩) :
    kind = unaryToken op ∧ isPrefixOperator op = false := by
  cases kind <;> cases found <;> exact ⟨rfl,rfl⟩

theorem binary_token {kind : TokenKind} {p : Precedence} {op : BinaryOperator}
    (found : tailRuleOfKind kind = ⟨p,some (.onBinaryOperator op)⟩) : binaryPiece op = .fixed kind := by
  cases kind <;> cases found <;> rfl

theorem operator_spelled {ts : List Token} {p : Precedence} {op : BinaryOperator} {at_ : Nat → Nat → Prop}
    (found : nextTail ts = some ⟨p,some (.onBinaryOperator op)⟩) :
    ∃ seg, ts = seg ++ ts.drop (operatorWidth op) ∧ Spells at_ [binaryPiece op] seg := by
  obtain ⟨_,⟨t,rest,rfl,_,notShr,_,rule⟩ | ⟨t,u,rest,rfl,angle,rfl,_⟩ | ⟨t,u,rest,rfl,angle,rfl,adjacent⟩⟩ :=
    nextTail_binary found
  · refine ⟨[t],by simp [operatorWidth,notShr],?_⟩
    rw [binary_token rule]
    exact .fixed rfl .nil
  · exact ⟨[t],by simp [operatorWidth],.fixed angle .nil⟩
  · simp only [adjacentAngle,Bool.and_eq_true,decide_eq_true_eq] at adjacent
    exact ⟨[t,u],by simp [operatorWidth],.shr angle adjacent.1 adjacent.2 .nil⟩

def statementEnd (e : AstExpression) : List Piece := if isBlock e then [] else [.fixed .semicolon]

theorem flattenMore_values {es : List AstExpression} (some : es ≠ []) :
    flattenMore es = .fixed .comma :: flattenValues es := by
  cases es with
  | nil => exact absurd rfl some
  | cons e es => rfl

-- The consumed tokens are the pieces of what was returned.
def Consumed (pieces : List Piece) (ts ts' : List Token) : Prop := ∃ seg, ts = seg ++ ts' ∧ Spells Eq pieces seg

theorem Consumed.append {ps qs : List Piece} {ts₁ ts₂ ts₃ : List Token} (first : Consumed ps ts₁ ts₂)
    (second : Consumed qs ts₂ ts₃) : Consumed (ps ++ qs) ts₁ ts₃ := by
  obtain ⟨seg,rfl,spelled⟩ := first
  obtain ⟨seg',rfl,spelled'⟩ := second
  exact ⟨seg ++ seg',by simp,spelled.append spelled'⟩

theorem Consumed.fixed {t : Token} {kind : TokenKind} (same : t.kind = kind) (rest : List Token) :
    Consumed [.fixed kind] (t :: rest) rest := ⟨[t],rfl,.fixed same .nil⟩

theorem Consumed.text {t : Token} {kind : TokenKind} (same : t.kind = kind) (rest : List Token) :
    Consumed [.text kind t.offset.toNat t.variableLength] (t :: rest) rest := ⟨[t],rfl,.text same rfl rfl .nil⟩

-- What a task that has reported nothing says about its tokens. For a tail and a
-- loop of tails `ts₀` is where the expression on the left began.
def Spelt : Task → List Token → Reply Form → List Token → Prop
  | .block,ts,.ok (.list es),ts' => Consumed (flattenStatements es ++ [.fixed .rBrace]) ts ts'
  | .values,ts,.ok (.list es),ts' => es ≠ [] ∧ Consumed (flattenValues es) ts ts'
  | .statement,ts,.ok (.expr e),ts' => Consumed (flatten e ++ statementEnd e) ts ts'
  | .expression _,ts,.ok (.expr e),ts' | .head,ts,.ok (.expr e),ts' =>
      Consumed (flatten e) ts ts' ∧ (isBlock e = true → ∃ t rest, ts = t :: rest ∧ t.kind = .lBrace)
  | .tails _ left,ts,.ok (.expr e),ts' | .tail left,ts,.ok (.expr e),ts' =>
      (∀ ts₀, Consumed (flatten left) ts₀ ts → Consumed (flatten e) ts₀ ts') ∧ (isBlock e = true → e = left)
  | _,_,_,_ => False

theorem runs_spelt {task : Task} {ts ts' : List Token} {r : Reply Form} {log : List Expected}
    (run : Runs task ts r ts' log) (silent : log = []) : Spelt task ts r ts' := by
  induction run with
  | blockClose close => exact Consumed.fixed close _
  | blockNext inside first others ih₁ ih₂ =>
    obtain ⟨silent₁,silent₂⟩ := List.append_eq_nil_iff.mp silent
    have whole := Consumed.append (ih₁ silent₁) (ih₂ silent₂)
    simpa [Spelt,flattenStatements,statementEnd] using whole
  | blockRecover inside first skipped others ih₁ ih₂ => exact (ih₁ (List.append_eq_nil_iff.mp silent).1).elim
  | blockEnd inside first skipped ih => exact (ih silent).elim
  | @statementBlock t rest ts₁ r log brace run ih =>
    rcases expr_reply run rfl with rfl | ⟨e,rfl⟩
    · exact (ih silent).elim
    · have isBraced : isBlock e = true := by
        cases run with
        | brace => rfl
        | identifier kind | returnBare kind | returnValues kind => rw [brace] at kind; cases kind
        | literal found | prefixed found => rw [brace] at found; cases found
      simpa [Spelt,statementEnd,isBraced] using (ih silent).1
  | @statementClosed t u rest ts₁ e log noBrace run semicolon ih =>
    obtain ⟨whole,braced⟩ := ih silent
    have plain : isBlock e = false := by
      cases same : isBlock e with
      | false => rfl
      | true =>
        obtain ⟨_,_,⟨⟩,brace⟩ := braced same
        exact absurd brace noBrace
    have closed := whole.append (.fixed semicolon ts₁)
    simpa [Spelt,statementEnd,plain] using closed
  | statementOpen noBrace run other ih => exact absurd silent (by simp)
  | statementThrown noBrace run ih => exact ih silent
  | noHead none => exact absurd silent (by simp)
  | headThrown run ih => exact ih silent
  | @headTails ts ts₁ ts₂ p e r log₁ log₂ run tails ih₁ ih₂ =>
    obtain ⟨silent₁,silent₂⟩ := List.append_eq_nil_iff.mp silent
    rcases expr_reply tails rfl with rfl | ⟨e',rfl⟩
    · exact (ih₂ silent₂).elim
    · obtain ⟨whole,braced⟩ := ih₁ silent₁
      obtain ⟨onward,kept⟩ := ih₂ silent₂
      refine ⟨onward ts whole,fun isBraced => ?_⟩
      have same := kept isBraced
      exact braced (same ▸ isBraced)
  | tailsStop stops => exact ⟨fun ts₀ whole => whole,fun _ => rfl⟩
  | tailsThrown attaches run ih => exact ih silent
  | @tailsNext ts ts₁ ts₂ p left e r log₁ log₂ attaches run tails ih₁ ih₂ =>
    obtain ⟨silent₁,silent₂⟩ := List.append_eq_nil_iff.mp silent
    rcases expr_reply tails rfl with rfl | ⟨e',rfl⟩
    · exact (ih₂ silent₂).elim
    · obtain ⟨onward₁,kept₁⟩ := ih₁ silent₁
      obtain ⟨onward₂,kept₂⟩ := ih₂ silent₂
      refine ⟨fun ts₀ whole => onward₂ ts₀ (onward₁ ts₀ whole),fun isBraced => ?_⟩
      have same := kept₂ isBraced
      exact same.trans (kept₁ (same ▸ isBraced))
  | identifier kind => exact ⟨Consumed.text kind _,fun impossible => (by cases impossible)⟩
  | literal found => exact ⟨Consumed.text (literal_token found) _,fun impossible => (by cases impossible)⟩
  | brace kind run ih =>
    have whole := (Consumed.fixed kind _).append (ih silent)
    exact ⟨by simpa [flatten] using whole,fun _ => ⟨_,_,rfl,kind⟩⟩
  | returnBare kind none => exact ⟨Consumed.fixed kind _,fun impossible => (by cases impossible)⟩
  | returnValues kind some run ih =>
    have whole := (Consumed.fixed kind _).append (ih silent).2
    exact ⟨by simpa [flatten_return] using whole,fun impossible => (by cases impossible)⟩
  | returnThrown kind some run ih => exact ih silent
  | prefixed found run ih =>
    obtain ⟨kind,isPrefix⟩ := prefix_token found
    have whole := (Consumed.fixed kind _).append (ih silent).1
    exact ⟨by simpa [flatten,isPrefix] using whole,fun impossible => (by cases impossible)⟩
  | prefixThrown found run ih => exact ih silent
  | @binary ts ts₁ p op left right log found run ih =>
    have operator : Consumed [binaryPiece op] ts (ts.drop (operatorWidth op)) := operator_spelled found
    have onward := operator.append (ih silent).1
    refine ⟨fun ts₀ whole => ?_,fun impossible => (by cases impossible)⟩
    simpa [flatten] using whole.append onward
  | binaryThrown found run ih => exact ih silent
  | @postfixed t rest p op left found =>
    obtain ⟨kind,isPostfix⟩ := postfix_token (nextTail_postfixed found).2
    refine ⟨fun ts₀ whole => ?_,fun impossible => (by cases impossible)⟩
    simpa [flatten,isPostfix] using whole.append (.fixed kind rest)
  | callEmpty kind close =>
    refine ⟨fun ts₀ whole => ?_,fun impossible => (by cases impossible)⟩
    simpa [flatten] using whole.append ((Consumed.fixed kind _).append (.fixed close _))
  | callClosed kind argument run close ih =>
    have onward := (Consumed.fixed kind _).append ((ih silent).2.append (.fixed close _))
    refine ⟨fun ts₀ whole => ?_,fun impossible => (by cases impossible)⟩
    simpa [flatten_call] using whole.append onward
  | callOpen kind argument run other ih => exact absurd silent (by simp)
  | callThrown kind argument run ih => exact ih silent
  | valuesLast run last ih =>
    refine ⟨by simp,?_⟩
    simpa [flattenValues,flattenMore] using (ih silent).1
  | valuesNext run comma others ih₁ ih₂ =>
    obtain ⟨silent₁,silent₂⟩ := List.append_eq_nil_iff.mp silent
    obtain ⟨some,rest⟩ := ih₂ silent₂
    have whole := (ih₁ silent₁).1.append ((Consumed.fixed comma _).append rest)
    refine ⟨by simp,?_⟩
    simpa [flattenValues,flattenMore_values some] using whole
  | valuesNextThrown run comma others ih₁ ih₂ => exact ih₂ (List.append_eq_nil_iff.mp silent).2
  | valuesThrown run ih => exact ih silent

-- Names of length zero are what a parameter without a name is taken for.
def Named (ts : List Token) : Prop := ∀ t ∈ ts, t.kind = .identifier → 0 < t.variableLength

theorem Named.consumed {ts ts' : List Token} (named : Named ts) (consumed : Consumes ts ts') : Named ts' := by
  obtain ⟨seg,rfl,_⟩ := consumed
  exact fun t member => named t (List.mem_append_right seg member)

theorem Named.behind {t : Token} {rest : List Token} (named : Named (t :: rest)) : Named rest :=
  fun u member => named u (List.mem_cons_of_mem _ member)

theorem comma_cons {α : Type} (item : α → List Piece) (a : α) {as : List α} (some : as ≠ []) :
    commaSeparated item (a :: as) = item a ++ .fixed .comma :: commaSeparated item as := by
  cases as with
  | nil => exact absurd rfl some
  | cons b as => rfl

-- A list of items that say what they consumed and that never fail silently.
theorem listed_spelt {α : Type} {Item : List Token → Reply α → List Token → List Expected → Prop} {item : α → List Piece}
    (each : ∀ {ts r ts'}, Named ts → Item ts r ts' [] → Consumes ts ts' ∧ ∃ a, r = .ok a ∧ Consumed (item a) ts ts')
    {ts ts' : List Token} {r : Reply (List α)} {log : List Expected} (run : Listed Item ts r ts' log)
    (named : Named ts) (silent : log = []) : ∃ as, r = .ok as ∧ as ≠ [] ∧ Consumed (commaSeparated item as) ts ts' := by
  induction run with
  | @last ts ts₁ u a log run last =>
    subst silent
    obtain ⟨_,_,⟨⟩,whole⟩ := each named run
    exact ⟨[a],rfl,by simp,by simpa [commaSeparated] using whole⟩
  | @next ts ts₁ ts₂ u a as log₁ log₂ run comma others ih =>
    obtain ⟨rfl,silent₂⟩ := List.append_eq_nil_iff.mp silent
    obtain ⟨consumed,_,⟨⟩,whole⟩ := each named run
    obtain ⟨_,⟨⟩,some,rest⟩ := ih (named.consumed consumed).behind silent₂
    refine ⟨a :: as,rfl,by simp,?_⟩
    rw [comma_cons item a some]
    simpa using whole.append ((Consumed.fixed comma ts₁).append rest)
  | nextThrown run comma others ih =>
    obtain ⟨rfl,silent₂⟩ := List.append_eq_nil_iff.mp silent
    obtain ⟨consumed,_⟩ := each named run
    obtain ⟨_,impossible,_⟩ := ih (named.consumed consumed).behind silent₂
    cases impossible
  | thrown run =>
    subst silent
    obtain ⟨_,_,impossible,_⟩ := each named run
    cases impossible

theorem parameter_spelt {ts ts' : List Token} {r : Reply AstFunctionParameter} (named : Named ts)
    (run : ParameterRuns ts r ts' []) :
    Consumes ts ts' ∧ ∃ p, r = .ok p ∧ Consumed (flattenParameter p) ts ts' := by
  refine ⟨(parameter_consumes run).1,?_⟩
  cases run with
  | named type name long => exact ⟨_,rfl,(Consumed.text type _).append (.text name _)⟩
  | nameEmpty type name empty =>
    have long := named _ (List.mem_cons_of_mem _ List.mem_cons_self) name
    omega

theorem output_spelt {ts ts' : List Token} {r : Reply AstFunctionOutput} (_ : Named ts)
    (run : OutputRuns ts r ts' []) : Consumes ts ts' ∧ ∃ o, r = .ok o ∧ Consumed (flattenOutput o) ts ts' := by
  refine ⟨(output_consumes run).1,?_⟩
  cases run with
  | typed type => exact ⟨_,rfl,Consumed.text type _⟩

theorem parameters_spelt {ts ts' : List Token} {r : Reply (List AstFunctionParameter)} (named : Named ts)
    (run : ParametersRun ts r ts' []) :
    ∃ ps, r = .ok ps ∧ Consumed (commaSeparated flattenParameter ps ++ [.fixed .rParen]) ts ts' := by
  generalize silent : ([] : List Expected) = log at run
  cases run with
  | empty close => exact ⟨[],rfl,Consumed.fixed close _⟩
  | closed some run close =>
    obtain ⟨_,⟨⟩,_,whole⟩ := listed_spelt parameter_spelt run named silent.symm
    exact ⟨_,rfl,whole.append (.fixed close _)⟩
  | unclosed some run other => exact absurd silent (by simp)
  | thrown some run =>
    obtain ⟨_,impossible,_⟩ := listed_spelt parameter_spelt run named silent.symm
    cases impossible

theorem outputs_spelt {ts ts' : List Token} {r : Reply (List AstFunctionOutput)} (named : Named ts)
    (run : OutputsRun ts r ts' []) : ∃ os, r = .ok os ∧ Consumed (flattenOutputs os) ts ts' := by
  cases run with
  | none noArrow => exact ⟨[],rfl,[],rfl,.nil⟩
  | some arrow run =>
    obtain ⟨os,rfl,some,whole⟩ := listed_spelt output_spelt run named.behind rfl
    refine ⟨os,rfl,?_⟩
    cases os with
    | nil => exact absurd rfl some
    | cons o os => exact (Consumed.fixed arrow _).append whole

theorem function_spelt {offset : BitVec sourceSizeBits} {modifier : AccessModifier} {name : Token}
    {ts ts' : List Token} {r : Reply AstDefinition} (named : Named ts) (run : FunctionRuns offset modifier name ts r ts' []) :
    ∃ d, r = .ok d ∧ d.accessModifier = modifier ∧ ∀ before, Consumed (flattenModifier modifier) before (name :: ts) →
      name.kind = .identifier → Consumed (flattenDefinition d) before ts' := by
  generalize silent : ([] : List Expected) = log at run
  cases run with
  | noParen other => cases silent
  | parametersThrown paren run =>
    subst silent
    obtain ⟨_,impossible,_⟩ := parameters_spelt named.behind run
    cases impossible
  | outputsThrown paren run outputs =>
    obtain ⟨rfl,rfl⟩ := List.append_eq_nil_iff.mp silent.symm
    obtain ⟨_,impossible,_⟩ := outputs_spelt (named.behind.consumed (parameters_consume run)) outputs
    cases impossible
  | noBody paren run outputs other => exact absurd silent.symm (by simp)
  | @body t u rest ts₁ ts₂ ts₃ ps os es log₁ log₂ log₃ paren run outputs brace block =>
    obtain ⟨silent₁,rfl⟩ := List.append_eq_nil_iff.mp silent.symm
    obtain ⟨rfl,rfl⟩ := List.append_eq_nil_iff.mp silent₁
    obtain ⟨_,⟨⟩,parameters⟩ := parameters_spelt named.behind run
    obtain ⟨_,⟨⟩,returned⟩ := outputs_spelt (named.behind.consumed (parameters_consume run)) outputs
    have body : Consumed (flattenStatements es ++ [.fixed .rBrace]) ts₂ ts' := runs_spelt block rfl
    refine ⟨_,rfl,rfl,fun before header identified => ?_⟩
    have opened := (Consumed.text identified _).append ((Consumed.fixed paren rest).append parameters)
    have closed := returned.append ((Consumed.fixed brace ts₂).append body)
    simpa [flattenDefinition,flattenName] using header.append (opened.append closed)

theorem modifier_spelt {t : Token} {rest ts : List Token} (after : afterModifier (t :: rest) = ts) :
    Consumed (flattenModifier (modifierOf t.kind)) (t :: rest) ts := by
  rw [afterModifier] at after
  split at after
  · rename_i none
    rw [none]
    exact ⟨[],by simpa using after,.nil⟩
  · rename_i marked
    subst after
    have kinds : t.kind = .kwPrivate ∨ t.kind = .kwPublic := by
      revert marked
      unfold modifierOf
      split <;> simp_all
    rcases kinds with kind | kind <;> rw [kind] <;> exact Consumed.fixed kind rest

theorem definition_spelt {ts ts' : List Token} {r : Reply AstDefinition} (named : Named ts)
    (run : DefinitionRuns ts r ts' []) : ∃ d, r = .ok d ∧ Consumed (flattenDefinition d) ts ts' := by
  generalize silent : ([] : List Expected) = log at run
  cases run with
  | noName after other => cases silent
  | @function t u rest ts₁ ts₂ r log after name run =>
    subst silent
    have header : Consumes (t :: rest) (u :: ts₁) := after ▸ modifier_consumes _
    obtain ⟨d,rfl,_,whole⟩ := function_spelt (named.consumed header).behind run
    exact ⟨d,rfl,whole _ (modifier_spelt after) name⟩

theorem file_spelt {ts ts' : List Token} {ds : List AstDefinition} {log : List Expected}
    (file : FileRuns ts ds ts' log) (named : Named ts) (silent : log = []) : Consumed (flattenFile ds) ts ts' := by
  induction file with
  | done atEnd => exact ⟨[],rfl,.nil⟩
  | @defined t rest ts₁ ts₂ d ds log₁ log₂ more run others ih =>
    obtain ⟨rfl,silent₂⟩ := List.append_eq_nil_iff.mp silent
    obtain ⟨_,⟨⟩,whole⟩ := definition_spelt named run
    exact whole.append (ih (named.consumed (definition_consumes run)) silent₂)
  | recovered more run skipped others ih =>
    obtain ⟨rfl,_⟩ := List.append_eq_nil_iff.mp silent
    obtain ⟨_,impossible,_⟩ := definition_spelt named run
    cases impossible

theorem file_flattens {tokens rest : List Token} {definitions : List AstDefinition} (ends : Terminated tokens)
    (named : Named tokens) (file : FileRuns tokens definitions rest []) :
    ∃ front e, tokens = front ++ [e] ∧ e.kind = .endOfFile ∧ Spells Eq (flattenFile definitions) front := by
  obtain ⟨consumed,e,rest,rfl,atEnd⟩ := file_ends file
  obtain rfl := (ends.consumed consumed).last atEnd
  obtain ⟨front,whole,spelled⟩ := file_spelt file named rfl
  exact ⟨front,e,whole,atEnd,spelled⟩

-- Where the parser has reported nothing, its trees are the token list piece by
-- piece, up to the end of the file.
theorem parsed_flattens {tokens rest : List Token} {definitions : List AstDefinition} (ends : Terminated tokens)
    (named : Named tokens) (parsed : runParser tokens = .ok ⟨.ok definitions,rest,[]⟩) :
    ∃ front e, tokens = front ++ [e] ∧ e.kind = .endOfFile ∧ Spells Eq (flattenFile definitions) front := by
  obtain ⟨_,⟨⟩,file⟩ := runParser_exact.mp parsed
  exact file_flattens ends named file

-- `f(A a){return a>>b;{c^;}}`
def shiftTokens : List Token :=
  [.make .identifier 0 1,.fixed .lParen 1,.make .identifier 2 1,.make .identifier 4 1,.fixed .rParen 5,.fixed .lBrace 6,
    .fixed .kwReturn 7,.make .identifier 14 1,.fixed .rAngle 15,.fixed .rAngle 16,.make .identifier 17 1,
    .fixed .semicolon 18,.fixed .lBrace 19,.make .identifier 20 1,.fixed .caret 21,.fixed .semicolon 22,
    .fixed .rBrace 23,.fixed .rBrace 24,.fixed .endOfFile 25]

def shiftDefinition : AstDefinition :=
  ⟨0,.none,⟨0,1⟩,[⟨2,.ident 2 1,⟨4,1⟩⟩],[],
    [.return_ 7 [.binary 14 .shr (.ident 14 1) (.ident 17 1)],.block 19 [.unary 20 .deref (.ident 20 1)]]⟩

theorem parsed_flattens_shift : ∃ front e, shiftTokens = front ++ [e] ∧ e.kind = .endOfFile ∧
    Spells Eq (flattenFile [shiftDefinition]) front := by
  have ends : Terminated shiftTokens := ⟨shiftTokens.dropLast,.fixed .endOfFile 25,rfl,rfl,by decide⟩
  have named : Named shiftTokens := by unfold Named; decide
  have parsed : runParser shiftTokens = .ok ⟨.ok [shiftDefinition],[.fixed .endOfFile 25],[]⟩ := by decide +kernel
  exact parsed_flattens ends named parsed
end Cero.Parser
