import Cero.DefinitionTotal

namespace Cero.Parser
open AstExpression

-- `e` is what the parse functions made of the tokens between the two cursors: a
-- head alone, or tails around what was parsed before them.
inductive BuiltFrom : AstExpression → List Token → List Token → Prop where
  | head {e : AstExpression} {ts ts' : List Token} {log : List Expected} (run : Runs .head ts (.ok (.expr e)) ts' log) :
      BuiltFrom e ts ts'
  | tail {left e : AstExpression} {ts ts₁ ts' : List Token} {log : List Expected} (operand : BuiltFrom left ts ts₁)
      (run : Runs (.tail left) ts₁ (.ok (.expr e)) ts' log) : BuiltFrom e ts ts'

-- Siblings one behind the other, each from tokens of its own.
inductive Row {α : Type} (Place : α → List Token → List Token → Prop) : List α → List Token → List Token → Prop where
  | last {ts ts' : List Token} (gap : Consumes ts ts') : Row Place [] ts ts'
  | next {ts ts₁ ts₂ ts' : List Token} {a : α} {as : List α} (gap : Consumes ts ts₁) (item : Place a ts₁ ts₂)
      (others : Row Place as ts₂ ts') : Row Place (a :: as) ts ts'

-- Nodes whose first child was parsed before the token that made them.
def leads : AstExpression → Option (AstExpression × List AstExpression)
  | .unary _ op e => if isPrefixOperator op then none else some (e,[])
  | .binary _ _ left right => some (left,[right])
  | .call _ callee args => some (callee,args)
  | _ => none

-- One assignment of token ranges to a whole tree. Every node carries the offset of
-- the first token of its range; its children lie in disjoint ranges inside of it,
-- behind that token or, for a leading operand, from that token on.
inductive Placed : AstExpression → List Token → List Token → Prop where
  | plain {e : AstExpression} {t : Token} {rest ts' : List Token} (built : BuiltFrom e (t :: rest) ts')
      (start : e.tokenOffset = t.offset) (led : leads e = none) (parts : Row Placed e.children rest ts') :
      Placed e (t :: rest) ts'
  | led {e left : AstExpression} {others : List AstExpression} {t : Token} {rest ts₁ ts' : List Token}
      (built : BuiltFrom e (t :: rest) ts') (start : e.tokenOffset = t.offset) (led : leads e = some (left,others))
      (operand : Placed left (t :: rest) ts₁) (parts : Row Placed others ts₁ ts') : Placed e (t :: rest) ts'

theorem Placed.built {e : AstExpression} {ts ts' : List Token} (placed : Placed e ts ts') : BuiltFrom e ts ts' := by
  cases placed <;> assumption

theorem Placed.start {e : AstExpression} {ts ts' : List Token} (placed : Placed e ts ts') :
    ∃ t rest, ts = t :: rest ∧ e.tokenOffset = t.offset := by
  cases placed <;> exact ⟨_,_,rfl,by assumption⟩

theorem built_consumes {e : AstExpression} {ts ts' : List Token} (built : BuiltFrom e ts ts') :
    Consumes ts ts' ∧ ts'.length < ts.length := by
  induction built with
  | head run =>
    have consumed := runs_consume run
    exact ⟨consumed.1,Nat.lt_of_succ_le consumed.2⟩
  | tail operand run ih =>
    have consumed := runs_consume run
    have bound := consumed.1.length
    exact ⟨ih.1.trans consumed.1,by omega⟩

theorem Consumes.rest {t : Token} {rest ts' : List Token} (consumed : Consumes (t :: rest) ts')
    (shorter : ts'.length < (t :: rest).length) : Consumes rest ts' := by
  obtain ⟨seg,same,none⟩ := consumed
  cases seg with
  | nil => rw [← List.nil_append ts',← same] at shorter; exact absurd shorter (Nat.lt_irrefl _)
  | cons u seg =>
    simp only [List.cons_append,List.cons.injEq] at same
    exact ⟨seg,same.2,fun v member => none v (List.mem_cons_of_mem _ member)⟩

theorem Consumes.member {ts ts' : List Token} (consumed : Consumes ts ts') {t : Token} (member : t ∈ ts') : t ∈ ts := by
  obtain ⟨seg,rfl,_⟩ := consumed
  exact List.mem_append_right seg member

-- What each task leaves behind in terms of ranges.
def Places : Task → List Token → Reply Form → List Token → Prop
  | .expression _,ts,.ok (.expr e),ts' | .head,ts,.ok (.expr e),ts' => Placed e ts ts'
  | .tails _ left,ts,.ok (.expr e),ts' | .tail left,ts,.ok (.expr e),ts' =>
      ∀ ts₀, Placed left ts₀ ts → Placed e ts₀ ts'
  | .statement,ts,.ok (.expr e),ts' => ∃ ts₁, Placed e ts ts₁ ∧ Consumes ts₁ ts'
  | .block,ts,.ok (.list es),ts' | .values,ts,.ok (.list es),ts' => Row Placed es ts ts'
  | _,_,_,_ => True

theorem Row.before {α : Type} {Place : α → List Token → List Token → Prop} {as : List α} {ts ts₁ ts' : List Token}
    (gap : Consumes ts ts₁) (row : Row Place as ts₁ ts') : Row Place as ts ts' := by
  cases row with
  | last gap' => exact .last (gap.trans gap')
  | next gap' item others => exact .next (gap.trans gap') item others

theorem Row.behind {α : Type} {Place : α → List Token → List Token → Prop} {as : List α} {ts ts₁ ts' : List Token}
    (row : Row Place as ts ts₁) (gap : Consumes ts₁ ts') : Row Place as ts ts' := by
  induction row with
  | last gap' => exact .last (gap'.trans gap)
  | next gap' item others ih => exact .next gap' item (ih gap)

theorem tail_leads {kind : TokenKind} {p : Precedence} {op : UnaryOperator}
    (found : tailRuleOfKind kind = ⟨p,some (.onPostfixOperator op)⟩) (offset : BitVec sourceSizeBits)
    (e : AstExpression) : leads (.unary offset op e) = some (e,[]) := by
  cases kind <;> cases found <;> rfl

theorem head_leads {kind : TokenKind} {op : UnaryOperator} (found : lookupHeadParseFn kind = some (.onPrefixOperator op))
    (offset : BitVec sourceSizeBits) (e : AstExpression) : leads (.unary offset op e) = none := by
  revert found; cases kind <;> intro found <;> cases found <;> rfl

theorem placed_tail {left e : AstExpression} {others : List AstExpression} {ts₀ ts ts' : List Token}
    {log : List Expected} (run : Runs (.tail left) ts (.ok (.expr e)) ts' log) (placed : Placed left ts₀ ts)
    (same : e.tokenOffset = left.tokenOffset) (led : leads e = some (left,others)) (parts : Row Placed others ts ts') :
    Placed e ts₀ ts' := by
  obtain ⟨t,rest,rfl,start⟩ := placed.start
  exact .led (.tail placed.built run) (same.trans start) led placed parts

theorem runs_place {task : Task} {ts ts' : List Token} {r : Reply Form} {log : List Expected}
    (run : Runs task ts r ts' log) : Places task ts r ts' := by
  induction run with
  | blockClose close => exact .last (.one (kind_more close (by decide)))
  | blockNext inside first others ih₁ ih₂ =>
    obtain ⟨ts₁,placed,gap⟩ := ih₁
    exact .next (.refl _) placed (.before gap ih₂)
  | blockRecover inside first skipped others ih₁ ih₂ =>
    exact .before ((runs_consume first).1.trans (skip_consumed skipped)) ih₂
  | blockEnd inside first skipped ih => exact .last ((runs_consume first).1.trans (skip_consumed skipped))
  | @statementBlock t rest ts₁ r log brace run ih =>
    rcases expr_reply run rfl with rfl | ⟨e,rfl⟩
    · trivial
    · exact ⟨ts₁,ih,.refl _⟩
  | statementClosed noBrace run semicolon ih => exact ⟨_,ih,.one (kind_more semicolon (by decide))⟩
  | statementOpen | statementThrown | noHead | headThrown | tailsThrown | returnThrown | prefixThrown | binaryThrown
    | callOpen | callThrown | valuesNextThrown | valuesThrown => trivial
  | @headTails ts ts₁ ts₂ p e r log₁ log₂ run tails ih₁ ih₂ =>
    rcases expr_reply tails rfl with rfl | ⟨e',rfl⟩
    · trivial
    · exact ih₂ ts ih₁
  | tailsStop stops => exact fun ts₀ placed => placed
  | @tailsNext ts ts₁ ts₂ p left e r log₁ log₂ attaches run tails ih₁ ih₂ =>
    rcases expr_reply tails rfl with rfl | ⟨e',rfl⟩
    · trivial
    · exact fun ts₀ placed => ih₂ ts₀ (ih₁ ts₀ placed)
  | identifier kind => exact .plain (.head (.identifier kind)) rfl rfl (.last (.refl _))
  | literal found => exact .plain (.head (.literal found)) rfl rfl (.last (.refl _))
  | brace kind run ih => exact .plain (.head (.brace kind run)) rfl rfl ih
  | returnBare kind none => exact .plain (.head (.returnBare kind none)) rfl rfl (.last (.refl _))
  | returnValues kind some run ih => exact .plain (.head (.returnValues kind some run)) rfl rfl ih
  | prefixed found run ih =>
    exact .plain (.head (.prefixed found run)) rfl (head_leads found _ _) (.next (.refl _) ih (.last (.refl _)))
  | binary found run ih =>
    exact fun ts₀ placed => placed_tail (.binary found run) placed rfl rfl
      (.next (operator_consumed found).1 ih (.last (.refl _)))
  | postfixed found =>
    exact fun ts₀ placed => placed_tail (.postfixed found) placed rfl
      (tail_leads (nextTail_postfixed found).2 _ _) (.last (.one (postfix_more found)))
  | callEmpty kind close =>
    exact fun ts₀ placed => placed_tail (.callEmpty kind close) placed rfl rfl
      (.last (.cons (kind_more kind (by decide)) (.one (kind_more close (by decide)))))
  | callClosed kind argument run close ih =>
    exact fun ts₀ placed => placed_tail (.callClosed kind argument run close) placed rfl rfl
      (.before (.one (kind_more kind (by decide))) (ih.behind (.one (kind_more close (by decide)))))
  | valuesLast run last ih => exact .next (.refl _) ih (.last (.refl _))
  | valuesNext run comma others ih₁ ih₂ => exact .next (.refl _) ih₁ (.before (.one (kind_more comma (by decide))) ih₂)

def Increasing (ts : List Token) : Prop := ts.Pairwise (fun t u => t.offset.toNat < u.offset.toNat)

def Ascending (offsets : List (BitVec sourceSizeBits)) : Prop := offsets.Pairwise (fun a b => a.toNat < b.toNat)

theorem Increasing.consumed {ts ts' : List Token} (increasing : Increasing ts) (consumed : Consumes ts ts') :
    Increasing ts' := by
  obtain ⟨seg,rfl,_⟩ := consumed
  exact List.Pairwise.sublist (List.sublist_append_right seg ts') increasing

-- What is placed carries the offset of the first of the tokens it used up.
def Starts {α : Type} (Place : α → List Token → List Token → Prop) (key : α → BitVec sourceSizeBits) : Prop :=
  ∀ a ts ts', Place a ts ts' →
    ∃ t rest, ts = t :: rest ∧ key a = t.offset ∧ Consumes rest ts' ∧ t.kind ≠ .endOfFile

section Rows
variable {α : Type} {Place : α → List Token → List Token → Prop} {key : α → BitVec sourceSizeBits}
  (starts : Starts Place key)
include starts

theorem row_member {as : List α} {ts ts' : List Token} (row : Row Place as ts ts') :
    ∀ a ∈ as, ∃ ts₁ ts₂, Consumes ts ts₁ ∧ Place a ts₁ ts₂ := by
  induction row with
  | last gap => simp
  | next gap item others ih =>
    intro a member
    rcases List.mem_cons.mp member with rfl | later
    · exact ⟨_,_,gap,item⟩
    · obtain ⟨t,rest,rfl,_,consumed,more⟩ := starts _ _ _ item
      obtain ⟨ts₁,ts₂,before,place⟩ := ih a later
      exact ⟨ts₁,ts₂,gap.trans ((Consumes.cons more consumed).trans before),place⟩

theorem row_consumes {as : List α} {ts ts' : List Token} (row : Row Place as ts ts') : Consumes ts ts' := by
  induction row with
  | last gap => exact gap
  | next gap item others ih =>
    obtain ⟨t,rest,rfl,_,consumed,more⟩ := starts _ _ _ item
    exact gap.trans ((Consumes.cons more consumed).trans ih)

theorem row_keys {as : List α} {ts ts' : List Token} (row : Row Place as ts ts') :
    ∀ a ∈ as, ∃ t ∈ ts, key a = t.offset := by
  intro a member
  obtain ⟨ts₁,ts₂,before,place⟩ := row_member starts row a member
  obtain ⟨t,rest,rfl,same,_⟩ := starts _ _ _ place
  exact ⟨t,before.member List.mem_cons_self,same⟩

-- Where the tokens increase, so do the starts of the siblings.
theorem row_ascending {as : List α} {ts ts' : List Token} (row : Row Place as ts ts') (increasing : Increasing ts) :
    Ascending (as.map key) := by
  induction row with
  | last gap => exact .nil
  | @next ts ts₁ ts₂ ts' a as gap item others ih =>
    obtain ⟨t,rest,rfl,same,consumed,more⟩ := starts _ _ _ item
    have onward := increasing.consumed gap
    refine List.Pairwise.cons ?_ (ih ((onward.consumed (.one more)).consumed consumed))
    intro offset member
    obtain ⟨b,among,rfl⟩ := List.mem_map.mp member
    obtain ⟨u,there,same'⟩ := row_keys starts others b among
    rw [same,same']
    exact (List.pairwise_cons.mp onward).1 u (consumed.member there)

theorem row_behind {as : List α} {t : Token} {rest ts' : List Token} (row : Row Place as rest ts')
    (more : t.kind ≠ .endOfFile) (increasing : Increasing (t :: rest)) : Ascending (t.offset :: as.map key) := by
  refine List.Pairwise.cons ?_ (row_ascending starts row (increasing.consumed (.one more)))
  intro offset member
  obtain ⟨b,among,rfl⟩ := List.mem_map.mp member
  obtain ⟨u,there,same⟩ := row_keys starts row b among
  rw [same]
  exact (List.pairwise_cons.mp increasing).1 u there
end Rows

theorem placed_starts : Starts Placed tokenOffset := by
  intro e ts ts' placed
  obtain ⟨t,rest,rfl,same⟩ := placed.start
  have consumed := built_consumes placed.built
  refine ⟨t,rest,rfl,same,consumed.1.rest consumed.2,?_⟩
  obtain ⟨seg,whole,none⟩ := consumed.1
  cases seg with
  | nil => exact absurd consumed.2 (by simp only [whole,List.nil_append]; omega)
  | cons u seg =>
    simp only [List.cons_append,List.cons.injEq] at whole
    exact whole.1 ▸ none u List.mem_cons_self

-- What increasing tokens mean for a node: the elements of a node list start one
-- after the other, a leading operand starts its node, every other one comes later.
def Ordered : AstExpression → Prop
  | .ident _ _ | .literal _ _ _ => True
  | .block offset es | .return_ offset es => Ascending (offset :: es.map tokenOffset)
  | .unary offset op operand =>
      if isPrefixOperator op then offset.toNat < operand.tokenOffset.toNat else operand.tokenOffset = offset
  | .binary offset _ left right => left.tokenOffset = offset ∧ offset.toNat < right.tokenOffset.toNat
  | .call offset callee args => callee.tokenOffset = offset ∧ Ascending (offset :: args.map tokenOffset)

theorem leads_children {e left : AstExpression} {others : List AstExpression} (led : leads e = some (left,others)) :
    e.children = left :: others := by
  cases e with
  | ident | literal | block | return_ => cases led
  | unary offset op e => cases op <;> cases led <;> rfl
  | binary | call => cases led; rfl

theorem ordered_plain {e : AstExpression} (led : leads e = none)
    (behind : Ascending (e.tokenOffset :: e.children.map tokenOffset)) : Ordered e := by
  cases e with
  | ident | literal => trivial
  | block offset es | return_ offset es => exact behind
  | unary offset op operand =>
    have after := (List.pairwise_cons.mp behind).1 operand.tokenOffset (by simp [children])
    cases op <;> first | exact after | cases led
  | binary | call => cases led

theorem ordered_led {e left : AstExpression} {others : List AstExpression} (led : leads e = some (left,others))
    (same : left.tokenOffset = e.tokenOffset) (behind : Ascending (e.tokenOffset :: others.map tokenOffset)) :
    Ordered e := by
  cases e with
  | ident | literal | block | return_ => cases led
  | unary offset op operand => cases op <;> cases led <;> exact same
  | binary offset op l r =>
    cases led
    exact ⟨same,(List.pairwise_cons.mp behind).1 r.tokenOffset (by simp)⟩
  | call offset callee args => cases led; exact ⟨same,behind⟩

theorem placed_ordered {e : AstExpression} {ts ts' : List Token} (placed : Placed e ts ts')
    (increasing : Increasing ts) : Ordered e := by
  obtain ⟨_,_,⟨⟩,_,_,more⟩ := placed_starts _ _ _ placed
  cases placed with
  | @plain e t rest ts' built start led parts =>
    exact ordered_plain led (start ▸ row_behind placed_starts parts more increasing)
  | @led e left others t rest ts₁ ts' built start led operand parts =>
    obtain ⟨_,_,⟨⟩,same,consumed,_⟩ := placed_starts _ _ _ operand
    have behind := row_behind placed_starts (parts.before consumed) more increasing
    exact ordered_led led (same.trans start.symm) (start ▸ behind)

theorem placed_child {e c : AstExpression} {ts ts' : List Token} (placed : Placed e ts ts') (member : c ∈ e.children) :
    ∃ ts₁ ts₂, Consumes ts ts₁ ∧ Placed c ts₁ ts₂ := by
  obtain ⟨_,_,⟨⟩,_,_,more⟩ := placed_starts _ _ _ placed
  cases placed with
  | plain built start led parts =>
    obtain ⟨ts₁,ts₂,before,below⟩ := row_member placed_starts parts c member
    exact ⟨ts₁,ts₂,.cons more before,below⟩
  | led built start led operand parts =>
    rw [leads_children led] at member
    rcases List.mem_cons.mp member with rfl | other
    · exact ⟨_,_,.refl _,operand⟩
    · obtain ⟨ts₁,ts₂,before,below⟩ := row_member placed_starts parts c other
      exact ⟨ts₁,ts₂,(built_consumes operand.built).1.trans before,below⟩

theorem placed_within {e n : AstExpression} (within : Within n e) {ts ts' : List Token} (placed : Placed e ts ts')
    (increasing : Increasing ts) : Ordered n := by
  induction within generalizing ts ts' with
  | self => exact placed_ordered placed increasing
  | child member below ih =>
    obtain ⟨ts₁,ts₂,before,placed'⟩ := placed_child placed member
    exact ih placed' (increasing.consumed before)

structure ParameterPlaced (p : AstFunctionParameter) (ts ts' : List Token) : Prop where
  built : ParameterRuns ts (.ok p) ts' []
  start : p.tokenOffset = p.type.tokenOffset
  type : ∃ ts₁, Placed p.type ts ts₁ ∧ Consumes ts₁ ts'

structure OutputPlaced (o : AstFunctionOutput) (ts ts' : List Token) : Prop where
  built : OutputRuns ts (.ok o) ts' []
  start : o.tokenOffset = o.type.tokenOffset
  type : Placed o.type ts ts'

-- A definition starts at its access modifier or, without one, at its name.
structure DefinitionPlaced (d : AstDefinition) (ts ts' : List Token) : Prop where
  built : ∃ log, DefinitionRuns ts (.ok d) ts' log
  start : ∃ t rest, ts = t :: rest ∧ d.tokenOffset = t.offset
  parts : ∃ ts₁ ts₂ ts₃, Consumes ts.tail ts₁ ∧ Row ParameterPlaced d.parameters ts₁ ts₂ ∧
    Row OutputPlaced d.outputs ts₂ ts₃ ∧ Row Placed d.statements ts₃ ts'

theorem name_placed {t : Token} {rest : List Token} (kind : t.kind = .identifier) :
    Placed (.ident t.offset t.variableLength) (t :: rest) rest :=
  .plain (.head (.identifier kind)) rfl rfl (.last (.refl _))

theorem parameter_placed {p : AstFunctionParameter} {ts ts' : List Token} {log : List Expected}
    (run : ParameterRuns ts (.ok p) ts' log) : ParameterPlaced p ts ts' := by
  cases run with
  | named type name long =>
    exact ⟨.named type name long,rfl,_,name_placed type,.one (identifier_more name)⟩

theorem output_placed {o : AstFunctionOutput} {ts ts' : List Token} {log : List Expected}
    (run : OutputRuns ts (.ok o) ts' log) : OutputPlaced o ts ts' := by
  cases run with
  | typed type => exact ⟨.typed type,rfl,name_placed type⟩

theorem parameter_starts : Starts ParameterPlaced AstFunctionParameter.tokenOffset := by
  rintro p ts ts' ⟨_,start,ts₁,placed,gap⟩
  obtain ⟨t,rest,rfl,same,consumed,more⟩ := placed_starts _ _ _ placed
  exact ⟨t,rest,rfl,start.trans same,consumed.trans gap,more⟩

theorem output_starts : Starts OutputPlaced AstFunctionOutput.tokenOffset := by
  rintro o ts ts' ⟨_,start,placed⟩
  obtain ⟨t,rest,rfl,same,consumed,more⟩ := placed_starts _ _ _ placed
  exact ⟨t,rest,rfl,start.trans same,consumed,more⟩

theorem listed_row {α : Type} {Item : List Token → Reply α → List Token → List Expected → Prop}
    {Place : α → List Token → List Token → Prop} (each : ∀ {a ts ts' log}, Item ts (.ok a) ts' log → Place a ts ts')
    {ts ts' : List Token} {r : Reply (List α)} {log : List Expected} (run : Listed Item ts r ts' log) :
    ∀ as, r = .ok as → Row Place as ts ts' := by
  induction run with
  | last run last => rintro as ⟨⟩; exact .next (.refl _) (each run) (.last (.refl _))
  | next run comma others ih =>
    rintro as ⟨⟩
    exact .next (.refl _) (each run) (.before (.one (kind_more comma (by decide))) (ih _ rfl))
  | nextThrown run comma others ih => rintro as ⟨⟩
  | thrown run => rintro as ⟨⟩

theorem definition_placed {d : AstDefinition} {ts ts' : List Token} {log : List Expected}
    (run : DefinitionRuns ts (.ok d) ts' log) : DefinitionPlaced d ts ts' := by
  have whole := run
  cases run with
  | @function t u rest ts₀ ts' r log after name run =>
  have header := (modifier_consumes (t :: rest)).length
  have opening : Consumes rest ts₀ := by
    have consumed : Consumes (t :: rest) ts₀ := (after ▸ modifier_consumes (t :: rest)).trans (.one (identifier_more name))
    rw [after] at header
    simp only [List.length_cons] at header
    exact consumed.rest (by simp only [List.length_cons]; omega)
  cases run with
  | @body p u rest₁ ts₁ ts₂ ts₃ ps os es log₁ log₂ log₃ paren parameters outputs brace block =>
  refine ⟨⟨_,whole⟩,⟨t,rest,rfl,rfl⟩,rest₁,ts₁,ts₂,opening.trans (.one (kind_more paren (by decide))),?_,?_,?_⟩
  · cases parameters with
    | empty close => exact .last (.one (kind_more close (by decide)))
    | closed some run close => exact (listed_row parameter_placed run _ rfl).behind (.one (kind_more close (by decide)))
  · have gap : Consumes (u :: ts₂) ts₂ := .one (kind_more brace (by decide))
    cases outputs with
    | none noArrow => exact .last gap
    | some arrow run =>
      exact ((listed_row output_placed run _ rfl).behind gap).before (.one (kind_more arrow (by decide)))
  · exact runs_place block

theorem definition_starts : Starts DefinitionPlaced AstDefinition.tokenOffset := by
  rintro d ts ts' ⟨⟨log,run⟩,⟨t,rest,rfl,same⟩,_⟩
  have consumed := definition_consumes run
  have shorter := definition_progress run
  refine ⟨t,rest,rfl,same,consumed.rest shorter,?_⟩
  obtain ⟨seg,whole,none⟩ := consumed
  cases seg with
  | nil => exact absurd shorter (by simp only [whole,List.nil_append]; omega)
  | cons u seg =>
    simp only [List.cons_append,List.cons.injEq] at whole
    exact whole.1 ▸ none u List.mem_cons_self

theorem file_placed {ts ts' : List Token} {ds : List AstDefinition} {log : List Expected}
    (file : FileRuns ts ds ts' log) : Row DefinitionPlaced ds ts ts' := by
  induction file with
  | done atEnd => exact .last (.refl _)
  | defined more run others ih => exact .next (.refl _) (definition_placed run) ih
  | recovered more run skipped others ih =>
    exact ih.before ((definition_consumes run).trans (skipDefinition_consumes skipped))

theorem definition_ordered {d : AstDefinition} {ts ts' : List Token} (placed : DefinitionPlaced d ts ts')
    (increasing : Increasing ts) : Ascending (d.parameters.map AstFunctionParameter.tokenOffset) ∧
      Ascending (d.outputs.map AstFunctionOutput.tokenOffset) ∧ Ascending (d.statements.map tokenOffset) ∧
      ∀ root ∈ d.expressions, ∀ e, Within e root → Ordered e := by
  obtain ⟨_,⟨t,rest,rfl,_⟩,ts₁,ts₂,ts₃,opening,parameters,outputs,statements⟩ := placed
  have increasing₀ : Increasing rest := List.Pairwise.sublist (List.sublist_cons_self t rest) increasing
  have increasing₁ := increasing₀.consumed opening
  have increasing₂ := increasing₁.consumed (row_consumes parameter_starts parameters)
  have increasing₃ := increasing₂.consumed (row_consumes output_starts outputs)
  refine ⟨row_ascending parameter_starts parameters increasing₁,row_ascending output_starts outputs increasing₂,
    row_ascending placed_starts statements increasing₃,?_⟩
  intro root member e within
  simp only [AstDefinition.expressions,List.mem_append,List.mem_map] at member
  rcases member with (⟨parameter,among,rfl⟩ | ⟨output,among,rfl⟩) | statement
  · obtain ⟨_,_,before,_,_,_,placed,_⟩ := row_member parameter_starts parameters parameter among
    exact placed_within within placed (increasing₁.consumed before)
  · obtain ⟨_,_,before,_,_,placed⟩ := row_member output_starts outputs output among
    exact placed_within within placed (increasing₂.consumed before)
  · obtain ⟨_,_,before,placed⟩ := row_member placed_starts statements root statement
    exact placed_within within placed (increasing₃.consumed before)

-- Every tree that the parser returns, with and without errors, is laid out over
-- the tokens it was parsed from, and its offsets follow that layout.
theorem parsed_positions {tokens rest : List Token} {definitions : List AstDefinition} {log : List Expected}
    (increasing : Increasing tokens) (parsed : runParser tokens = .ok ⟨.ok definitions,rest,log⟩) :
    Row DefinitionPlaced definitions tokens rest ∧ Ascending (definitions.map AstDefinition.tokenOffset) ∧
      ∀ d ∈ definitions, Ascending (d.parameters.map AstFunctionParameter.tokenOffset) ∧
        Ascending (d.outputs.map AstFunctionOutput.tokenOffset) ∧ Ascending (d.statements.map tokenOffset) ∧
        ∀ root ∈ d.expressions, ∀ e, Within e root → Ordered e := by
  obtain ⟨_,⟨⟩,file⟩ := runParser_exact.mp parsed
  have placed := file_placed file
  refine ⟨placed,row_ascending definition_starts placed increasing,fun d member => ?_⟩
  obtain ⟨_,_,before,placed'⟩ := row_member definition_starts placed d member
  exact definition_ordered placed' (increasing.consumed before)

-- `f(){a b;return -c,d(e);}`, with a semicolon missing behind `a`.
def faultyTokens : List Token :=
  [.make .identifier 0 1,.fixed .lParen 1,.fixed .rParen 2,.fixed .lBrace 3,.make .identifier 4 1,
    .make .identifier 6 1,.fixed .semicolon 7,.fixed .kwReturn 8,.fixed .minus 15,.make .identifier 16 1,
    .fixed .comma 17,.make .identifier 18 1,.fixed .lParen 19,.make .identifier 20 1,.fixed .rParen 21,
    .fixed .semicolon 22,.fixed .rBrace 23,.fixed .endOfFile 24]

def faultyDefinition : AstDefinition :=
  ⟨0,.none,⟨0,1⟩,[],[],[.return_ 8 [.unary 15 .negate (.ident 16 1),.call 18 (.ident 18 1) [.ident 20 1]]]⟩

theorem parsed_positions_faulty :
    Row DefinitionPlaced [faultyDefinition] faultyTokens [.fixed .endOfFile 24] ∧
      Ascending ([faultyDefinition].map AstDefinition.tokenOffset) ∧
      ∀ d ∈ [faultyDefinition], Ascending (d.parameters.map AstFunctionParameter.tokenOffset) ∧
        Ascending (d.outputs.map AstFunctionOutput.tokenOffset) ∧ Ascending (d.statements.map tokenOffset) ∧
        ∀ root ∈ d.expressions, ∀ e, Within e root → Ordered e := by
  have increasing : Increasing faultyTokens := by unfold Increasing; decide
  have parsed : runParser faultyTokens = .ok ⟨.ok [faultyDefinition],[.fixed .endOfFile 24],
      [⟨.expectSemicolon,.make .identifier 6 1⟩]⟩ := by decide +kernel
  exact parsed_positions increasing parsed
end Cero.Parser
