import Cero.Token

namespace Cero

structure AstName where
  offset : Nat
  length : Nat
  deriving DecidableEq, Repr

-- The name `{}` of a declaration that has none.
def AstName.none : AstName := ⟨0,0⟩
def AstName.isEmpty (name : AstName) : Bool := name.length == 0

def AstName.fromToken (t : Token) : Except Fault AstName :=
  if t.kind = .identifier then .ok ⟨t.offset.toNat,t.variableLength⟩ else .error .nameFromOtherToken

inductive AccessModifier where
  | none | private_ | public_
  deriving DecidableEq, Repr

inductive LiteralKind where
  | decInt | hexInt | binInt | octInt | float_ | char_ | string
  deriving DecidableEq, Repr

inductive UnaryOperator where
  | preIncrement | preDecrement | postIncrement | postDecrement | negate | bitNot | logicNot | addrOf | deref
  deriving DecidableEq, Repr

def isPrefixOperator : UnaryOperator → Bool
  | .postIncrement | .postDecrement | .deref => false
  | _ => true

inductive BinaryOperator where
  | add | sub | mul | div | rem | bitAnd | bitOr | bitXor | shl | shr | logicAnd | logicOr
  | eq | neq | less | lessEq | greater | greaterEq
  | assign | addAssign | subAssign | mulAssign | divAssign | remAssign | bitAndAssign | bitOrAssign
  | xorAssign | shlAssign | shrAssign | logicAndAssign | logicOrAssign
  deriving DecidableEq, Repr

-- The expression nodes; the first field is the `token_offset` every node carries.
-- Statements are expression nodes too: nothing else derives from them so far.
inductive AstExpression where
  | ident (offset : BitVec sourceSizeBits) (length : Nat)
  | literal (offset : BitVec sourceSizeBits) (kind : LiteralKind) (length : Nat)
  | block (offset : BitVec sourceSizeBits) (statements : List AstExpression)
  | return_ (offset : BitVec sourceSizeBits) (retValues : List AstExpression)
  | unary (offset : BitVec sourceSizeBits) (op : UnaryOperator) (operand : AstExpression)
  | binary (offset : BitVec sourceSizeBits) (op : BinaryOperator) (left right : AstExpression)
  | call (offset : BitVec sourceSizeBits) (callee : AstExpression) (args : List AstExpression)
  deriving Repr

def AstExpression.tokenOffset : AstExpression → BitVec sourceSizeBits
  | .ident offset _ | .literal offset _ _ | .block offset _ | .return_ offset _ | .unary offset _ _
  | .binary offset _ _ _ | .call offset _ _ => offset

-- Induction over expressions with the hypothesis for every member of a node list.
@[elab_as_elim]
theorem AstExpression.induct {motive : AstExpression → Prop}
    (ident : ∀ offset length, motive (.ident offset length))
    (literal : ∀ offset kind length, motive (.literal offset kind length))
    (block : ∀ offset statements, (∀ e ∈ statements, motive e) → motive (.block offset statements))
    (return_ : ∀ offset values, (∀ e ∈ values, motive e) → motive (.return_ offset values))
    (unary : ∀ offset op operand, motive operand → motive (.unary offset op operand))
    (binary : ∀ offset op left right, motive left → motive right → motive (.binary offset op left right))
    (call : ∀ offset callee args, motive callee → (∀ e ∈ args, motive e) → motive (.call offset callee args))
    (e : AstExpression) : motive e :=
  match e with
  | .ident offset length => ident offset length
  | .literal offset kind length => literal offset kind length
  | .block offset statements =>
    block offset statements (fun e _ => induct ident literal block return_ unary binary call e)
  | .return_ offset values => return_ offset values (fun e _ => induct ident literal block return_ unary binary call e)
  | .unary offset op operand => unary offset op operand (induct ident literal block return_ unary binary call operand)
  | .binary offset op left right => binary offset op left right
    (induct ident literal block return_ unary binary call left)
    (induct ident literal block return_ unary binary call right)
  | .call offset callee args => call offset callee args
    (induct ident literal block return_ unary binary call callee)
    (fun e _ => induct ident literal block return_ unary binary call e)

mutual
def AstExpression.same : AstExpression → AstExpression → Bool
  | .ident o l,.ident o' l' => o == o' && l == l'
  | .literal o k l,.literal o' k' l' => o == o' && k == k' && l == l'
  | .block o es,.block o' es' => o == o' && sameList es es'
  | .return_ o es,.return_ o' es' => o == o' && sameList es es'
  | .unary o op e,.unary o' op' e' => o == o' && op == op' && same e e'
  | .binary o op l r,.binary o' op' l' r' => o == o' && op == op' && same l l' && same r r'
  | .call o e es,.call o' e' es' => o == o' && same e e' && sameList es es'
  | _,_ => false

def AstExpression.sameList : List AstExpression → List AstExpression → Bool
  | [],[] => true
  | e :: es,e' :: es' => same e e' && sameList es es'
  | _,_ => false
end

theorem AstExpression.sameList_exact {es : List AstExpression} (each : ∀ e ∈ es, ∀ e', same e e' = true ↔ e = e')
    (es' : List AstExpression) : sameList es es' = true ↔ es = es' := by
  induction es generalizing es' with
  | nil => cases es' <;> simp [sameList]
  | cons e es ih =>
    cases es' with
    | nil => simp [sameList]
    | cons e' es' =>
      have rest := ih (fun e member => each e (List.mem_cons_of_mem _ member)) es'
      simp [sameList,each e (by simp) e',rest]

theorem AstExpression.same_exact (e e' : AstExpression) : same e e' = true ↔ e = e' := by
  induction e using AstExpression.induct generalizing e' with
  | ident o l | literal o k l => cases e' <;> simp [same,and_assoc]
  | block o es ih | return_ o es ih => cases e' <;> simp [same,sameList_exact ih]
  | unary o op e ih => cases e' <;> simp [same,ih,and_assoc]
  | binary o op l r ihl ihr => cases e' <;> simp [same,ihl,ihr,and_assoc]
  | call o e es ih ihs => cases e' <;> simp [same,ih,sameList_exact ihs,and_assoc]

instance : DecidableEq AstExpression := fun e e' => decidable_of_iff _ (AstExpression.same_exact e e')

structure AstFunctionParameter where
  tokenOffset : BitVec sourceSizeBits
  type : AstExpression
  name : AstName
  deriving DecidableEq

structure AstFunctionOutput where
  tokenOffset : BitVec sourceSizeBits
  type : AstExpression
  deriving DecidableEq

-- The only kind of definition there is so far.
structure AstDefinition where
  tokenOffset : BitVec sourceSizeBits
  accessModifier : AccessModifier
  name : AstName
  parameters : List AstFunctionParameter
  outputs : List AstFunctionOutput
  statements : List AstExpression
  deriving DecidableEq

def AstExpression.children : AstExpression → List AstExpression
  | .ident _ _ | .literal _ _ _ => []
  | .block _ es | .return_ _ es => es
  | .unary _ _ operand => [operand]
  | .binary _ _ left right => [left,right]
  | .call _ callee args => callee :: args

-- `n` is a node of the tree below `e`.
inductive AstExpression.Within (n : AstExpression) : AstExpression → Prop where
  | self : Within n n
  | child {e c : AstExpression} (member : c ∈ e.children) (below : Within n c) : Within n e

def AstExpression.All (P : AstExpression → Prop) (e : AstExpression) : Prop := ∀ n, Within n e → P n

theorem AstExpression.all_node {P : AstExpression → Prop} {e : AstExpression} :
    All P e ↔ P e ∧ ∀ c ∈ e.children, All P c := by
  constructor
  · intro whole
    exact ⟨whole e .self,fun c member n below => whole n (.child member below)⟩
  · rintro ⟨here,others⟩ n within
    cases within with
    | self => exact here
    | child member below => exact others _ member n below

def AstDefinition.expressions (d : AstDefinition) : List AstExpression :=
  d.parameters.map AstFunctionParameter.type ++ d.outputs.map AstFunctionOutput.type ++ d.statements
end Cero
