import Cero.Ast

namespace Cero

-- What a node stands for in the token sequence: a token that only its kind tells
-- apart, one that stands for its text, or the two halves of `>>`.
inductive Piece where
  | fixed (kind : TokenKind)
  | text (kind : TokenKind) (offset length : Nat)
  | shr
  deriving DecidableEq, Repr

def literalToken : LiteralKind → TokenKind
  | .decInt => .decIntLiteral
  | .hexInt => .hexIntLiteral
  | .binInt => .binIntLiteral
  | .octInt => .octIntLiteral
  | .float_ => .floatLiteral
  | .char_ => .charLiteral
  | .string => .stringLiteral

def unaryToken : UnaryOperator → TokenKind
  | .preIncrement | .postIncrement => .plusPlus
  | .preDecrement | .postDecrement => .minusMinus
  | .negate => .minus
  | .bitNot => .tilde
  | .logicNot => .bang
  | .addrOf => .ampersand
  | .deref => .caret

def binaryPiece : BinaryOperator → Piece
  | .add => .fixed .plus
  | .sub => .fixed .minus
  | .mul => .fixed .star
  | .div => .fixed .slash
  | .rem => .fixed .percent
  | .bitAnd => .fixed .ampersand
  | .bitOr => .fixed .pipe
  | .bitXor => .fixed .tilde
  | .shl => .fixed .lAngleAngle
  | .shr => .shr
  | .logicAnd => .fixed .andAnd
  | .logicOr => .fixed .pipePipe
  | .eq => .fixed .eqEq
  | .neq => .fixed .bangEq
  | .less => .fixed .lAngle
  | .lessEq => .fixed .lAngleEq
  | .greater => .fixed .rAngle
  | .greaterEq => .fixed .rAngleEq
  | .assign => .fixed .eq
  | .addAssign => .fixed .plusEq
  | .subAssign => .fixed .minusEq
  | .mulAssign => .fixed .starEq
  | .divAssign => .fixed .slashEq
  | .remAssign => .fixed .percentEq
  | .bitAndAssign => .fixed .ampersandEq
  | .bitOrAssign => .fixed .pipeEq
  | .xorAssign => .fixed .tildeEq
  | .shlAssign => .fixed .lAngleAngleEq
  | .shrAssign => .fixed .rAngleAngleEq
  | .logicAndAssign => .fixed .andAndEq
  | .logicOrAssign => .fixed .pipePipeEq

def isBlock : AstExpression → Bool
  | .block _ _ => true
  | _ => false

-- The pieces of a tree in source order. `flattenMore` puts a comma in front of
-- each of its expressions.
mutual
def flatten : AstExpression → List Piece
  | .ident offset length => [.text .identifier offset.toNat length]
  | .literal offset kind length => [.text (literalToken kind) offset.toNat length]
  | .block _ es => .fixed .lBrace :: (flattenStatements es ++ [.fixed .rBrace])
  | .return_ _ [] => [.fixed .kwReturn]
  | .return_ _ (e :: es) => .fixed .kwReturn :: (flatten e ++ flattenMore es)
  | .unary _ op e =>
    if isPrefixOperator op then .fixed (unaryToken op) :: flatten e else flatten e ++ [.fixed (unaryToken op)]
  | .binary _ op left right => flatten left ++ binaryPiece op :: flatten right
  | .call _ callee [] => flatten callee ++ [.fixed .lParen,.fixed .rParen]
  | .call _ callee (e :: es) => flatten callee ++ .fixed .lParen :: (flatten e ++ flattenMore es ++ [.fixed .rParen])

def flattenStatements : List AstExpression → List Piece
  | [] => []
  | e :: es => flatten e ++ (if isBlock e then [] else [.fixed .semicolon]) ++ flattenStatements es

def flattenMore : List AstExpression → List Piece
  | [] => []
  | e :: es => .fixed .comma :: (flatten e ++ flattenMore es)
end

def flattenValues : List AstExpression → List Piece
  | [] => []
  | e :: es => flatten e ++ flattenMore es

def flattenModifier : AccessModifier → List Piece
  | .none => []
  | .private_ => [.fixed .kwPrivate]
  | .public_ => [.fixed .kwPublic]

def flattenName (name : AstName) : Piece := .text .identifier name.offset name.length

def flattenParameter (p : AstFunctionParameter) : List Piece := flatten p.type ++ [flattenName p.name]

def flattenOutput (o : AstFunctionOutput) : List Piece := flatten o.type

def commaSeparated {α : Type} (item : α → List Piece) : List α → List Piece
  | [] => []
  | a :: as => item a ++ as.flatMap (fun b => .fixed .comma :: item b)

def flattenOutputs : List AstFunctionOutput → List Piece
  | [] => []
  | os => .fixed .thinArrow :: commaSeparated flattenOutput os

def flattenDefinition (d : AstDefinition) : List Piece :=
  flattenModifier d.accessModifier ++ flattenName d.name :: .fixed .lParen ::
    (commaSeparated flattenParameter d.parameters ++ .fixed .rParen :: (flattenOutputs d.outputs ++
      .fixed .lBrace :: (flattenStatements d.statements ++ [.fixed .rBrace])))

def flattenFile (definitions : List AstDefinition) : List Piece := definitions.flatMap flattenDefinition

-- The tokens are the pieces one by one. `at_` says which offset a token that
-- stands for its text may have.
inductive Spells (at_ : Nat → Nat → Prop) : List Piece → List Token → Prop where
  | nil : Spells at_ [] []
  | fixed {kind : TokenKind} {t : Token} {ps : List Piece} {ts : List Token} (same : t.kind = kind)
      (rest : Spells at_ ps ts) : Spells at_ (.fixed kind :: ps) (t :: ts)
  | text {kind : TokenKind} {offset length : Nat} {t : Token} {ps : List Piece} {ts : List Token} (same : t.kind = kind)
      (place : at_ offset t.offset.toNat) (long : t.variableLength = length) (rest : Spells at_ ps ts) :
      Spells at_ (.text kind offset length :: ps) (t :: ts)
  | shr {t u : Token} {ps : List Piece} {ts : List Token} (first : t.kind = .rAngle) (second : u.kind = .rAngle)
      (adjacent : u.offset.toNat = t.offset.toNat + 1) (rest : Spells at_ ps ts) : Spells at_ (.shr :: ps) (t :: u :: ts)

theorem Spells.append {at_ : Nat → Nat → Prop} {ps qs : List Piece} {ts us : List Token} (first : Spells at_ ps ts)
    (second : Spells at_ qs us) : Spells at_ (ps ++ qs) (ts ++ us) := by
  induction first with
  | nil => exact second
  | fixed same rest ih => exact .fixed same ih
  | text same place long rest ih => exact .text same place long ih
  | shr first second adjacent rest ih => exact .shr first second adjacent ih

theorem Spells.split {at_ : Nat → Nat → Prop} {ps qs : List Piece} {ts : List Token} (whole : Spells at_ (ps ++ qs) ts) :
    ∃ us vs, ts = us ++ vs ∧ Spells at_ ps us ∧ Spells at_ qs vs := by
  induction ps generalizing ts with
  | nil => exact ⟨[],ts,rfl,.nil,whole⟩
  | cons p ps ih =>
    cases whole with
    | @fixed kind t ps ts same rest =>
      obtain ⟨us,vs,rfl,first,second⟩ := ih rest
      exact ⟨t :: us,vs,rfl,.fixed same first,second⟩
    | @text kind offset length t ps ts same place long rest =>
      obtain ⟨us,vs,rfl,first,second⟩ := ih rest
      exact ⟨t :: us,vs,rfl,.text same place long first,second⟩
    | @shr t u ps ts one two adjacent rest =>
      obtain ⟨us,vs,rfl,first,second⟩ := ih rest
      exact ⟨t :: u :: us,vs,rfl,.shr one two adjacent first,second⟩

theorem flatten_values (es : List AstExpression) : flattenValues es = commaSeparated flatten es := by
  have more : ∀ es, flattenMore es = es.flatMap (fun e => .fixed .comma :: flatten e) := by
    intro es
    induction es with
    | nil => rfl
    | cons e es ih => rw [flattenMore,ih]; rfl
  cases es with
  | nil => rfl
  | cons e es => rw [flattenValues,commaSeparated,more]

theorem flatten_return (offset : BitVec sourceSizeBits) (es : List AstExpression) :
    flatten (.return_ offset es) = .fixed .kwReturn :: flattenValues es := by
  cases es <;> simp [flatten,flattenValues]

theorem flatten_call (offset : BitVec sourceSizeBits) (callee : AstExpression) (es : List AstExpression) :
    flatten (.call offset callee es) = flatten callee ++ .fixed .lParen :: (flattenValues es ++ [.fixed .rParen]) := by
  cases es <;> simp [flatten,flattenValues]
end Cero
