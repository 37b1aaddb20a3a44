import Cero.SymbolTable
import Cero.TreeTexts

-- The pass over the definitions that fills the symbol table and makes the typed tree.
namespace Cero
open Cero.Parser

structure TirFunction where
  tokenOffset : BitVec sourceSizeBits
  deriving DecidableEq, Repr

structure TirTree where
  symbols : List TirFunction
  deriving DecidableEq, Repr

-- What ends the pass early: the assertion of the symbol table, or a read of a name
-- that starts behind the source.
inductive CheckFault where
  | noOpenScope
  | read (fault : Fault)
  deriving DecidableEq, Repr

def asserted {α : Type} : Option α → Except CheckFault α
  | some a => .ok a
  | none => .error .noOpenScope

-- No output is given a name.
def AstFunctionOutput.name (_ : AstFunctionOutput) : AstName := .none

def identText (offset : BitVec sourceSizeBits) (length : Nat) (sourceText : Bytes) : Except Fault Bytes :=
  substr sourceText offset.toNat length

structure TypeChecker (hashOf : Bytes → UInt64) where
  tir : TirTree
  symTable : SymbolTable hashOf

variable {hashOf : Bytes → UInt64}

namespace TypeChecker
def declare (sourceText : Bytes) (name : AstName) (kind : SymbolKind) (c : TypeChecker hashOf) :
    Except CheckFault (TypeChecker hashOf) := do
  let identifier ← (name.get sourceText).mapError .read
  let symTable ← asserted (c.symTable.put identifier kind)
  return {c with symTable}

def visitFunctionParameter (sourceText : Bytes) (c : TypeChecker hashOf) (param : AstFunctionParameter) :
    Except CheckFault (TypeChecker hashOf) := c.declare sourceText param.name .parameter

def visitFunctionOutput (sourceText : Bytes) (c : TypeChecker hashOf) (output : AstFunctionOutput) :
    Except CheckFault (TypeChecker hashOf) := c.declare sourceText output.name .output

-- The symbol that is found has no use so far.
def visitIdentExpr (sourceText : Bytes) (c : TypeChecker hashOf) (offset : BitVec sourceSizeBits) (length : Nat) :
    Except CheckFault (TypeChecker hashOf) := do
  let name ← (identText offset length sourceText).mapError .read
  let _symbol := c.symTable.find name
  return c

-- Nothing is done for the other statements, nor for what is below them.
def visit (sourceText : Bytes) (c : TypeChecker hashOf) : AstExpression → Except CheckFault (TypeChecker hashOf)
  | .ident offset length => c.visitIdentExpr sourceText offset length
  | .literal _ _ _ | .block _ _ | .return_ _ _ | .unary _ _ _ | .binary _ _ _ _ | .call _ _ _ => return c

def visitFunctionDefinition (sourceText : Bytes) (c : TypeChecker hashOf) (fnDef : AstDefinition) :
    Except CheckFault (TypeChecker hashOf) := do
  let fn : TirFunction := ⟨fnDef.tokenOffset⟩
  let c := {c with symTable := c.symTable.pushScope}
  let c ← fnDef.parameters.foldlM (visitFunctionParameter sourceText) c
  let c ← fnDef.outputs.foldlM (visitFunctionOutput sourceText) c
  let c ← fnDef.statements.foldlM (visit sourceText) c
  let c := {c with tir := ⟨c.tir.symbols ++ [fn]⟩}
  let symTable ← asserted c.symTable.popScope
  return {c with symTable}

def run (sourceText : Bytes) (definitions : List AstDefinition) (c : TypeChecker hashOf) :
    Except CheckFault (TypeChecker hashOf) := definitions.foldlM (visitFunctionDefinition sourceText) c
end TypeChecker

section Checks
variable {sourceText : Bytes} {c c' : TypeChecker hashOf}

end Checks

section Leaves
variable {ds : List AstDefinition} {d : AstDefinition}

end Leaves

end Cero
