import Cero.ParserBlame
import Cero.ParserPrecedence

-- Which return expressions become the operand of an operator behind them.
namespace Cero.Parser
open AstExpression

-- A keyword at which `on_kw_return` has made this node.
def Returned (tokens : List Token) (offset : BitVec sourceSizeBits) (values : List AstExpression) : Prop :=
  ∃ t ts, t :: ts <:+ tokens ∧ t.kind = .kwReturn ∧ t.offset = offset ∧
    ∃ fuel ts' log, onKwReturn fuel (t :: ts) = .ok ⟨.ok (.return_ offset values),ts',log⟩

section Calls
variable {tokens ts ts' : List Token} {t u : Token} {rest : List Token} {log : List Expected}

end Calls

section Operands
variable {tokens ts ts' : List Token} {e left : AstExpression} {log : List Expected}

end Operands

end Cero.Parser
