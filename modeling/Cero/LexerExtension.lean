import Cero.Library.Extension
import Cero.BlockComments
import Cero.LexerPlacement

-- What a handler does short of the end of a text it does in the same way where more
-- text follows.
namespace Cero.Lexer
open Effect SourceCursor

def before (tail : Bytes) (c : SourceCursor) : SourceCursor := ⟨c.offset,c.rest ++ tail⟩

theorem reportsOf_parts {log more : List Event} (quiet : reportsOf (log ++ more) = []) : reportsOf log = [] ∧ reportsOf more = [] := by
  rw [reportsOf_append] at quiet
  exact List.append_eq_nil_iff.mp quiet

def extension (tail : Bytes) (source : SourceView) : Extension SourceCursor SourceCursor Event where
  here c := At source c
  reaches c c' := ∃ crossed, Moves c crossed c'
  short c := c.rest ≠ []
  quiet log := reportsOf log = []
  extend := before tail
  refl c := ⟨[],.refl c⟩
  trans := fun ⟨_,first⟩ ⟨_,second⟩ => ⟨_,first.trans second⟩
  keeps := fun here ⟨_,moved⟩ => here.moves moved
  before := by
    rintro c c' ⟨crossed,moved⟩ short atEnd
    rw [moved.1] at atEnd
    exact short (List.append_eq_nil_iff.mp atEnd).2
  parts := reportsOf_parts

section Primitives
variable {tail : Bytes} {source : SourceView}

end Primitives

section Scanners
variable {tail : Bytes} {source : SourceView} {x x' : Context}

end Scanners

section Handlers
variable {tail : Bytes} {source : SourceView} {x x' : Context}

end Handlers

-- A token that ends where its text ends whatever follows on a new line: all but words,
-- numbers, dots and quoted literals.
def standsAlone (kind : TokenKind) : Bool := isComment kind || (fixedText kind).any fun w =>
  w.any (fun b => !isAsciiIdentifierChar b) && kind ≠ .dot

-- Something was reported, or the last token does not stand alone.
def Loud (log : List Event) : Prop := reportsOf log ≠ [] ∨ ∃ early t, log = early ++ [.token t] ∧ standsAlone t.kind = false

section Louds
variable {source : SourceView} {x : Context} {log more : List Event}

theorem Loud.behind (loud : Loud more) : Loud (log ++ more) := by
  rcases loud with reported | ⟨early,t,rfl,other⟩
  · refine .inl fun none_ => reported ?_
    rw [reportsOf_append] at none_
    exact (List.append_eq_nil_iff.mp none_).2
  · exact .inr ⟨log ++ early,t,(List.append_assoc _ _ _).symm,other⟩

end Louds

-- What is not put off its end by a new line.
section Settling
variable {v : Bytes} {source : SourceView} {x x' : Context}

def settled (v : Bytes) (source : SourceView) : Extension SourceCursor SourceCursor Event where
  __ := extension (ch '\n' :: v) source
  short _ := True
  before _ _ := trivial

end Settling

section Rounds
variable {v : Bytes} {x x' : Context}

end Rounds
end Cero.Lexer
