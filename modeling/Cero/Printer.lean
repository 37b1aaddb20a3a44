import Cero.LexerComments
import Cero.LexerRoundTrip
import Cero.ParserRoundTrip

-- Trees written out as text, one piece a line, and read again.
namespace Cero
open Cero.Parser

-- The text of a piece; `word` has the texts of names and literals.
def pieceText (word : Nat → Nat → Bytes) : Piece → Bytes
  | .fixed kind => (fixedText kind).getD []
  | .text _ offset length => word offset length
  | .shr => text ">>"

def written (word : Nat → Nat → Bytes) (ps : List Piece) : Bytes := ps.flatMap fun p => pieceText word p ++ [ch '\n']

-- A token that is its text.
def isSign (kind : TokenKind) : Bool := (fixedText kind).isSome && kind ≠ .endOfFile && kind ≠ .dot

-- A literal would go on with what stands behind it in the source.
def isNumber : Piece → Bool
  | .text kind _ _ => Lexer.isNumeric kind
  | _ => false

def isStop : Piece → Bool
  | .fixed kind => isSign kind && !Lexer.isWord kind
  | .text _ _ _ => false
  | .shr => true

def isProper : Piece → Bool
  | .fixed kind => isSign kind
  | .text kind _ _ => (fixedText kind).isNone && !Lexer.isComment kind
  | .shr => true

def Beside (p q : Piece) : Prop := isNumber p = true → isStop q = true

-- Pieces that can be told apart when each is on a line of its own.
structure Neat (ps : List Piece) : Prop where
  each : ∀ p ∈ ps, isProper p = true
  chain : ps.IsChain Beside

section Neat
variable {p q : Piece} {ps qs : List Piece} {kind : TokenKind}

end Neat

-- The texts of names and literals are of their kinds, and as long as the pieces say.
def Worded (word : Nat → Nat → Bytes) (ps : List Piece) : Prop := ∀ kind offset length, .text kind offset length ∈ ps →
  Lexer.TextOf kind (word offset length) ∧ (word offset length).length = length

section Lines
open Effect SourceCursor Cero.Lexer
variable {word : Nat → Nat → Bytes} {x : Context} {o : Nat} {p : Cero.Piece} {ps : List Cero.Piece} {rest : Bytes}
  {c : SourceCursor} {more : List Event}

theorem Neat.tail (neat : Neat (p :: ps)) : Neat ps :=
  ⟨fun q member => neat.each q (List.mem_cons_of_mem _ member),neat.chain.tail⟩

theorem Worded.tail (worded : Worded word (p :: ps)) : Worded word ps :=
  fun kind offset length member => worded kind offset length (List.mem_cons_of_mem _ member)

end Lines

section Texts
-- A piece without its offset.
def Piece.strip : Piece → Piece
  | .text kind _ length => .text kind 0 length
  | p => p

variable {es : List AstExpression}

end Texts

-- What a source has for a name or a literal.
def slice (source : SourceView) (offset length : Nat) : Bytes := (source.text.drop offset).take length

section Reading
open Effect SourceCursor Cero.Lexer
variable {word : Nat → Nat → Bytes} {o : Nat}

end Reading
end Cero
