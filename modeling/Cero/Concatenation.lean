import Cero.LexerComments
import Cero.LexerExtension
import Cero.ParserLocality

-- Two texts one below the other: the second is lexed and parsed as if it stood alone,
-- only further down.
namespace Cero

namespace Lexer
open Effect SourceCursor Cero.Parser

section Texts
variable {x : Context} {c c' : SourceCursor} {log : List Event}

end Texts

section Concatenation
variable {P Q : Bytes} {path : String} {flags : LexerFlags} {tabSize : UInt8} {ts : List Token} {e : Token}

end Concatenation
end Lexer

open Cero.Parser Lexer Effect

section Reports
variable {source source' : SourceView} {front : Bytes} {tabSize : UInt8} {t : Token}

end Reports

section Tokens
variable {source : SourceView} {flags : LexerFlags} {tabSize : UInt8} {us : List Token} {reports : List Report}

theorem lexed_parts (lexed : runLexer source flags tabSize = .ok (us,reports)) (fits : source.text.length ≤ sourceSizeMax) :
    ∃ c early, us = tokensOf early ++ [.fixed .endOfFile c.offset] ∧ At source c ∧
      Lexed ⟨source,flags,tabSize⟩ (.start source) c early := by
  obtain ⟨_,c,_,ran,early,late,rfl,passed,ended⟩ := run_spec (x := ⟨source,flags,tabSize⟩) fits
  rw [runLexer,ran] at lexed
  obtain ⟨rfl,_⟩ := Prod.mk.inj (Except.ok.inj lexed)
  have quiet : tokensOf late = [] := by
    rcases ended with ⟨_,rfl⟩ | ⟨_,_,_,rfl,_⟩ <;> rfl
  exact ⟨c,early,by simp [quiet],passed.at_ (.start fits),passed⟩

theorem lexed_large (lexed : runLexer source flags tabSize = .ok (us,reports)) (large : ¬ source.text.length ≤ sourceSizeMax) :
    us = [.fixed .endOfFile 0] := by
  rw [runLexer,Lexer.run,if_neg large] at lexed
  cases lexed
  rfl

-- A token of a source lies in it.
theorem lexed_inside (lexed : runLexer source flags tabSize = .ok (us,reports)) :
    ∀ t ∈ us, t.offset.toNat ≤ source.text.length := by
  intro t member
  by_cases fits : source.text.length ≤ sourceSizeMax
  · obtain ⟨c,early,rfl,there,passed⟩ := lexed_parts lexed fits
    rcases List.mem_append.mp member with member | last
    · obtain ⟨_,w,_,_,_,inside,_⟩ := passed.token_read member
      exact Nat.le_trans (Nat.le_add_right _ _) inside
    · obtain rfl := List.mem_singleton.mp last
      rw [show (Token.fixed .endOfFile c.offset).offset.toNat = c.offset from offset_exact there .endOfFile 0]
      exact there.inside
  · obtain rfl := lexed_large lexed fits
    obtain rfl := List.mem_singleton.mp member
    exact Nat.zero_le _
end Tokens

theorem file_moved {l : Layout} {ts ts' : List Token} {ds : List AstDefinition} {log : List Expected} (keeps : l.Keeps ts)
    (file : FileRuns ts ds ts' log) :
    FileRuns (ts.map l.token) (ds.map l.definition) (ts'.map l.token) (log.map l.expected) := by
  have ran : runParser ts = .ok ⟨.ok ds,ts',log⟩ := runParser_exact.mpr ⟨ds,rfl,file⟩
  have fuel : enoughFuel (ts.map l.token) = enoughFuel ts := by rw [enoughFuel,enoughFuel,List.length_map]
  have moved : runParser (ts.map l.token) = (runParser ts).map l.outcome := by
    rw [runParser,runParser,fuel]
    exact agree_outcome (moves_run _ _ _ ⟨rfl,keeps⟩)
  rw [ran] at moved
  obtain ⟨_,⟨⟩,file'⟩ := runParser_exact.mp moved
  exact file'

section Files
variable {P Q : Bytes} {path : String} {tabSize : UInt8} {definitions : List AstDefinition}

end Files
end Cero
