import Cero.LexerTiling
import Cero.ParserDiagnostics
import Cero.ParserFlatten

-- The lexer and the parser one after the other, as `build_source` calls them.
namespace Cero
open Parser

-- The definitions, and what the reporter was handed.
def runParserReporting (tokens : List Token) (source : SourceView) (tabSize : UInt8) :
    Except Fault (Reply (List AstDefinition) × List Report) := do
  let outcome ← runParser tokens
  let reports ← outcome.log.mapM (·.report source tabSize)
  return (outcome.reply,reports)

def lexAndParse (source : SourceView) (tabSize : UInt8) : Except Fault (Reply (List AstDefinition) × List Report) := do
  let (tokens,lexical) ← runLexer source .none tabSize
  let (reply,syntactic) ← runParserReporting tokens source tabSize
  return (reply,lexical ++ syntactic)

theorem mapM_total {α β : Type} {f : α → Except Fault β} {as : List α} (total : ∀ a ∈ as, ∃ b, f a = .ok b) :
    ∃ bs, as.mapM f = .ok bs := by
  induction as with
  | nil => exact ⟨[],rfl⟩
  | cons a as ih =>
    obtain ⟨b,first⟩ := total a List.mem_cons_self
    obtain ⟨bs,others⟩ := ih fun a member => total a (List.mem_cons_of_mem _ member)
    refine ⟨b :: bs,?_⟩
    rw [List.mapM_cons,first]
    simp only [bind,Except.bind,others]
    rfl

theorem located {source : SourceView} {t : Token} (tabSize : UInt8) (fits : source.text.length ≤ sourceSizeMax)
    (inside : t.offset.toNat ≤ source.text.length) : ∃ location, t.locateIn source tabSize = .ok location :=
  locate_total tabSize inside (Nat.lt_of_le_of_lt (Nat.le_trans inside fits) (by decide))

theorem endOfFile_readable {source : SourceView} {offset : Nat} (tabSize : UInt8)
    (inside : (Token.fixed .endOfFile offset).offset.toNat ≤ source.text.length) :
    Readable source tabSize (.fixed .endOfFile offset) := by
  refine ⟨locate_total tabSize inside ?_,[],rfl⟩
  have small := (Token.fixed .endOfFile offset).offset.isLt
  exact Nat.lt_trans small (by decide)

-- What every source gives: tokens that end in their only end of file, all of them
-- readable.
theorem lexer_total (source : SourceView) (flags : LexerFlags) (tabSize : UInt8) :
    ∃ tokens reports, runLexer source flags tabSize = .ok (tokens,reports) ∧ Terminated tokens ∧
      ∀ t ∈ tokens, Readable source tabSize t := by
  by_cases fits : source.text.length ≤ sourceSizeMax
  · obtain ⟨_,c,_,ran,early,late,rfl,lexed,ended⟩ := Lexer.run_spec (x := ⟨source,flags,tabSize⟩) fits
    have there : Lexer.At source c := lexed.at_ (.start fits)
    have quiet : Lexer.tokensOf late = [] := by
      rcases ended with ⟨_,rfl⟩ | ⟨_,_,_,rfl,_⟩ <;> rfl
    obtain ⟨crossed,tiles,moved,tiled,sound,put,_⟩ := lexed
    have ours : ∀ t ∈ Lexer.tokensOf early, t.kind ≠ .endOfFile ∧ Readable source tabSize t := by
      intro t member
      rw [put,List.mem_filterMap] at member
      obtain ⟨tile,tileMember,same⟩ := member
      obtain ⟨kind,offset,text⟩ := Lexer.token_tile (sound tile tileMember) same
      have inside := (tiled.inside tile tileMember).2.2
      have reached := there.inside
      rw [Tile.stop] at inside
      exact ⟨kind,located tabSize fits (by omega),_,text⟩
    refine ⟨Lexer.tokensOf early ++ [.fixed .endOfFile c.offset],Lexer.reportsOf (early ++ late),?_,?_,?_⟩
    · rw [runLexer,ran,Effect.map_ok]
      simp [quiet]
      rfl
    · exact ⟨_,_,rfl,rfl,fun t member => (ours t member).1⟩
    · intro t member
      rcases List.mem_append.mp member with here | last
      · exact (ours t here).2
      · rw [List.mem_singleton.mp last]
        have exact_ : (Token.fixed .endOfFile c.offset).offset.toNat = c.offset := Lexer.offset_exact there .endOfFile 0
        refine endOfFile_readable tabSize ?_
        rw [exact_]
        exact there.inside
  · have ran : runLexer source flags tabSize = .ok ([.fixed .endOfFile 0],
        [⟨⟨source.path,0,0⟩,.error,.sourceFileTooLarge,[.number sourceSizeMax]⟩]) := by
      rw [runLexer,Lexer.run,if_neg fits]
      rfl
    refine ⟨_,_,ran,⟨[],_,rfl,rfl,by simp⟩,?_⟩
    intro t member
    rw [List.mem_singleton.mp member]
    exact endOfFile_readable tabSize (Nat.zero_le _)

theorem readable_named {source : SourceView} {tabSize : UInt8} {t : Token} (readable : Readable source tabSize t)
    (kind : t.kind = .identifier) : 0 < t.variableLength := by
  obtain ⟨_,lexeme,read⟩ := readable
  unfold Token.getText at read
  split at read
  · assumption
  · rw [kind] at read
    cases read

-- No source makes the lexer and then the parser stop on a fault.
theorem front_end_total (source : SourceView) (tabSize : UInt8) :
    ∃ definitions reports, lexAndParse source tabSize = .ok (.ok definitions,reports) := by
  obtain ⟨tokens,lexical,lexed,ends,readable⟩ := lexer_total source .none tabSize
  obtain ⟨ds,ts',log,file⟩ := file_total ends
  have parsed : runParser tokens = .ok ⟨.ok ds,ts',log⟩ := file_complete file (by rw [enoughFuel]; omega)
  obtain ⟨syntactic,delivered⟩ : ∃ reports, log.mapM (·.report source tabSize) = .ok reports :=
    mapM_total fun e member => by
      obtain ⟨about,takesOne⟩ := file_blame file readable e member
      exact report_total about takesOne
  refine ⟨ds,lexical ++ syntactic,?_⟩
  rw [lexAndParse,lexed]
  simp only [bind,Except.bind,runParserReporting,parsed,delivered]
  rfl

-- The runs behind the result of the two.
theorem parsed_file {source : SourceView} {tokens : List Token} {lexical : List Report}
    (lexed : runLexer source .none tabSize = .ok (tokens,lexical)) : ∃ ds ts' log syntactic, Terminated tokens ∧ Named tokens ∧
      FileRuns tokens ds ts' log ∧ log.mapM (·.report source tabSize) = .ok syntactic ∧
        lexAndParse source tabSize = .ok (.ok ds,lexical ++ syntactic) := by
  obtain ⟨_,_,lexed',ends,readable⟩ := lexer_total source .none tabSize
  obtain ⟨⟩ := lexed.symm.trans lexed'
  obtain ⟨ds,ts',log,file⟩ := file_total ends
  have parsed : runParser tokens = .ok ⟨.ok ds,ts',log⟩ := file_complete file (by rw [enoughFuel]; omega)
  obtain ⟨syntactic,delivered⟩ : ∃ reports, log.mapM (·.report source tabSize) = .ok reports :=
    mapM_total fun e member => by
      obtain ⟨about,takesOne⟩ := file_blame file readable e member
      exact report_total about takesOne
  refine ⟨ds,ts',log,syntactic,ends,fun t member kind => readable_named (readable t member) kind,file,delivered,?_⟩
  rw [lexAndParse,lexed]
  simp only [bind,Except.bind,runParserReporting,parsed,delivered]
  rfl

end Cero
