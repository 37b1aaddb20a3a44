import Cero.TokenCharacters
import Cero.TreeTexts

-- What the reports and the tree of a source that is well-formed UTF-8 quote of it.
namespace Cero.Lexer
open Effect SourceCursor

-- No text is quoted in a report.
def wordless : Course SourceCursor Event where
  goes _ log _ := ∀ made ∈ reportsOf log, ∀ w, .text w ∉ made.args
  stay _ := by
    intro made member
    cases member
  onward first second := by
    intro made member
    rw [reportsOf_append] at member
    exact (List.mem_append.mp member).elim (first made) (second made)

section Wordless
variable {x : Context}

theorem Silent.wordless {α : Type} {m : Lexer α} (silent : Silent m) : Takes wordless m := by
  intro c r c' log ran made member
  rw [silent c r c' log ran] at member
  cases member

theorem reported_args {location : CodeLocation} {message : Message} {args : MessageArgs} {made : Report}
    (reported : Reporter.report location message args = .ok made) (numbers : ∀ w, .text w ∉ args) : ∀ w, .text w ∉ made.args := by
  unfold Reporter.report at reported
  split at reported
  · cases reported
    exact numbers
  · cases reported

theorem wordless_report (message : Message) (offset : Nat) {args : MessageArgs} (numbers : ∀ w, .text w ∉ args) :
    Takes wordless (report x message offset args) := by
  refine takes_given fun location _ => takes_given fun made reported => takes_tell fun c other member => ?_
  obtain rfl : other = made := List.mem_singleton.mp member
  exact reported_args reported numbers

theorem wordless_number (offset n : Nat) : Takes wordless (report x .invalidCharacter offset [.number n]) :=
  wordless_report _ _ (by simp)

theorem wordless_loop {α β : Type} {body : α → Lexer (α ⊕ β)} (round : ∀ a, Takes wordless (body a)) (a : α) :
    Takes wordless (loop body a) := fun c => takes_iterate round (c.rest.length+1) a c

theorem silent_next : Silent next := by
  rintro ⟨o,_ | ⟨b,rest⟩⟩ _ _ _ ran <;> cases ran <;> rfl

theorem silent_consumeTrailing (rounds i utf8Char : Nat) : Silent (consumeTrailing rounds i utf8Char) := by
  induction rounds generalizing i utf8Char with
  | zero => exact takes_pure _
  | succ rounds ih => exact takes_bind silent_next fun c => ih _ _

theorem wordless_consumeMultibyteUtf8Char (lead : UInt8) (offset : Nat) (utf8Predicate : Nat → Bool) :
    Takes wordless (consumeMultibyteUtf8Char x lead offset utf8Predicate) := by
  refine takes_ite (fun _ => takes_bind (silent_consumeTrailing _ _ _).wordless fun utf8Char => ?_) (fun _ => ?_)
  · exact takes_ite (fun _ => takes_pure _) (fun _ => takes_bind (wordless_number _ _) fun _ => takes_pure _)
  · exact takes_bind (wordless_number _ _) fun _ => takes_pure _

theorem wordless_consumeWord : Takes wordless (consumeWord x) := by
  refine wordless_loop (fun _ => takes_bind silent_peek.wordless fun c => takes_ite (fun _ => takes_pure _) fun _ => ?_) ()
  refine takes_ite (fun _ => takes_bind silent_advance.wordless fun _ => takes_pure _) fun _ => ?_
  refine takes_ite (fun _ => takes_pure _) fun _ => takes_bind silent_getOffsetAndAdvance.wordless fun offset => ?_
  refine takes_bind (wordless_consumeMultibyteUtf8Char _ _ _) fun accepted => ?_
  exact takes_ite (fun _ => takes_pure _) (fun _ => takes_pure _)

theorem wordless_onAlphabetic : Takes wordless (onAlphabetic x) :=
  takes_bind silent_getOffsetAndAdvance.wordless fun offset => takes_bind wordless_consumeWord fun _ => (still_putSince _ offset).silent.wordless

theorem wordless_keywordHandler (b : UInt8) : Takes wordless (keywordHandler x b) := by
  refine takes_ite (fun _ => wordless_onAlphabetic) fun _ => takes_bind silent_getOffsetAndAdvance.wordless fun offset => ?_
  refine takes_bind wordless_consumeWord fun _ => takes_bind silent_currentOffset.wordless fun _ => ?_
  refine takes_ite (fun _ => takes_bind (takes_ofExcept _) fun tail => ?_) (fun _ => (silent_put _).wordless)
  split <;> exact (silent_put _).wordless

theorem wordless_onSlash : Takes wordless (onSlash x) := by
  refine takes_bind silent_getOffsetAndAdvance.wordless fun offset => takes_bind (silent_matchChar _).wordless fun _ => ?_
  refine takes_ite (fun _ => ?_) (fun _ => takes_bind (silent_matchChar _).wordless fun _ => takes_ite (fun _ => ?_) (fun _ => ?_))
  · exact takes_bind silent_consumeLineComment.wordless fun _ => (still_putComment _ _).silent.wordless
  · refine takes_bind (takes_bind ?_ fun closed => takes_ite (fun _ => takes_pure _) fun _ => wordless_report _ _ (by simp))
      fun _ => (still_putComment _ _).silent.wordless
    intro c _ _ _ ran made member
    obtain ⟨_,_,_,again,rfl,_⟩ := blockCommentRounds_spec 1 c
    obtain ⟨⟩ := ran.symm.trans again
    cases member
  · refine takes_bind (silent_matchChar _).wordless fun _ => ?_
    exact takes_ite (fun _ => (silent_put _).wordless) (fun _ => (silent_put _).wordless)

theorem wordless_onQuote (kind : TokenKind) (quote : UInt8) : Takes wordless (onQuote x kind quote) := by
  refine takes_bind silent_getOffsetAndAdvance.wordless fun offset => takes_bind ?_ fun _ => (still_putSince _ offset).silent.wordless
  refine wordless_loop (fun ignoreQuote => takes_bind silent_peek.wordless fun c => takes_ite (fun _ => takes_pure _) fun _ => ?_) false
  refine takes_ite (fun _ => ?_) (fun _ => takes_bind silent_advance.wordless fun _ => ?_)
  · exact takes_bind silent_currentOffset.wordless fun _ => takes_bind (wordless_report _ _ (by simp)) fun _ => takes_pure _
  · refine takes_ite (fun _ => takes_pure _) fun _ => takes_ite (fun _ => takes_pure _) fun _ => ?_
    exact takes_ite (fun _ => takes_pure _) (fun _ => takes_pure _)

theorem wordless_onOtherChar (b : UInt8) : Takes wordless (onOtherChar x b) := by
  refine takes_bind silent_getOffsetAndAdvance.wordless fun offset => takes_bind (wordless_consumeMultibyteUtf8Char _ _ _) fun _ => ?_
  exact takes_ite (fun _ => takes_bind wordless_consumeWord fun _ => (still_putSince _ offset).silent.wordless) (fun _ => takes_pure _)

theorem wordless_handleNextCharacter (b : UInt8) : Takes wordless (handleNextCharacter x b) := by
  apply handle_dispatched (P := Takes wordless)
  constructor
  case blank => exact fun _ => silent_advance.wordless
  case upper => exact fun _ => wordless_onAlphabetic
  case lower => exact fun _ => wordless_keywordHandler b
  case zero => exact fun _ => silent_onZero.wordless
  case nonzero => exact fun _ => silent_onNonzero.wordless
  case single => exact fun kind _ _ => (silent_onOneCharToken kind).wordless
  case operator => exact fun chain _ => (silent_onOperator chain).wordless
  case rightAngle => exact fun _ => silent_onRightAngle.wordless
  case dot => exact fun _ => silent_onDot.wordless
  case slash => exact fun _ => wordless_onSlash
  case string => exact fun _ => wordless_onQuote _ _
  case character => exact fun _ => wordless_onQuote _ _
  case other => exact wordless_onOtherChar b

theorem wordless_run : Takes wordless (run x) := by
  have round : ∀ u, Takes wordless (sourceRound x u) := fun _ => takes_bind silent_peek.wordless fun c =>
    takes_ite (fun _ => takes_pure _) (fun _ => takes_bind (wordless_handleNextCharacter c) fun _ => takes_pure _)
  have ended : Takes wordless (do put (.fixed .endOfFile (← currentOffset))) :=
    takes_bind silent_currentOffset.wordless fun _ => (silent_put _).wordless
  have handled : Takes wordless (handleSource x) := by
    refine takes_bind (wordless_loop round ()) fun _ => takes_bind silent_valid.wordless fun _ => ?_
    exact takes_ite (fun _ => takes_bind silent_currentOffset.wordless fun _ => wordless_number _ _) (fun _ => takes_pure _)
  refine takes_ite (fun _ => takes_bind handled fun _ => ended) fun _ => takes_given fun made reported => ?_
  refine takes_bind (takes_tell fun c other member => ?_) fun _ => ended
  obtain rfl : other = made := List.mem_singleton.mp member
  exact reported_args reported (by simp)
end Wordless
end Cero.Lexer

namespace Cero
open Cero.Parser Lexer Effect Code

section Quotes
variable {source : SourceView} {tabSize : UInt8} {flags : LexerFlags} {tokens : List Token} {lexical : List Report}

-- Filling an ASCII format with a well-formed text.
theorem vformat_clean {lexeme : Bytes} (clean : WellFormed lexeme) {format : List Char} (ascii : ∀ c ∈ format, isAscii (ch c) = true) :
    WellFormed (vformat lexeme format) := by
  fun_induction vformat lexeme format with
  | case1 rest ih => exact whole_append clean (ih fun c member => ascii c (by simp [member]))
  | case2 c rest _ ih =>
    have first : Ascii [ch c] := List.forall_mem_singleton.mpr (ascii c List.mem_cons_self)
    exact whole_append (ascii_whole first) (ih fun d member => ascii d (List.mem_cons_of_mem _ member))
  | case3 => exact whole_nil

theorem format_ascii (kind : TokenKind) : ∀ c ∈ (getTokenMessageFormat kind).toList, isAscii (ch c) = true := by
  have each : ((getTokenMessageFormat kind).toList.all fun c => isAscii (ch c)) = true := by
    cases kind <;> decide +kernel
  exact List.all_eq_true.mp each

theorem lexed_clean (clean : WellFormed source.text) (lexed : runLexer source flags tabSize = .ok (tokens,lexical)) :
    ∀ t ∈ tokens, ∃ w, t.getText source = .ok w ∧ WellFormed w := by
  obtain ⟨_,_,lexed',_,readable⟩ := lexer_total source flags tabSize
  obtain ⟨⟩ := lexed.symm.trans lexed'
  intro t member
  obtain ⟨_,w,text⟩ := readable t member
  refine ⟨w,text,?_⟩
  by_cases fits : source.text.length ≤ sourceSizeMax
  · obtain ⟨_,_,_,ran,landed⟩ := run_lands (x := ⟨source,flags,tabSize⟩) clean fits
    rw [runLexer,ran] at lexed
    cases lexed
    exact landed.texts t member w text
  · rw [lexed_large lexed fits,List.mem_singleton] at member
    rw [member] at text
    exact fixed_clean text

theorem lexed_wordless (lexed : runLexer source flags tabSize = .ok (tokens,lexical)) : ∀ made ∈ lexical, ∀ w, .text w ∉ made.args := by
  rw [runLexer] at lexed
  cases ran : Lexer.run ⟨source,flags,tabSize⟩ (.start source) with
  | error fault => rw [ran] at lexed; cases lexed
  | ok outcome =>
    rw [ran] at lexed
    cases lexed
    exact wordless_run _ _ _ _ ran

-- Of a source that is well-formed UTF-8 no character is cut: the text of every token is
-- well-formed, and so is whatever the tree and the reports quote.
theorem front_end_keeps_characters (source : SourceView) (tabSize : UInt8) (clean : WellFormed source.text) :
    (∀ flags, ∃ tokens lexical, runLexer source flags tabSize = .ok (tokens,lexical) ∧
      ∀ t ∈ tokens, ∃ w, t.getText source = .ok w ∧ WellFormed w) ∧
    ∃ ds reports, lexAndParse source tabSize = .ok (.ok ds,reports) ∧
      (∀ leaf ∈ leaves ds, ∃ w, leaf.get source.text = .ok w ∧ WellFormed w) ∧
        ∀ made ∈ reports, ∀ w, .text w ∈ made.args → WellFormed w := by
  refine ⟨fun flags => ?_,?_⟩
  · obtain ⟨tokens,lexical,lexed,_⟩ := lexer_total source flags tabSize
    exact ⟨tokens,lexical,lexed,lexed_clean clean lexed⟩
  obtain ⟨tokens,lexical,lexed,_⟩ := lexer_total source .none tabSize
  have texts := lexed_clean clean lexed
  obtain ⟨ds,ts',log,syntactic,⟨front,e,rfl,atEnd,plain⟩,named,file,delivered,whole⟩ := parsed_file lexed
  refine ⟨ds,_,whole,?_,?_⟩
  · obtain ⟨kept,among,same⟩ := file_leaves plain atEnd named file
    intro leaf member
    have word := leaf_word member
    rw [same] at member
    obtain ⟨t,inside,rfl⟩ := List.mem_map.mp member
    obtain ⟨_,w,_,read,text⟩ := word_reads (t := t) word (lexed_text lexed (among.subset inside))
    obtain ⟨_,text',clean'⟩ := texts t (List.mem_append_left _ (among.subset inside))
    cases text.symm.trans text'
    exact ⟨w,read,clean'⟩
  · intro made member w quoted
    rcases List.mem_append.mp member with here | there
    · exact absurd quoted (lexed_wordless lexed made here w)
    · obtain ⟨expected,about,reported⟩ := forall₂_member (mapM_all delivered).flip there
      obtain ⟨_,lexeme,_,read,rfl⟩ := report_parts reported
      obtain ⟨_,text,clean'⟩ := texts expected.found (file_blame file (fun _ => id) expected about).1
      cases read.symm.trans text
      obtain rfl : w = _ := by simpa using quoted
      exact vformat_clean clean' (format_ascii _)

def accented : SourceView := ⟨encode "é(ß, ö) ñ".toList,""⟩

theorem front_end_keeps_characters_accented :
    (∀ flags, ∃ tokens lexical, runLexer accented flags 4 = .ok (tokens,lexical) ∧
      ∀ t ∈ tokens, ∃ w, t.getText accented = .ok w ∧ WellFormed w) ∧
    ∃ ds reports, lexAndParse accented 4 = .ok (.ok ds,reports) ∧
      (∀ leaf ∈ leaves ds, ∃ w, leaf.get accented.text = .ok w ∧ WellFormed w) ∧
        ∀ made ∈ reports, ∀ w, .text w ∈ made.args → WellFormed w := front_end_keeps_characters accented 4 ⟨_,rfl⟩
end Quotes
end Cero
