import Cero.CharacterBoundaries
import Cero.TokenIsolation

-- The tokens of a source that is well-formed UTF-8 begin and end between characters.
namespace Cero.Lexer
open Effect SourceCursor Code

theorem ascii_whole {w : Bytes} (ascii : Ascii w) : WellFormed w := by
  have single : ∀ n : Fin 256, isAscii ⟨⟨n⟩⟩ = true → String.utf8EncodeChar (Char.ofNat n) = [⟨⟨n⟩⟩] := by decide +kernel
  induction w with
  | nil => exact whole_nil
  | cons b w ih =>
    refine whole_append (u := [b]) ⟨[Char.ofNat b.toNat],?_⟩ (ih fun d member => ascii d (List.mem_cons_of_mem _ member))
    rw [List.flatMap_singleton]
    exact (single b.toFin (ascii b List.mem_cons_self)).symm

theorem fixedText_ascii {kind : TokenKind} {w : Bytes} (spelled : fixedText kind = some w) : Ascii w := by
  have each : ∀ kind, (fixedText kind).all (·.all isAscii) = true := by
    intro kind
    cases kind <;> decide
  have all := each kind
  rw [spelled] at all
  exact List.all_eq_true.mp all

theorem spelled_ascii {chain : MatchChain} {w : Bytes} (spelled : chain.spelled w = true) : Ascii w := by
  induction chain generalizing w with
  | put kind =>
    obtain ⟨text,_⟩ : fixedText kind = some w ∧ kind ≠ .endOfFile := by simpa [MatchChain.spelled] using spelled
    exact fixedText_ascii text
  | ifMatch c matched other ih₁ ih₂ =>
    obtain ⟨_,second⟩ : matched.spelled (w ++ [c]) = true ∧ other.spelled w = true := by
      simpa [MatchChain.spelled] using spelled
    exact ih₂ second

theorem fixed_clean {source : SourceView} {kind : TokenKind} {o : Nat} {w : Bytes} (text : (Token.fixed kind o).getText source = .ok w) :
    WellFormed w := by
  rw [Token.getText,if_neg (show ¬ (Token.fixed kind o).variableLength > 0 from Nat.lt_irrefl 0)] at text
  cases spelled : fixedText kind with
  | none =>
    simp only [Token.fixed,Token.make,spelled] at text
    cases text
  | some u =>
    simp only [Token.fixed,Token.make,spelled] at text
    cases text
    exact ascii_whole (fixedText_ascii spelled)

section Numbers
theorem plain_table (b : UInt8) : (isDecimalDigit b = true ∨ isHexadecimalDigit b = true ∨ isAsciiWhitespace b = true) →
    isAscii b = true := by
  have table : ∀ n : Fin 256, (isDecimalDigit ⟨⟨n⟩⟩ = true ∨ isHexadecimalDigit ⟨⟨n⟩⟩ = true ∨ isAsciiWhitespace ⟨⟨n⟩⟩ = true) →
      isAscii ⟨⟨n⟩⟩ = true := by decide +kernel
  exact table b.toFin

theorem blank_ascii {blanks : Bytes} (blank : Blank blanks) : Ascii blanks := fun b member => plain_table b (.inr (.inr (blank b member)))

theorem decimal_ascii {w : Bytes} (digits : DigitTail isDecimalDigit w) : Ascii w :=
  fun b member => plain_table b ((digits.bytes b member).imp_right .inr)

theorem based_ascii {marker : UInt8} {digit : UInt8 → Bool} {kind : TokenKind} (based : Based marker digit kind) {w : Bytes}
    (digits : DigitTail digit w) : Ascii (ch '0' :: marker :: w) := by
  have first : isAscii marker = true := by cases based <;> rfl
  refine ascii_cons rfl (ascii_cons first fun b member => plain_table b ?_)
  cases based with
  | hex => exact .inr (digits.bytes b member)
  | bin | oct => exact (digits.bytes b member).imp_right .inr

theorem Whole.ascii {t i : Bytes} (whole : Whole t i) : Ascii i := by
  obtain ⟨first,tail⟩ := whole.longest.is
  exact ascii_cons (plain_table _ (.inl first)) (decimal_ascii tail)

-- A number is ASCII.
theorem number_ascii {o : Nat} {t w : Bytes} {tokens : List Token} (read : NumberRead o t w tokens) : Ascii w := by
  have dot : isAscii (ch '.') = true := rfl
  cases read with
  | based is longest => exact based_ascii is longest.is
  | float whole blank longest =>
    exact List.forall_mem_append.mpr ⟨whole.ascii,List.forall_mem_append.mpr ⟨blank_ascii blank,ascii_cons dot (decimal_ascii longest.is)⟩⟩
  | intDot whole blank =>
    exact List.forall_mem_append.mpr ⟨whole.ascii,List.forall_mem_append.mpr ⟨blank_ascii blank,List.forall_mem_singleton.mpr dot⟩⟩
  | int whole => exact whole.ascii
  | fraction longest => exact ascii_cons dot (decimal_ascii longest.is)
  | dot => exact List.forall_mem_singleton.mpr dot
end Numbers

theorem letter_ascii {b : UInt8} (letter : ch 'A' ≤ b ∧ b ≤ ch 'Z' ∨ b = ch '_' ∨ ch 'a' ≤ b ∧ b ≤ ch 'z') : isAscii b = true := by
  have table : ∀ n : Fin 256, (ch 'A' ≤ ⟨⟨n⟩⟩ ∧ ⟨⟨n⟩⟩ ≤ ch 'Z' ∨ ⟨⟨n⟩⟩ = ch '_' ∨ ch 'a' ≤ ⟨⟨n⟩⟩ ∧ ⟨⟨n⟩⟩ ≤ ch 'z') →
      isAscii ⟨⟨n⟩⟩ = true := by decide +kernel
  exact table b.toFin letter

-- Where a handler leaves the cursor, and what it put.
structure Lands (x : Context) (c' : SourceCursor) (log : List Event) : Prop where
  there : Between x c'
  texts : ∀ t ∈ tokensOf log, ∀ w, t.getText x.source = .ok w → WellFormed w

section Handlers
variable {x : Context} {c c' : SourceCursor} {o : Nat} {b : UInt8} {rest crossed : Bytes} {log : List Event}

-- What is put over ASCII only is ASCII.
theorem lexed_ascii (here : At x.source c) (lexed : Lexed x c c' log) (moved : Moves c crossed c') (ascii : Ascii crossed) {t : Token}
    (member : t ∈ tokensOf log) {w : Bytes} (text : t.getText x.source = .ok w) : Ascii w := by
  obtain ⟨_,tiles,_,tiled,sound,put,_⟩ := lexed
  rw [put] at member
  obtain ⟨tile,among,same⟩ := List.mem_filterMap.mp member
  obtain ⟨_,_,read⟩ := token_tile (sound tile among) same
  cases read.symm.trans text
  obtain ⟨_,before,behind⟩ := tiled.inside tile among
  have size := slice_size (sound tile among)
  rw [Tile.stop] at behind
  intro d inside
  obtain ⟨i,small,rfl⟩ := List.mem_iff_getElem.mp inside
  rw [size] at small
  have stop := moved.2
  have place : c.offset + (tile.start + i - c.offset) = tile.start + i := by omega
  have slice := here.slice moved
  apply ascii
  rw [← slice,List.mem_iff_getElem?]
  refine ⟨tile.start + i - c.offset,?_⟩
  rw [List.getElem?_take_of_lt (by omega),List.getElem?_drop,place,List.getElem_take,List.getElem_drop,List.getElem?_eq_getElem]

variable (clean : WellFormed x.source.text)
include clean

-- The text between two such cursors is well-formed.
theorem between_whole (here : Between x c) (moved : Moves c crossed c') (there : Between x c') : WellFormed crossed := by
  obtain ⟨u,whole⟩ := at_suffix here.at_
  rw [whole] at clean
  have behind := (whole_split utf8_synchronizes clean here.fresh).2
  rw [moved.1] at behind
  exact (whole_split utf8_synchronizes behind there.fresh).1

theorem word_lands {kind : TokenKind} (here : Between x c) (moved : Moves c crossed c') (some_ : crossed ≠ []) (there : Between x c')
    (quiet : tokensOf log = []) :
    Holds (put (.make kind c.offset (c'.offset - c.offset))) c' (fun _ c'' more => Lands x c'' (log ++ more)) := by
  have size : c'.offset - c.offset = crossed.length := by
    rw [moved.2]
    omega
  rw [size]
  refine holds_tell ⟨there,fun t member w text => ?_⟩
  obtain rfl : t = .make kind c.offset crossed.length := by simpa [quiet] using member
  cases (make_getText here.at_ moved some_ kind).symm.trans text
  exact between_whole clean here moved there

omit clean in
theorem fixed_lands (there : Between x c) (kind : TokenKind) (o : Nat) :
    Holds (put (.fixed kind o)) c (fun _ c' log => Lands x c' log) := by
  refine holds_tell ⟨there,fun t member w text => ?_⟩
  obtain rfl : t = .fixed kind o := by simpa using member
  exact fixed_clean text

theorem matchChar_between {expected : UInt8} (here : Between x c) (ascii : isAscii expected = true) :
    ∃ matched c', (matchChar expected : Lexer Bool) c = .ok ⟨.ok matched,c',[]⟩ ∧ Between x c' := by
  rcases matchChar_spec expected c with ⟨o,rest,rfl,ran⟩ | ⟨_,ran⟩
  · exact ⟨_,_,ran,between_ascii clean here.at_ ascii⟩
  · exact ⟨_,_,ran,here⟩

theorem onOneCharToken_lands {kind : TokenKind} (spelled : fixedText kind = some [b]) (here : Between x ⟨o,b :: rest⟩) :
    Holds (onOneCharToken kind) ⟨o,b :: rest⟩ (fun _ c' log => Lands x c' log) := by
  have next := between_ascii clean here.at_ (fixedText_ascii spelled b List.mem_cons_self)
  exact holds_silent getOffsetAndAdvance_run (fixed_lands next kind o)

theorem chain_lands {chain : MatchChain} {w : Bytes} (spelled : chain.spelled w = true) (here : Between x c) (o : Nat) :
    Holds (chain.run o) c (fun _ c' log => Lands x c' log) := by
  induction chain generalizing w c with
  | put kind => exact fixed_lands here kind o
  | ifMatch e matched other ih₁ ih₂ =>
    obtain ⟨first,second⟩ : matched.spelled (w ++ [e]) = true ∧ other.spelled w = true := by
      simpa [MatchChain.spelled] using spelled
    have ascii : isAscii e = true := spelled_ascii first e (List.mem_append_right _ List.mem_cons_self)
    obtain ⟨_,_,ran,there⟩ := matchChar_between clean here ascii
    exact holds_silent ran (holds_ite (fun _ => ih₁ first there) (fun _ => ih₂ second there))

theorem onOperator_lands {chain : MatchChain} (spelled : chain.spelled [b] = true) (here : Between x ⟨o,b :: rest⟩) :
    Holds (onOperator chain) ⟨o,b :: rest⟩ (fun _ c' log => Lands x c' log) := by
  have next := between_ascii clean here.at_ (spelled_ascii spelled b List.mem_cons_self)
  exact holds_silent getOffsetAndAdvance_run (chain_lands clean spelled next o)

theorem onRightAngle_lands (here : Between x ⟨o,ch '>' :: rest⟩) :
    Holds onRightAngle ⟨o,ch '>' :: rest⟩ (fun _ c' log => Lands x c' log) := by
  have next := between_ascii clean here.at_ (show isAscii (ch '>') = true from rfl)
  obtain ⟨_,_,second,there⟩ := matchChar_between clean next (show isAscii (ch '>') = true from rfl)
  obtain ⟨_,_,third,behind⟩ := matchChar_between clean there (show isAscii (ch '=') = true from rfl)
  refine holds_silent getOffsetAndAdvance_run (holds_silent second (holds_ite (fun _ => ?_) (fun _ => ?_)))
  · refine holds_silent third (holds_ite (fun _ => fixed_lands behind _ o) (fun _ => ?_))
    refine holds_bind (fixed_lands behind _ o) ?_
    rintro _ c' log landed
    refine holds_weaken (fixed_lands landed.there _ (o+1)) fun _ _ more last => ⟨last.there,fun t member => ?_⟩
    rw [tokensOf_append] at member
    exact (List.mem_append.mp member).elim (landed.texts t) (last.texts t)
  · exact holds_silent third (holds_ite (fun _ => fixed_lands behind _ o) (fun _ => fixed_lands behind _ o))

theorem number_lands (starts : isDecimalDigit b = true ∨ b = ch '.') (here : Between x ⟨o,b :: rest⟩) :
    Holds (handleNextCharacter x b) ⟨o,b :: rest⟩ (fun _ c' log => Lands x c' log) := by
  obtain ⟨w,tokens,read⟩ := number_exists starts o rest
  obtain ⟨blanks,c',blank,moved,ran⟩ := number_reads (x := x) read b rest rfl
  have ascii : Ascii (w ++ blanks) := List.forall_mem_append.mpr ⟨number_ascii read,blank_ascii blank⟩
  obtain ⟨_,_,_,again,lexed,_⟩ := handleNextCharacter_spec here.at_
  obtain ⟨⟩ := ran.symm.trans again
  refine ⟨(),c',_,ran,between_passed clean here moved ascii,fun t member w text => ?_⟩
  exact ascii_whole (lexed_ascii here.at_ lexed moved ascii member text)

theorem onAlphabetic_lands (here : Between x ⟨o,b :: rest⟩) (ascii : isAscii b = true) :
    Holds (onAlphabetic x) ⟨o,b :: rest⟩ (fun _ c' log => Lands x c' log) := by
  have next := between_ascii clean here.at_ ascii
  refine holds_silent getOffsetAndAdvance_run (holds_bind (holds_both (consumeWord_spec next.at_) (word_between clean next)) ?_)
  rintro _ c' log ⟨⟨crossed,moved,_,quiet⟩,there⟩
  exact holds_silent currentOffset_run (word_lands clean here (moves_cons.trans moved) (List.cons_ne_nil _ _) there quiet)

theorem onAlphabeticMaybeKeyword_lands (here : Between x ⟨o,b :: rest⟩) (ascii : isAscii b = true) (tails : List KeywordTail) :
    Holds (onAlphabeticMaybeKeyword x tails) ⟨o,b :: rest⟩ (fun _ c' log => Lands x c' log) := by
  have next := between_ascii clean here.at_ ascii
  refine holds_silent getOffsetAndAdvance_run (holds_bind (holds_both (consumeWord_spec next.at_) (word_between clean next)) ?_)
  rintro _ c' log ⟨⟨crossed,moved,_,quiet⟩,there⟩
  have name : Holds (put (.make .identifier o (c'.offset - o))) c' (fun _ c'' more => Lands x c'' (log ++ more)) :=
    word_lands clean here (moves_cons.trans moved) (List.cons_ne_nil _ _) there quiet
  refine holds_silent currentOffset_run (holds_ite (fun _ => ?_) (fun _ => name))
  refine holds_silent (ofExcept_run (substr_ok next.at_.inside _)) ?_
  split
  · refine holds_tell ⟨there,fun t member w text => ?_⟩
    rename_i kwTail _
    obtain rfl : t = .fixed kwTail.kind o := by simpa [quiet] using member
    exact fixed_clean text
  · exact name

theorem keywordHandler_lands (here : Between x ⟨o,b :: rest⟩) (ascii : isAscii b = true) :
    Holds (keywordHandler x b) ⟨o,b :: rest⟩ (fun _ c' log => Lands x c' log) :=
  holds_ite (fun _ => onAlphabetic_lands clean here ascii) (fun _ => onAlphabeticMaybeKeyword_lands clean here ascii _)

theorem onQuote_lands {kind : TokenKind} {quote : UInt8} (ascii : isAscii quote = true) (here : Between x ⟨o,quote :: rest⟩) :
    Holds (onQuote x kind quote) ⟨o,quote :: rest⟩ (fun _ c' log => Lands x c' log) := by
  have next := between_ascii clean here.at_ ascii
  refine holds_silent getOffsetAndAdvance_run
    (holds_bind (holds_both (quoteRounds_spec quote false next.at_) (quote_between clean ascii next.at_ false)) ?_)
  rintro _ c' log ⟨⟨crossed,moved,quiet⟩,there⟩
  exact holds_silent currentOffset_run (word_lands clean here (moves_cons.trans moved) (List.cons_ne_nil _ _) there quiet)

theorem putComment_lands {kind : TokenKind} (here : Between x c) (moved : Moves c crossed c') (some_ : crossed ≠ []) (there : Between x c')
    (quiet : tokensOf log = []) : Holds (putComment x kind c.offset) c' (fun _ c'' more => Lands x c'' (log ++ more)) := by
  refine holds_ite (fun _ => holds_silent currentOffset_run (word_lands clean here moved some_ there quiet)) fun _ => ?_
  exact holds_pure ⟨there,by simp [quiet]⟩

theorem consumeBlockComment_between (here : At x.source c) (inside : o ≤ x.source.text.length) :
    Holds (consumeBlockComment x o) c (fun _ c' _ => Between x c') := by
  refine holds_bind (block_between clean here 1) ?_
  rintro (_ | _) c' _ there
  · obtain ⟨made,ran,_⟩ : ∃ made, report x .unterminatedBlockComment o [] c' = .ok ⟨.ok (),c',[.report made]⟩ ∧
        ReportAt x o .unterminatedBlockComment made := report_run here.fits inside rfl
    exact ⟨(),c',_,ran,there⟩
  · exact holds_pure there

theorem onSlash_lands (here : Between x ⟨o,ch '/' :: rest⟩) :
    Holds (onSlash x) ⟨o,ch '/' :: rest⟩ (fun _ c' log => Lands x c' log) := by
  have next := between_ascii clean here.at_ (show isAscii (ch '/') = true from rfl)
  have first : Moves ⟨o,ch '/' :: rest⟩ [ch '/'] ⟨o+1,rest⟩ := moves_cons
  refine holds_silent getOffsetAndAdvance_run ?_
  rcases matchChar_spec (ch '/') ⟨o+1,rest⟩ with ⟨_,_,⟨rfl,rfl⟩,line⟩ | ⟨_,line⟩
  · refine holds_silent line ?_
    rw [if_pos rfl]
    have behind := between_ascii clean next.at_ (show isAscii (ch '/') = true from rfl)
    refine holds_bind (holds_both (consumeLineComment_spec _) (line_between behind.at_)) ?_
    rintro _ c' log ⟨⟨crossed,moved,_,quiet⟩,there⟩
    exact putComment_lands clean here (first.trans (moves_cons.trans moved)) (by simp) there quiet
  refine holds_silent line ?_
  rw [if_neg Bool.false_ne_true]
  rcases matchChar_spec (ch '*') ⟨o+1,rest⟩ with ⟨_,_,⟨rfl,rfl⟩,block⟩ | ⟨_,block⟩
  · refine holds_silent block ?_
    rw [if_pos rfl]
    have behind := between_ascii clean next.at_ (show isAscii (ch '*') = true from rfl)
    refine holds_bind (holds_both (consumeBlockComment_spec here.at_.fits here.at_.inside _)
      (consumeBlockComment_between clean behind.at_ here.at_.inside)) ?_
    rintro _ c' log ⟨⟨crossed,moved,quiet⟩,there⟩
    exact putComment_lands clean here (first.trans (moves_cons.trans moved)) (by simp) there quiet
  refine holds_silent block ?_
  rw [if_neg Bool.false_ne_true]
  obtain ⟨assigns,_,assign,there⟩ := matchChar_between clean next (show isAscii (ch '=') = true from rfl)
  refine holds_silent assign ?_
  exact holds_ite (fun _ => fixed_lands there .slashEq o) (fun _ => fixed_lands there .slash o)
-- An ASCII byte that begins no token is rejected by itself.
theorem onOtherChar_lands (here : Between x ⟨o,b :: rest⟩) :
    Holds (onOtherChar x b) ⟨o,b :: rest⟩ (fun _ c' log => Lands x c' log) := by
  refine holds_silent getOffsetAndAdvance_run ?_
  have spec := @consumeMultibyteUtf8Char_spec x b o ⟨o+1,rest⟩ isUtf8XidStartChar here.at_.fits here.at_.inside
  by_cases ascii : isAscii b = true
  · have next := between_ascii clean here.at_ ascii
    have single : ¬ (countlOne b ≥ 2 ∧ countlOne b ≤ 4) := by
      have table : ∀ n : Fin 256, isAscii ⟨⟨n⟩⟩ = true → ¬ (countlOne ⟨⟨n⟩⟩ ≥ 2 ∧ countlOne ⟨⟨n⟩⟩ ≤ 4) := by decide +kernel
      exact table b.toFin ascii
    rw [consumeMultibyteUtf8Char,if_neg single]
    refine holds_bind (reject_spec _ here.at_.fits here.at_.inside) ?_
    rintro _ _ _ ⟨rfl,rfl,made,rfl,_⟩
    exact holds_pure ⟨next,by simp⟩
  · refine holds_bind (holds_both spec (character_between clean here (Bool.eq_false_iff.mpr ascii) _)) ?_
    rintro accepted c₁ log ⟨⟨⟨crossed,moved,_⟩,reported⟩,between,_,_⟩
    cases accepted with
    | true =>
      obtain rfl : log = [] := reported
      refine holds_bind (holds_both (consumeWord_spec between.at_) (word_between clean between)) ?_
      rintro _ c' log ⟨⟨more,moved',_,quiet⟩,there⟩
      have whole : Moves ⟨o,b :: rest⟩ (b :: (crossed ++ more)) c' := moves_cons.trans (moved.trans moved')
      exact holds_silent currentOffset_run (word_lands clean here whole (by simp) there quiet)
    | false =>
      obtain ⟨made,rfl,_⟩ := reported
      exact holds_pure ⟨between,by simp⟩

theorem handleNextCharacter_lands (here : Between x ⟨o,b :: rest⟩) :
    Holds (handleNextCharacter x b) ⟨o,b :: rest⟩ (fun _ c' log => Lands x c' log) := by
  by_cases number : isDecimalDigit b = true ∨ b = ch '.'
  · exact number_lands clean number here
  apply handle_dispatched (P := fun handler => Holds handler ⟨o,b :: rest⟩ (fun _ c' log => Lands x c' log))
  constructor
  case blank =>
    intro white
    have ascii := plain_table b (.inr (.inr white))
    exact ⟨(),_,_,advance_run,between_ascii clean here.at_ ascii,by simp⟩
  case upper => exact fun upper => onAlphabetic_lands clean here (letter_ascii (upper.imp_right .inl))
  case lower => exact fun lower => keywordHandler_lands clean here (letter_ascii (.inr (.inr lower)))
  case zero => exact fun zero => absurd (.inl (by rw [zero]; rfl)) number
  case nonzero => exact fun nonzero => absurd (.inl (nonzero_digit nonzero)) number
  case single => exact fun kind spelled _ => onOneCharToken_lands clean spelled here
  case operator => exact fun chain spelled => onOperator_lands clean spelled here
  case rightAngle =>
    rintro rfl
    exact onRightAngle_lands clean here
  case dot => exact fun dot => absurd (.inr dot) number
  case slash =>
    rintro rfl
    exact onSlash_lands clean here
  case string =>
    rintro rfl
    exact onQuote_lands clean rfl here
  case character =>
    rintro rfl
    exact onQuote_lands clean rfl here
  case other => exact onOtherChar_lands clean here

theorem sourceRounds_lands (here : Between x c) :
    Holds (loop (sourceRound x) ()) c (fun _ c' log => Lands x c' log) := by
  refine holds_loop (fun _ c => Between x c) (fun _ _ _ c' log => Lands x c' log) ?_ here
  rintro ⟨⟩ c here
  refine holds_silent peek_run (holds_ite (fun _ => holds_pure ⟨here,by simp⟩) fun some_ => ?_)
  obtain ⟨o,_ | ⟨b,rest⟩⟩ := c
  · exact absurd front_nil some_
  refine holds_bind (holds_both (handleNextCharacter_spec here.at_) (handleNextCharacter_lands clean here)) ?_
  rintro ⟨⟩ c' log ⟨⟨lexed,progress⟩,landed⟩
  refine holds_pure ⟨landed.there,?_,?_⟩
  · have before := here.at_.length
    have after := landed.there.at_.length
    simp only at before progress ⊢
    omega
  · rintro _ c'' more last
    refine ⟨last.there,fun t member => ?_⟩
    rw [List.append_nil,tokensOf_append] at member
    exact (List.mem_append.mp member).elim (landed.texts t) (last.texts t)

theorem handleSource_lands (here : Between x c) : Holds (handleSource x) c (fun _ c' log => Lands x c' log) := by
  refine holds_bind (sourceRounds_lands clean here) ?_
  rintro ⟨⟩ c' log landed
  have there := landed.there.at_
  refine holds_silent valid_run (holds_ite (fun _ => ?_) (fun _ => holds_pure (by simpa using landed)))
  obtain ⟨made,ran,_⟩ : ∃ made, report x .invalidCharacter c'.offset [.number 0] c' = .ok ⟨.ok (),c',[.report made]⟩ ∧
      ReportAt x c'.offset .invalidCharacter made := report_run there.fits there.inside rfl
  exact holds_silent currentOffset_run ⟨(),c',_,ran,landed.there,by simpa using landed.texts⟩

theorem run_lands (fits : x.source.text.length ≤ sourceSizeMax) : Holds (run x) (.start x.source) (fun _ c' log => Lands x c' log) := by
  rw [run,if_pos fits]
  refine holds_bind (handleSource_lands clean (between_start fits clean)) ?_
  rintro ⟨⟩ c' log landed
  refine holds_silent currentOffset_run (holds_weaken (fixed_lands landed.there .endOfFile _) fun _ _ more last => ⟨last.there,fun t member => ?_⟩)
  rw [tokensOf_append] at member
  exact (List.mem_append.mp member).elim (landed.texts t) (last.texts t)
end Handlers

end Cero.Lexer
