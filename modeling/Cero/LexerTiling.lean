import Cero.LexerScanners
import Cero.Library.Tiling

-- What the lexer passes over is cut into the texts of its tokens, blanks, the
-- characters that it rejects and, where they are not tokens, comments.
namespace Cero.Lexer
open Effect SourceCursor Tile

inductive Label where
  | token (token : Token)
  | blank
  | comment
  | rejected (made : Report)

def Label.tokenOf : Label → Option Token
  | .token put => some put
  | _ => none

def Label.reportOf : Label → Option Report
  | .rejected made => some made
  | _ => none

-- What a label says about the bytes `over` that begin at `start`.
def LabelSound (x : Context) (start : Nat) (crossed : Bytes) : Label → Prop
  | .token token => token.kind ≠ .endOfFile ∧ token.offset.toNat = start ∧ token.getText x.source = .ok crossed
  | .blank => Blank crossed
  | .comment => x.flags.emitComments = false
  | .rejected made => ReportAt x start .invalidCharacter made ∧ ∃ lead more, crossed = lead :: more ∧ crossed.length ≤ characterLength lead

def TileSound (x : Context) (tile : Tile Label) : Prop :=
  tile.stop ≤ x.source.text.length ∧ LabelSound x tile.start ((x.source.text.drop tile.start).take tile.size) tile.label

-- From `c` to `c'` the source is tiled; the tokens of the log are those of the tiles,
-- and every rejected character is reported in it.
def Lexed (x : Context) (c c' : SourceCursor) (log : List Event) : Prop :=
  ∃ crossed tiles, Moves c crossed c' ∧ Tiled c.offset tiles c'.offset ∧ (∀ tile ∈ tiles, TileSound x tile) ∧
    tokensOf log = tiles.filterMap (fun tile => tile.label.tokenOf) ∧
    ∀ made ∈ tiles.filterMap (fun tile => tile.label.reportOf), made ∈ reportsOf log

section Building
variable {x : Context} {c c' c'' : SourceCursor} {crossed : Bytes} {log more : List Event}

theorem Lexed.refl : Lexed x c c [] := ⟨[],[],.refl c,.nil,by simp,rfl,by simp⟩

theorem Lexed.trans (first : Lexed x c c' log) (second : Lexed x c' c'' more) : Lexed x c c'' (log ++ more) := by
  obtain ⟨crossed,tiles,moved,tiled,sound,put,reported⟩ := first
  obtain ⟨crossed',tiles',moved',tiled',sound',put',reported'⟩ := second
  refine ⟨crossed ++ crossed',tiles ++ tiles',moved.trans moved',tiled.append tiled',?_,?_,?_⟩
  · intro tile member
    rcases List.mem_append.mp member with here | there
    · exact sound tile here
    · exact sound' tile there
  · rw [tokensOf_append,List.filterMap_append,put,put']
  · intro made member
    rw [List.filterMap_append] at member
    rw [reportsOf_append]
    rcases List.mem_append.mp member with here | there
    · exact List.mem_append_left _ (reported made here)
    · exact List.mem_append_right _ (reported' made there)

theorem Lexed.at_ (lexed : Lexed x c c' log) (here : At x.source c) : At x.source c' := by
  obtain ⟨crossed,_,moved,_⟩ := lexed
  exact here.moves moved

theorem tile_sound (here : At x.source c) (moved : Moves c crossed c') {label : Label}
    (sound : LabelSound x c.offset crossed label) : TileSound x ⟨c.offset,crossed.length,label⟩ := by
  have there := here.moves moved
  refine ⟨?_,?_⟩
  · rw [Tile.stop,← moved.2]
    exact there.inside
  · rw [here.slice moved]
    exact sound

theorem Lexed.tile (label : Label) (here : At x.source c) (moved : Moves c crossed c') (some_ : crossed ≠ [])
    (sound : LabelSound x c.offset crossed label) (put : tokensOf log = label.tokenOf.toList)
    (reported : ∀ made, label.reportOf = some made → made ∈ reportsOf log) : Lexed x c c' log := by
  refine ⟨crossed,[⟨c.offset,crossed.length,label⟩],moved,?_,?_,?_,?_⟩
  · rw [moved.2]
    exact .single (List.length_pos_iff.mpr some_)
  · rintro _ member
    rw [List.mem_singleton.mp member]
    exact tile_sound here moved sound
  · rw [put]
    cases label <;> rfl
  · intro made member
    refine reported made ?_
    cases label <;> simp_all [Label.reportOf]

theorem Lexed.blank (here : At x.source c) (moved : Moves c crossed c') (blank : Blank crossed) : Lexed x c c' [] := by
  by_cases empty : crossed = []
  · subst empty
    obtain rfl : c' = c := by
      obtain ⟨rest,offset⟩ := moved
      cases c; cases c'
      simp_all
    exact .refl
  · exact .tile .blank here moved empty blank rfl (fun _ absurd => by cases absurd)

-- A token of variable length reads its text off the source.
theorem Lexed.variable (here : At x.source c) (moved : Moves c crossed c') (some_ : crossed ≠ []) {kind : TokenKind} {length : Nat}
    (notEnd : kind ≠ .endOfFile) (size : length = crossed.length) (put : tokensOf log = [.make kind c.offset length]) :
    Lexed x c c' log := by
  subst size
  exact .tile (.token (.make kind c.offset crossed.length)) here moved some_ ⟨notEnd,offset_exact here kind _,make_getText here moved some_ kind⟩
    put (fun _ absurd => by cases absurd)

-- A token of fixed length has the text that was passed over.
theorem Lexed.fixed (here : At x.source c) (moved : Moves c crossed c') {kind : TokenKind} (notEnd : kind ≠ .endOfFile)
    (some_ : crossed ≠ []) (spelled : fixedText kind = some crossed) (put : tokensOf log = [.fixed kind c.offset]) : Lexed x c c' log :=
  .tile (.token (.fixed kind c.offset)) here moved some_ ⟨notEnd,offset_exact here kind 0,fixed_getText spelled⟩ put
    (fun _ absurd => by cases absurd)

theorem Lexed.rejected (here : At x.source c) {lead : UInt8} (moved : Moves c (lead :: crossed) c') {made : Report}
    (there : ReportAt x c.offset .invalidCharacter made) (claimed : crossed.length < characterLength lead) :
    Lexed x c c' [.report made] :=
  .tile (.rejected made) here moved (List.cons_ne_nil _ _) ⟨there,lead,crossed,rfl,claimed⟩ rfl
    (fun _ same => by cases same; exact List.mem_singleton.mpr rfl)

-- A move over two pieces goes through the place between them.
theorem moves_split {u v : Bytes} (moved : Moves c (u ++ v) c') :
    Moves c u ⟨c.offset+u.length,v ++ c'.rest⟩ ∧ Moves ⟨c.offset+u.length,v ++ c'.rest⟩ v c' := by
  obtain ⟨rest,offset⟩ := moved
  refine ⟨⟨by rw [rest,List.append_assoc],rfl⟩,rfl,?_⟩
  rw [offset,List.length_append,Nat.add_assoc]
end Building

-- A handler has lexed what it passed over, and it has passed over something.
def Stepped (x : Context) (c : SourceCursor) (_ : Unit) (c' : SourceCursor) (log : List Event) : Prop :=
  Lexed x c c' log ∧ c.offset < c'.offset

theorem moved_on {c c' : SourceCursor} {crossed : Bytes} (moved : Moves c crossed c') (some_ : crossed ≠ []) : c.offset < c'.offset := by
  have positive := List.length_pos_iff.mpr some_
  rw [moved.2]
  omega

-- The spelling that leads to each leaf of a chain is the text of the kind it puts.
def MatchChain.spelled (w : Bytes) : MatchChain → Bool
  | .put kind => fixedText kind = some w && kind ≠ .endOfFile
  | .ifMatch c matched other => matched.spelled (w ++ [c]) && other.spelled w

section Handlers
variable {x : Context} {c c' : SourceCursor} {o : Nat} {b : UInt8} {crossed rest : Bytes}

theorem chain_spec {chain : MatchChain} (spelled : chain.spelled crossed = true) {whole : Bytes} (here : At x.source ⟨o,whole⟩)
    (moved : Moves ⟨o,whole⟩ crossed c') (some_ : crossed ≠ []) : Holds (chain.run o) c' (Stepped x ⟨o,whole⟩) := by
  induction chain generalizing crossed c' with
  | put kind =>
    obtain ⟨text,notEnd⟩ : fixedText kind = some crossed ∧ kind ≠ .endOfFile := by simpa [MatchChain.spelled] using spelled
    exact holds_tell ⟨.fixed here moved notEnd some_ text rfl,moved_on moved some_⟩
  | ifMatch expected matched other ihMatched ihOther =>
    obtain ⟨spelledMatched,spelledOther⟩ : matched.spelled (crossed ++ [expected]) = true ∧ other.spelled crossed = true := by
      simpa [MatchChain.spelled] using spelled
    rcases matchChar_spec expected c' with ⟨_,_,rfl,ran⟩ | ⟨_,ran⟩
    · refine holds_silent ran ?_
      rw [if_pos rfl]
      exact ihMatched spelledMatched (moved.trans moves_cons) (by simp)
    · refine holds_silent ran ?_
      rw [if_neg Bool.false_ne_true]
      exact ihOther spelledOther moved some_

theorem onOperator_spec {chain : MatchChain} (spelled : chain.spelled [b] = true) (here : At x.source ⟨o,b :: rest⟩) :
    Holds (onOperator chain) ⟨o,b :: rest⟩ (Stepped x ⟨o,b :: rest⟩) :=
  holds_silent getOffsetAndAdvance_run (chain_spec spelled here moves_cons (List.cons_ne_nil _ _))

theorem onOneCharToken_spec {kind : TokenKind} (spelled : fixedText kind = some [b]) (notEnd : kind ≠ .endOfFile)
    (here : At x.source ⟨o,b :: rest⟩) : Holds (onOneCharToken kind) ⟨o,b :: rest⟩ (Stepped x ⟨o,b :: rest⟩) :=
  holds_silent getOffsetAndAdvance_run
    (holds_tell ⟨.fixed here moves_cons notEnd (List.cons_ne_nil _ _) spelled rfl,Nat.lt_succ_self _⟩)

theorem onRightAngle_spec (here : At x.source ⟨o,ch '>' :: rest⟩) :
    Holds onRightAngle ⟨o,ch '>' :: rest⟩ (Stepped x ⟨o,ch '>' :: rest⟩) := by
  refine holds_silent getOffsetAndAdvance_run ?_
  rcases matchChar_spec (ch '>') ⟨o+1,rest⟩ with ⟨_,rest,⟨rfl,rfl⟩,second⟩ | ⟨_,second⟩
  · refine holds_silent second ?_
    rw [if_pos rfl]
    have first : At x.source ⟨o+1,ch '>' :: rest⟩ := here.moves moves_cons
    rcases matchChar_spec (ch '=') ⟨o+1+1,rest⟩ with ⟨_,rest,⟨rfl,rfl⟩,third⟩ | ⟨_,third⟩
    · refine holds_silent third (holds_tell ?_)
      have moved : Moves ⟨o,ch '>' :: ch '>' :: ch '=' :: rest⟩ [ch '>',ch '>',ch '='] ⟨o+1+1+1,rest⟩ := ⟨rfl,rfl⟩
      exact ⟨.fixed here moved (by decide) (List.cons_ne_nil _ _) rfl rfl,moved_on moved (List.cons_ne_nil _ _)⟩
    · -- two tokens of one byte each
      refine holds_silent third (holds_step (put_run _) (holds_tell ⟨?_,?_⟩))
      · have left : Lexed x ⟨o,ch '>' :: ch '>' :: rest⟩ ⟨o+1,ch '>' :: rest⟩ [.token (.fixed .rAngle o)] :=
          .fixed here moves_cons (by decide) (List.cons_ne_nil _ _) rfl rfl
        have right : Lexed x ⟨o+1,ch '>' :: rest⟩ ⟨o+1+1,rest⟩ [.token (.fixed .rAngle (o+1))] :=
          .fixed first moves_cons (by decide) (List.cons_ne_nil _ _) rfl rfl
        exact left.trans right
      · simp only
        omega
  · refine holds_silent second ?_
    rw [if_neg Bool.false_ne_true]
    rcases matchChar_spec (ch '=') ⟨o+1,rest⟩ with ⟨_,rest,⟨rfl,rfl⟩,third⟩ | ⟨_,third⟩
    · refine holds_silent third (holds_tell ?_)
      have moved : Moves ⟨o,ch '>' :: ch '=' :: rest⟩ [ch '>',ch '='] ⟨o+1+1,rest⟩ := ⟨rfl,rfl⟩
      exact ⟨.fixed here moved (by decide) (List.cons_ne_nil _ _) rfl rfl,moved_on moved (List.cons_ne_nil _ _)⟩
    · exact holds_silent third
        (holds_tell ⟨.fixed here moves_cons (by decide) (List.cons_ne_nil _ _) rfl rfl,Nat.lt_succ_self _⟩)

-- A word that is put as a name.
theorem putWord (here : At x.source c) (moved : Moves c crossed c') (some_ : crossed ≠ []) {kind : TokenKind}
    (notEnd : kind ≠ .endOfFile) {log : List Event} (quiet : tokensOf log = []) :
    Holds (put (.make kind c.offset (c'.offset - c.offset))) c' (fun u c'' more => Stepped x c u c'' (log ++ more)) := by
  have size : c'.offset - c.offset = crossed.length := by
    rw [moved.2]
    omega
  exact holds_tell ⟨.variable here moved some_ notEnd size (by simp [quiet]),moved_on moved some_⟩

theorem onAlphabetic_spec (here : At x.source ⟨o,b :: rest⟩) :
    Holds (onAlphabetic x) ⟨o,b :: rest⟩ (Stepped x ⟨o,b :: rest⟩) := by
  refine holds_silent getOffsetAndAdvance_run (holds_bind (consumeWord_spec (here.moves moves_cons)) ?_)
  rintro _ c' log ⟨crossed,moved,_,quiet⟩
  exact holds_silent currentOffset_run
    (putWord here (moves_cons.trans moved) (List.cons_ne_nil _ _) (by decide) quiet)

theorem onAlphabeticMaybeKeyword_spec (here : At x.source ⟨o,b :: rest⟩) :
    Holds (onAlphabeticMaybeKeyword x (getKeywordTails b)) ⟨o,b :: rest⟩ (Stepped x ⟨o,b :: rest⟩) := by
  have behind : At x.source ⟨o+1,rest⟩ := here.moves moves_cons
  refine holds_silent getOffsetAndAdvance_run (holds_bind (consumeWord_spec behind) ?_)
  rintro _ c' log ⟨crossed,moved,covered,quiet⟩
  have whole : Moves ⟨o,b :: rest⟩ (b :: crossed) c' := moves_cons.trans moved
  have name : Holds (put (.make .identifier o (c'.offset - o))) c'
      (fun u c'' more => Stepped x ⟨o,b :: rest⟩ u c'' (log ++ more)) :=
    putWord here whole (List.cons_ne_nil _ _) (by decide) quiet
  refine holds_silent currentOffset_run ?_
  have size : c'.offset - o = crossed.length + 1 := by
    have end_ := whole.2
    simp only [List.length_cons] at end_
    omega
  by_cases short : c'.offset - o ≤ 9
  · rw [if_pos short]
    have tail : substr x.source.text (o+1) (c'.offset - o - 1) = .ok crossed := by
      rw [substr_ok behind.inside,size]
      exact congrArg Except.ok (behind.slice moved)
    refine holds_silent (ofExcept_run tail) ?_
    cases found : (getKeywordTails b).find? (fun kwTail => kwTail.tail = encodeTail crossed) with
    | none => exact name
    | some kwTail =>
      have spelled : fixedText kwTail.kind = some (b :: crossed) :=
        (keyword_sound (keywordTail_keyword (List.mem_of_find?_eq_some found) (by omega) covered
          (by simpa using List.find?_some found))).1
      have notEnd : kwTail.kind ≠ .endOfFile := by
        intro same
        rw [same] at spelled
        cases spelled
      exact holds_tell ⟨.fixed here whole notEnd (List.cons_ne_nil _ _) spelled (by simp [quiet]),
        moved_on whole (List.cons_ne_nil _ _)⟩
  · rw [if_neg short]
    exact name

theorem keywordHandler_spec (here : At x.source ⟨o,b :: rest⟩) :
    Holds (keywordHandler x b) ⟨o,b :: rest⟩ (Stepped x ⟨o,b :: rest⟩) := by
  rw [keywordHandler]
  split
  · exact onAlphabetic_spec here
  · exact onAlphabeticMaybeKeyword_spec here

theorem putBasedLiteral_spec {kind : TokenKind} {digitPredicate : UInt8 → Bool} {whole : Bytes} (here : At x.source ⟨o,whole⟩)
    (moved : Moves ⟨o,whole⟩ crossed c') (some_ : crossed ≠ []) (notEnd : kind ≠ .endOfFile) (notNull : digitPredicate 0 = false) :
    Holds (putBasedLiteral kind digitPredicate o) c' (Stepped x ⟨o,whole⟩) := by
  have start : c'.offset = o + crossed.length := moved.2
  refine holds_bind (consumeDigitSequence_spec digitPredicate notNull (by omega)) ?_
  rintro length c'' _ ⟨rfl,digits,blanks,passed,blank,size⟩
  obtain ⟨digitsMoved,blanksMoved⟩ := moves_split passed
  have literalMoved := moved.trans digitsMoved
  have literal : Lexed x ⟨o,whole⟩ _ [.token (.make kind o length)] :=
    .variable here literalMoved (by simp [some_]) notEnd (by rw [List.length_append]; omega) rfl
  have trailing : Lexed x _ c'' [] := .blank (here.moves literalMoved) blanksMoved blank
  refine holds_tell ⟨literal.trans trailing,?_⟩
  exact moved_on (moved.trans passed) (by simp [some_])

theorem handleDecimalLiteral_spec {whole : Bytes} (here : At x.source ⟨o,whole⟩) (moved : Moves ⟨o,whole⟩ crossed c') (some_ : crossed ≠ []) :
    Holds (handleDecimalLiteral o) c' (Stepped x ⟨o,whole⟩) := by
  have start : c'.offset = o + crossed.length := moved.2
  refine holds_bind (consumeDigitSequence_spec isDecimalDigit rfl (by omega)) ?_
  rintro length c₁ _ ⟨rfl,digits,blanks,passed,blank,size⟩
  obtain ⟨digitsMoved,blanksMoved⟩ := moves_split passed
  have literalMoved := moved.trans digitsMoved
  have there := here.moves literalMoved
  have literal : Lexed x ⟨o,whole⟩ _ [.token (.make .decIntLiteral o length)] :=
    .variable here literalMoved (by simp [some_]) (by decide) (by rw [List.length_append]; omega) rfl
  have trailing : Lexed x _ c₁ [] := .blank there blanksMoved blank
  refine holds_silent peek_run ?_
  by_cases dotted : c₁.front = ch '.'
  · rw [if_pos dotted]
    obtain ⟨p,b,rest,rfl,same⟩ := front_some (P := (· == ch '.')) rfl (by simpa using dotted)
    obtain rfl : b = ch '.' := by simpa using same
    have atDot : At x.source ⟨p,ch '.' :: rest⟩ := there.moves blanksMoved
    refine holds_silent getOffsetAndAdvance_run
      (holds_bind (consumeDigitSequence_spec isDecimalDigit rfl (Nat.le_succ p)) ?_)
    rintro lengthAfterDot c₂ _ ⟨rfl,fraction,blanks',passed',blank',size'⟩
    obtain ⟨fractionMoved,blanksMoved'⟩ := moves_split passed'
    have dotMoved : Moves ⟨p,ch '.' :: rest⟩ (ch '.' :: fraction) _ := moves_cons.trans fractionMoved
    have trailing' : Lexed x _ c₂ [] := .blank (atDot.moves dotMoved) blanksMoved' blank'
    have all := moved.trans (passed.trans (moves_cons.trans passed'))
    have progress : o < c₂.offset := moved_on all (by simp)
    by_cases float : lengthAfterDot > 1
    · rw [if_pos float]
      have number := literalMoved.trans (blanksMoved.trans dotMoved)
      have end_ := (literalMoved.trans blanksMoved).2
      simp only [List.length_append] at end_ size'
      have literal' : Lexed x ⟨o,whole⟩ _ [.token (.make .floatLiteral o (p - o + lengthAfterDot))] :=
        .variable here number (by simp) (by decide)
          (by simp only [List.length_append,List.length_cons]; omega) rfl
      exact holds_tell ⟨literal'.trans trailing',progress⟩
    · rw [if_neg float]
      obtain rfl : fraction = [] := List.eq_nil_of_length_eq_zero (by simp only at size'; omega)
      have dot : Lexed x ⟨p,ch '.' :: rest⟩ _ [.token (.fixed .dot p)] :=
        .fixed atDot dotMoved (by decide) (List.cons_ne_nil _ _) rfl rfl
      exact holds_step (put_run _) (holds_tell ⟨(literal.trans trailing).trans (dot.trans trailing'),progress⟩)
  · rw [if_neg dotted]
    exact holds_tell ⟨literal.trans trailing,moved_on (moved.trans passed) (by simp [some_])⟩

theorem markedLiteral_spec {marker : UInt8} {kind : TokenKind} {digitPredicate : UInt8 → Bool} (notEnd : kind ≠ .endOfFile)
    (notNull : digitPredicate 0 = false) (here : At x.source ⟨o,b :: marker :: rest⟩) :
    Holds (putBasedLiteral kind digitPredicate o) ⟨o+1+1,rest⟩ (Stepped x ⟨o,b :: marker :: rest⟩) := by
  have moved : Moves ⟨o,b :: marker :: rest⟩ [b,marker] ⟨o+1+1,rest⟩ := ⟨rfl,rfl⟩
  exact putBasedLiteral_spec here moved (List.cons_ne_nil _ _) notEnd notNull

theorem onZero_spec (here : At x.source ⟨o,b :: rest⟩) : Holds onZero ⟨o,b :: rest⟩ (Stepped x ⟨o,b :: rest⟩) := by
  refine holds_silent getOffsetAndAdvance_run ?_
  rcases matchChar_spec (ch 'x') ⟨o+1,rest⟩ with ⟨_,_,⟨rfl,rfl⟩,hex⟩ | ⟨_,hex⟩
  · refine holds_silent hex ?_
    rw [if_pos rfl]
    exact markedLiteral_spec (by decide) (by decide) here
  refine holds_silent hex ?_
  rw [if_neg Bool.false_ne_true]
  rcases matchChar_spec (ch 'b') ⟨o+1,rest⟩ with ⟨_,_,⟨rfl,rfl⟩,bin⟩ | ⟨_,bin⟩
  · refine holds_silent bin ?_
    rw [if_pos rfl]
    exact markedLiteral_spec (by decide) (by decide) here
  refine holds_silent bin ?_
  rw [if_neg Bool.false_ne_true]
  rcases matchChar_spec (ch 'o') ⟨o+1,rest⟩ with ⟨_,_,⟨rfl,rfl⟩,oct⟩ | ⟨_,oct⟩
  · refine holds_silent oct ?_
    rw [if_pos rfl]
    exact markedLiteral_spec (by decide) (by decide) here
  refine holds_silent oct ?_
  rw [if_neg Bool.false_ne_true]
  exact handleDecimalLiteral_spec here moves_cons (List.cons_ne_nil _ _)

theorem onNonzero_spec (here : At x.source ⟨o,b :: rest⟩) : Holds onNonzero ⟨o,b :: rest⟩ (Stepped x ⟨o,b :: rest⟩) :=
  holds_silent getOffsetAndAdvance_run (handleDecimalLiteral_spec here moves_cons (List.cons_ne_nil _ _))

theorem onDot_spec (here : At x.source ⟨o,ch '.' :: rest⟩) : Holds onDot ⟨o,ch '.' :: rest⟩ (Stepped x ⟨o,ch '.' :: rest⟩) := by
  refine holds_silent getOffsetAndAdvance_run (holds_bind (consumeDigitSequence_spec isDecimalDigit rfl (Nat.le_succ o)) ?_)
  rintro length c' _ ⟨rfl,digits,blanks,passed,blank,size⟩
  simp only at size
  obtain ⟨digitsMoved,blanksMoved⟩ := moves_split passed
  have whole : Moves ⟨o,ch '.' :: rest⟩ (ch '.' :: digits) _ := moves_cons.trans digitsMoved
  have trailing : Lexed x _ c' [] := .blank (here.moves whole) blanksMoved blank
  have all : Moves ⟨o,ch '.' :: rest⟩ (ch '.' :: (digits ++ blanks)) c' := moves_cons.trans passed
  have progress : o < c'.offset := moved_on all (List.cons_ne_nil _ _)
  by_cases float : length > 1
  · rw [if_pos float]
    have literal : Lexed x ⟨o,ch '.' :: rest⟩ _ [.token (.make .floatLiteral o length)] :=
      .variable here whole (List.cons_ne_nil _ _) (by decide) (by rw [List.length_cons]; omega) rfl
    exact holds_tell ⟨literal.trans trailing,progress⟩
  · rw [if_neg float]
    obtain rfl : digits = [] := List.eq_nil_of_length_eq_zero (by omega)
    have dot : Lexed x ⟨o,ch '.' :: rest⟩ _ [.token (.fixed .dot o)] :=
      .fixed here whole (by decide) (List.cons_ne_nil _ _) rfl rfl
    exact holds_tell ⟨dot.trans trailing,progress⟩

-- With the flag a comment is a token; without it, it is left out.
theorem putComment_spec {kind : TokenKind} (here : At x.source c) (moved : Moves c crossed c') (some_ : crossed ≠ [])
    (notEnd : kind ≠ .endOfFile) {log : List Event} (quiet : tokensOf log = []) :
    Holds (putComment x kind c.offset) c' (fun u c'' more => Stepped x c u c'' (log ++ more)) := by
  refine holds_ite (fun _ => holds_silent currentOffset_run (putWord here moved some_ notEnd quiet)) fun without => ?_
  refine holds_pure ⟨?_,moved_on moved some_⟩
  exact .tile .comment here moved some_ (by simpa [LabelSound] using without) (by simp [quiet,Label.tokenOf])
    (fun _ absurd => by cases absurd)

theorem onSlash_spec (here : At x.source ⟨o,ch '/' :: rest⟩) :
    Holds (onSlash x) ⟨o,ch '/' :: rest⟩ (Stepped x ⟨o,ch '/' :: rest⟩) := by
  have first : Moves ⟨o,ch '/' :: rest⟩ [ch '/'] ⟨o+1,rest⟩ := moves_cons
  refine holds_silent getOffsetAndAdvance_run ?_
  rcases matchChar_spec (ch '/') ⟨o+1,rest⟩ with ⟨_,_,⟨rfl,rfl⟩,line⟩ | ⟨_,line⟩
  · refine holds_silent line ?_
    rw [if_pos rfl]
    refine holds_bind (consumeLineComment_spec _) ?_
    rintro _ c' log ⟨crossed,moved,_,quiet⟩
    exact putComment_spec here (first.trans (moves_cons.trans moved)) (by simp) (by decide) quiet
  refine holds_silent line ?_
  rw [if_neg Bool.false_ne_true]
  rcases matchChar_spec (ch '*') ⟨o+1,rest⟩ with ⟨_,_,⟨rfl,rfl⟩,block⟩ | ⟨_,block⟩
  · refine holds_silent block ?_
    rw [if_pos rfl]
    refine holds_bind (consumeBlockComment_spec here.fits here.inside _) ?_
    rintro _ c' log ⟨crossed,moved,quiet⟩
    exact putComment_spec here (first.trans (moves_cons.trans moved)) (by simp) (by decide) quiet
  refine holds_silent block ?_
  rw [if_neg Bool.false_ne_true]
  rcases matchChar_spec (ch '=') ⟨o+1,rest⟩ with ⟨_,_,⟨rfl,rfl⟩,assign⟩ | ⟨_,assign⟩
  · refine holds_silent assign ?_
    rw [if_pos rfl]
    have moved : Moves ⟨o,ch '/' :: ch '=' :: _⟩ [ch '/',ch '='] _ := first.trans moves_cons
    exact holds_tell ⟨.fixed here moved (by decide) (List.cons_ne_nil _ _) rfl rfl,moved_on moved (List.cons_ne_nil _ _)⟩
  · refine holds_silent assign ?_
    rw [if_neg Bool.false_ne_true]
    exact holds_tell ⟨.fixed here first (by decide) (List.cons_ne_nil _ _) rfl rfl,Nat.lt_succ_self _⟩

theorem onQuote_spec {kind : TokenKind} (quote : UInt8) (notEnd : kind ≠ .endOfFile) (here : At x.source ⟨o,b :: rest⟩) :
    Holds (onQuote x kind quote) ⟨o,b :: rest⟩ (Stepped x ⟨o,b :: rest⟩) := by
  refine holds_silent getOffsetAndAdvance_run (holds_bind (quoteRounds_spec quote false (here.moves moves_cons)) ?_)
  rintro _ c' log ⟨crossed,moved,quiet⟩
  exact holds_silent currentOffset_run (putWord here (moves_cons.trans moved) (List.cons_ne_nil _ _) notEnd quiet)

theorem onOtherChar_spec (here : At x.source ⟨o,b :: rest⟩) :
    Holds (onOtherChar x b) ⟨o,b :: rest⟩ (Stepped x ⟨o,b :: rest⟩) := by
  refine holds_silent getOffsetAndAdvance_run
    (holds_bind (consumeMultibyteUtf8Char_spec isUtf8XidStartChar here.fits here.inside) ?_)
  rintro accepted c₁ log ⟨⟨crossed,moved,claimed⟩,reported⟩
  have first : Moves ⟨o,b :: rest⟩ (b :: crossed) c₁ := moves_cons.trans moved
  cases accepted with
  | true =>
    obtain rfl : log = [] := reported
    refine holds_bind (consumeWord_spec (here.moves first)) ?_
    rintro _ c' log ⟨more,moved',_,quiet⟩
    exact holds_silent currentOffset_run (putWord here (first.trans moved') (by simp) (by decide) quiet)
  | false =>
    obtain ⟨made,rfl,there⟩ := reported
    exact holds_pure ⟨.rejected here first there claimed,moved_on first (List.cons_ne_nil _ _)⟩

-- The handlers that the first byte of a token is dispatched to: what holds of each of
-- them holds of the dispatch.
structure Dispatched (x : Context) (b : UInt8) (P : Lexer Unit → Prop) : Prop where
  blank : isAsciiWhitespace b = true → P advance
  upper : ch 'A' ≤ b ∧ b ≤ ch 'Z' ∨ b = ch '_' → P (onAlphabetic x)
  lower : ch 'a' ≤ b ∧ b ≤ ch 'z' → P (keywordHandler x b)
  zero : b = ch '0' → P onZero
  nonzero : ch '1' ≤ b ∧ b ≤ ch '9' → P onNonzero
  single : ∀ kind, fixedText kind = some [b] → kind ≠ .endOfFile → P (onOneCharToken kind)
  operator : ∀ chain : MatchChain, chain.spelled [b] = true → P (onOperator chain)
  rightAngle : b = ch '>' → P onRightAngle
  dot : b = ch '.' → P onDot
  slash : b = ch '/' → P (onSlash x)
  string : b = ch '"' → P (onQuote x .stringLiteral (ch '"'))
  character : b = ch '\'' → P (onQuote x .charLiteral (ch '\''))
  other : P (onOtherChar x b)

theorem handle_dispatched {P : Lexer Unit → Prop} (each : Dispatched x b P) : P (handleNextCharacter x b) := by
  have choose : ∀ {p : Prop} [Decidable p] {m n : Lexer Unit}, (p → P m) → P n → P (if p then m else n) := by
    intro p _ m n yes no
    split
    · exact yes ‹p›
    · exact no
  unfold handleNextCharacter
  apply choose (fun blank => each.blank (by rcases blank with rfl | rfl | rfl | rfl | rfl | rfl <;> decide))
  apply choose each.upper
  apply choose each.lower
  apply choose each.zero
  apply choose each.nonzero
  -- one byte each
  apply choose (fun same => by subst same; exact each.single .lParen rfl (by decide))
  apply choose (fun same => by subst same; exact each.single .rParen rfl (by decide))
  apply choose (fun same => by subst same; exact each.single .lBracket rfl (by decide))
  apply choose (fun same => by subst same; exact each.single .rBracket rfl (by decide))
  apply choose (fun same => by subst same; exact each.single .lBrace rfl (by decide))
  apply choose (fun same => by subst same; exact each.single .rBrace rfl (by decide))
  apply choose (fun same => by subst same; exact each.single .comma rfl (by decide))
  apply choose (fun same => by subst same; exact each.single .semicolon rfl (by decide))
  apply choose (fun same => by subst same; exact each.single .caret rfl (by decide))
  -- the operators
  apply choose (fun same => by subst same; exact each.operator leftAngleChain (by decide))
  apply choose each.rightAngle
  apply choose each.dot
  apply choose (fun same => by subst same; exact each.operator colonChain (by decide))
  apply choose (fun same => by subst same; exact each.operator equalsChain (by decide))
  apply choose (fun same => by subst same; exact each.operator plusChain (by decide))
  apply choose (fun same => by subst same; exact each.operator minusChain (by decide))
  apply choose (fun same => by subst same; exact each.operator starChain (by decide))
  apply choose each.slash
  apply choose (fun same => by subst same; exact each.operator percentChain (by decide))
  apply choose (fun same => by subst same; exact each.operator ampersandChain (by decide))
  apply choose (fun same => by subst same; exact each.operator pipeChain (by decide))
  apply choose (fun same => by subst same; exact each.operator tildeChain (by decide))
  apply choose (fun same => by subst same; exact each.operator bangChain (by decide))
  apply choose each.string
  apply choose each.character
  exact each.other

theorem handleNextCharacter_spec (here : At x.source ⟨o,b :: rest⟩) :
    Holds (handleNextCharacter x b) ⟨o,b :: rest⟩ (Stepped x ⟨o,b :: rest⟩) := by
  apply handle_dispatched (P := fun handler => Holds handler ⟨o,b :: rest⟩ (Stepped x ⟨o,b :: rest⟩))
  constructor
  case blank =>
    intro white
    exact ⟨(),_,_,advance_run,.blank here moves_cons (Blank.nil.cons white),Nat.lt_succ_self _⟩
  case upper => exact fun _ => onAlphabetic_spec here
  case lower => exact fun _ => keywordHandler_spec here
  case zero => exact fun _ => onZero_spec here
  case nonzero => exact fun _ => onNonzero_spec here
  case single => exact fun kind spelled notEnd => onOneCharToken_spec spelled notEnd here
  case operator => exact fun chain spelled => onOperator_spec spelled here
  case rightAngle =>
    rintro rfl
    exact onRightAngle_spec here
  case dot =>
    rintro rfl
    exact onDot_spec here
  case slash =>
    rintro rfl
    exact onSlash_spec here
  case string => exact fun _ => onQuote_spec _ (by decide) here
  case character => exact fun _ => onQuote_spec _ (by decide) here
  case other => exact onOtherChar_spec here
end Handlers

-- How the main loop ends: at the end of the source or on a null byte, which is
-- then reported.
def Ended (x : Context) (c : SourceCursor) (late : List Event) : Prop :=
  (c.rest = [] ∧ late = []) ∨
    ∃ rest made, c.rest = 0 :: rest ∧ late = [.report made] ∧ ReportAt x c.offset .invalidCharacter made

section Source
variable {x : Context} {c : SourceCursor}

theorem sourceRounds_spec (here : At x.source c) :
    Holds (loop (sourceRound x) ()) c (fun _ c' log => Lexed x c c' log ∧ c'.front = 0) := by
  refine holds_loop (fun _ c => At x.source c) (fun _ c _ c' log => Lexed x c c' log ∧ c'.front = 0) ?_ here
  rintro ⟨⟩ c here
  refine holds_silent peek_run ?_
  refine holds_ite (fun atNull => holds_pure ⟨.refl,atNull⟩) fun some_ => ?_
  obtain ⟨o,_ | ⟨b,rest⟩⟩ := c
  · exact absurd front_nil some_
  refine holds_bind (handleNextCharacter_spec here) ?_
  rintro ⟨⟩ c' log ⟨lexed,progress⟩
  have there := lexed.at_ here
  refine holds_pure ⟨there,?_,?_⟩
  · have before := here.length
    have after := there.length
    simp only at before progress ⊢
    omega
  · rintro _ c'' more ⟨later,atNull⟩
    exact ⟨by simpa using lexed.trans later,atNull⟩

theorem handleSource_spec (here : At x.source c) :
    Holds (handleSource x) c (fun _ c' log => ∃ early late, log = early ++ late ∧ Lexed x c c' early ∧ Ended x c' late) := by
  refine holds_bind (sourceRounds_spec here) ?_
  rintro ⟨⟩ c' log ⟨lexed,atNull⟩
  have there := lexed.at_ here
  refine holds_silent valid_run ?_
  obtain ⟨o,_ | ⟨b,rest⟩⟩ := c'
  · exact holds_pure ⟨log,[],rfl,lexed,.inl ⟨rfl,rfl⟩⟩
  · obtain rfl : b = 0 := atNull
    obtain ⟨made,ran,reported⟩ : ∃ made, report x .invalidCharacter o [.number 0] ⟨o,0 :: rest⟩ =
        .ok ⟨.ok (),⟨o,0 :: rest⟩,[.report made]⟩ ∧ ReportAt x o .invalidCharacter made :=
      report_run there.fits there.inside rfl
    rw [if_pos (by simp)]
    exact holds_silent currentOffset_run ⟨_,_,_,ran,log,[.report made],rfl,lexed,.inr ⟨rest,made,rfl,rfl,reported⟩⟩

theorem run_spec (fits : x.source.text.length ≤ sourceSizeMax) :
    Holds (run x) (.start x.source) (fun _ c' log => ∃ early late,
      log = early ++ late ++ [.token (.fixed .endOfFile c'.offset)] ∧ Lexed x (.start x.source) c' early ∧ Ended x c' late) := by
  rw [run,if_pos fits]
  refine holds_bind (handleSource_spec (.start fits)) ?_
  rintro ⟨⟩ c' _ ⟨early,late,rfl,lexed,ended⟩
  exact holds_silent currentOffset_run (holds_tell ⟨early,late,rfl,lexed,ended⟩)
end Source

-- The byte at `i` belongs to a character that was rejected and reported.
def RejectedAt (source : SourceView) (tabSize : UInt8) (reports : List Report) (i : Nat) : Prop :=
  ∃ start lead, source.text[start]? = some lead ∧ start ≤ i ∧ i < start + characterLength lead ∧
    ∃ made ∈ reports, made.message = .invalidCharacter ∧ source.locate start tabSize = .ok made.location

-- The byte at `i` is one of the text of `t`.
def Spans (source : SourceView) (t : Token) (i : Nat) : Prop :=
  ∃ w, t.getText source = .ok w ∧ t.offset.toNat ≤ i ∧ i < t.offset.toNat + w.length

-- The tokens before the end of the file, and the end of the file, against the source.
structure Tokenized (source : SourceView) (tabSize : UInt8) (tokens : List Token) (last : Token)
    (reports : List Report) : Prop where
  last_kind : last.kind = .endOfFile
  other_kinds : ∀ t ∈ tokens, t.kind ≠ .endOfFile
  texts : ∀ t ∈ tokens, ∃ w, t.getText source = .ok w ∧ 0 < w.length ∧
    (source.text.drop t.offset.toNat).take w.length = w ∧ t.offset.toNat + w.length ≤ source.text.length
  increasing : tokens.Pairwise (fun s t => s.offset.toNat < t.offset.toNat)
  disjoint : tokens.Pairwise (fun s t => ∀ i, Spans source s i → ¬ Spans source t i)
  bounded : (tokens ++ [last]).length ≤ source.text.length + 1
  covered : ∀ i < last.offset.toNat, (∃ t ∈ tokens, Spans source t i) ∨
    (∃ b, source.text[i]? = some b ∧ isAsciiWhitespace b = true) ∨ RejectedAt source tabSize reports i
  ended : last.offset.toNat = source.text.length ∨ (source.text[last.offset.toNat]? = some 0 ∧
    ∃ made ∈ reports, made.message = .invalidCharacter ∧ source.locate last.offset.toNat tabSize = .ok made.location)

section Reading
variable {x : Context} {tile : Tile Label} {t : Token} {i : Nat} {tiles : List (Tile Label)} {n : Nat}

theorem slice_size (sound : TileSound x tile) : ((x.source.text.drop tile.start).take tile.size).length = tile.size := by
  have inside := sound.1
  rw [Tile.stop] at inside
  rw [List.length_take,List.length_drop]
  omega

theorem slice_get (sound : TileSound x tile) (contains : tile.Contains i) :
    ∃ b ∈ (x.source.text.drop tile.start).take tile.size, x.source.text[i]? = some b := by
  obtain ⟨after,before⟩ := contains
  rw [Tile.stop] at before
  have inside : i - tile.start < ((x.source.text.drop tile.start).take tile.size).length := by
    rw [slice_size sound]
    omega
  have place : tile.start + (i - tile.start) = i := by omega
  have read := List.getElem?_eq_getElem inside
  rw [List.getElem?_take_of_lt (by omega),List.getElem?_drop,place] at read
  exact ⟨_,List.getElem_mem inside,read⟩

theorem token_tile (sound : TileSound x tile) (put : tile.label.tokenOf = some t) :
    t.kind ≠ .endOfFile ∧ t.offset.toNat = tile.start ∧
      t.getText x.source = .ok ((x.source.text.drop tile.start).take tile.size) := by
  obtain ⟨inside,label⟩ := sound
  cases same : tile.label with
  | token put' =>
    rw [same] at put label
    cases put
    exact label
  | blank => rw [same] at put; cases put
  | comment => rw [same] at put; cases put
  | rejected made => rw [same] at put; cases put

-- The text of a token is the part of the source that its tile covers.
theorem Lexed.token_read {c c' : SourceCursor} {log : List Event} (lexed : Lexed x c c' log) (member : t ∈ tokensOf log) :
    t.kind ≠ .endOfFile ∧ ∃ w, t.getText x.source = .ok w ∧ 0 < w.length ∧ (x.source.text.drop t.offset.toNat).take w.length = w ∧
      t.offset.toNat + w.length ≤ x.source.text.length ∧ t.offset.toNat + w.length ≤ c'.offset := by
  obtain ⟨_,tiles,_,tiled,sound,put,_⟩ := lexed
  rw [put] at member
  obtain ⟨tile,among,same⟩ := List.mem_filterMap.mp member
  obtain ⟨notEnd,offset,text⟩ := token_tile (sound tile among) same
  have size := slice_size (sound tile among)
  obtain ⟨positive,_,behind⟩ := tiled.inside tile among
  have inside := (sound tile among).1
  rw [Tile.stop] at inside behind
  refine ⟨notEnd,_,text,?_⟩
  rw [size,offset]
  exact ⟨positive,rfl,inside,behind⟩

theorem token_spans (sound : TileSound x tile) (put : tile.label.tokenOf = some t) :
    Spans x.source t i ↔ tile.Contains i := by
  obtain ⟨_,offset,text⟩ := token_tile sound put
  constructor
  · rintro ⟨w,read,after,before⟩
    rw [text] at read
    cases read
    rw [slice_size sound] at before
    exact ⟨by omega,by rw [Tile.stop]; omega⟩
  · rintro ⟨after,before⟩
    rw [Tile.stop] at before
    exact ⟨_,text,by omega,by rw [slice_size sound]; omega⟩

theorem tile_covers {reports : List Report} (emit : x.flags.emitComments = true) (sound : TileSound x tile) (contains : tile.Contains i)
    (reported : ∀ made, tile.label.reportOf = some made → made ∈ reports) :
    (∃ t, tile.label.tokenOf = some t ∧ Spans x.source t i) ∨
      (∃ b, x.source.text[i]? = some b ∧ isAsciiWhitespace b = true) ∨ RejectedAt x.source x.tabSize reports i := by
  cases same : tile.label with
  | token t =>
    have put : tile.label.tokenOf = some t := by rw [same]; rfl
    exact .inl ⟨t,rfl,(token_spans sound put).mpr contains⟩
  | blank =>
    obtain ⟨b,member,read⟩ := slice_get sound contains
    have blank := sound.2
    rw [same] at blank
    exact .inr (.inl ⟨b,read,blank b member⟩)
  | comment =>
    have without := sound.2
    rw [same] at without
    exact absurd (emit.symm.trans without) (by decide)
  | rejected made =>
    have label := sound.2
    rw [same] at label
    obtain ⟨there,lead,more,crossed,claimed⟩ := label
    have size := slice_size sound
    rw [size] at claimed
    rw [crossed] at size
    obtain ⟨after,before⟩ := contains
    rw [Tile.stop] at before
    refine .inr (.inr ⟨tile.start,lead,?_,after,by omega,made,reported made (by rw [same]; rfl),there⟩)
    have first : ((x.source.text.drop tile.start).take tile.size)[0]? = some lead := by rw [crossed]; rfl
    rw [List.getElem?_take_of_lt (by rw [← size]; exact Nat.succ_pos _),List.getElem?_drop] at first
    exact first
end Reading

theorem tokens_well {x : Context} {c : SourceCursor} {early late : List Event} (emit : x.flags.emitComments = true)
    (fits : x.source.text.length ≤ sourceSizeMax) (lexed : Lexed x (.start x.source) c early) (ended : Ended x c late) :
    Tokenized x.source x.tabSize (tokensOf early) (.fixed .endOfFile c.offset) (reportsOf (early ++ late)) := by
  have there : At x.source c := lexed.at_ (.start fits)
  have read := fun (t : Token) (member : t ∈ tokensOf early) => lexed.token_read member
  obtain ⟨crossed,tiles,moved,tiled,sound,put,reported⟩ := lexed
  have stop : (Token.fixed .endOfFile c.offset).offset.toNat = c.offset := offset_exact there .endOfFile 0
  have before : tiles.Pairwise (fun s t => s.stop ≤ t.start ∧ TileSound x s ∧ TileSound x t ∧ 0 < s.size) :=
    tiled.disjoint.imp_of_mem fun first second order =>
      ⟨order,sound _ first,sound _ second,(tiled.inside _ first).1⟩
  refine ⟨rfl,fun t member => (read t member).1,?_,?_,?_,?_,?_,?_⟩
  · intro t member
    obtain ⟨_,w,text,positive,slice,inside,_⟩ := read t member
    exact ⟨w,text,positive,slice,inside⟩
  · rw [put]
    refine before.filterMap _ fun s t order u sameU v sameV => ?_
    obtain ⟨order,soundS,soundT,positive⟩ := order
    rw [(token_tile soundS sameU).2.1,(token_tile soundT sameV).2.1]
    rw [Tile.stop] at order
    omega
  · rw [put]
    refine before.filterMap _ fun s t order u sameU v sameV i inFirst inSecond => ?_
    obtain ⟨order,soundS,soundT,_⟩ := order
    have first := ((token_spans soundS sameU).mp inFirst).2
    have second := ((token_spans soundT sameV).mp inSecond).1
    omega
  · have count := tiled.length
    have few : (tokensOf early).length ≤ tiles.length := by
      rw [put]
      exact List.length_filterMap_le _ _
    have inside := there.inside
    rw [List.length_append,List.length_singleton]
    simp only [SourceCursor.start] at count
    omega
  · intro i inside
    rw [stop] at inside
    obtain ⟨tile,member,contains⟩ := tiled.covers (Nat.zero_le i) inside
    have made : ∀ made, tile.label.reportOf = some made → made ∈ reportsOf (early ++ late) := by
      intro made same
      rw [reportsOf_append]
      exact List.mem_append_left _ (reported made (List.mem_filterMap.mpr ⟨tile,member,same⟩))
    rcases tile_covers emit (sound tile member) contains made with ⟨t,same,spans⟩ | other
    · refine .inl ⟨t,?_,spans⟩
      rw [put]
      exact List.mem_filterMap.mpr ⟨tile,member,same⟩
    · exact .inr other
  · rw [stop]
    have size := there.length
    rcases ended with ⟨empty,_⟩ | ⟨rest,made,front,rfl,message,located⟩
    · rw [empty,List.length_nil] at size
      exact .inl size
    · refine .inr ⟨?_,made,?_,message,located⟩
      · have first : c.rest[0]? = some 0 := by rw [front]; rfl
        rw [there.rest,List.getElem?_drop] at first
        exact first
      · rw [reportsOf_append]
        exact List.mem_append_right _ (List.mem_singleton.mpr rfl)

-- Every byte of a source of admitted size is in the text of exactly one token, is
-- whitespace, or belongs to a character that is reported.
theorem lexer_tiles (source : SourceView) (tabSize : UInt8) (fits : source.text.length ≤ sourceSizeMax) :
    ∃ tokens last reports, runLexer source ⟨true⟩ tabSize = .ok (tokens ++ [last],reports) ∧
      Tokenized source tabSize tokens last reports := by
  obtain ⟨_,c,_,ran,early,late,rfl,lexed,ended⟩ := run_spec (x := ⟨source,⟨true⟩,tabSize⟩) fits
  have quiet : tokensOf late = [] := by
    rcases ended with ⟨_,rfl⟩ | ⟨_,_,_,rfl,_⟩ <;> rfl
  refine ⟨tokensOf early,.fixed .endOfFile c.offset,reportsOf (early ++ late),?_,tokens_well rfl fits lexed ended⟩
  rw [runLexer,ran,map_ok]
  simp [quiet]
  rfl

theorem lexer_tiles_sum : ∃ tokens last reports,
    runLexer ⟨text "a+ 1 /* */",""⟩ ⟨true⟩ 4 = .ok (tokens ++ [last],reports) ∧
      Tokenized ⟨text "a+ 1 /* */",""⟩ 4 tokens last reports := lexer_tiles _ _ (by decide +kernel)
end Cero.Lexer
