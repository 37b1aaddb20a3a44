import Cero.Library.Course
import Cero.LexerTiling

-- Where the reports of the lexer point.
namespace Cero.Lexer
open Effect SourceCursor

-- Nothing is reported.
def silently : Course SourceCursor Event where
  goes _ log _ := reportsOf log = []
  stay _ := rfl
  onward first second := by rw [reportsOf_append,first,second]; rfl

-- Nor is anything passed over.
def standing : Course SourceCursor Event where
  goes c log c' := c' = c ∧ reportsOf log = []
  stay _ := ⟨rfl,rfl⟩
  onward first second := ⟨second.1.trans first.1,by rw [reportsOf_append,first.2,second.2]; rfl⟩

abbrev Silent {α : Type} (m : Lexer α) : Prop := Takes silently m
abbrev Still {α : Type} (m : Lexer α) : Prop := Takes standing m

theorem Still.silent {α : Type} {m : Lexer α} (still : Still m) : Silent m := fun c r c' log ran => (still c r c' log ran).2

section Primitives
theorem silent_peek : Silent peek := by
  intro c _ _ _ ran
  cases ran
  rfl

theorem silent_valid : Silent valid := by
  intro c _ _ _ ran
  cases ran
  rfl

theorem still_currentOffset : Still currentOffset := by
  intro c _ _ _ ran
  cases ran
  exact ⟨rfl,rfl⟩

theorem silent_currentOffset : Silent currentOffset := still_currentOffset.silent

theorem silent_advance : Silent advance := by
  rintro ⟨o,_ | ⟨b,rest⟩⟩ _ _ _ ran <;> cases ran
  rfl

theorem silent_matchChar (expected : UInt8) : Silent (matchChar expected) := by
  rintro ⟨o,_ | ⟨b,rest⟩⟩ _ _ _ ran
  · cases ran
    rfl
  · by_cases same : b = expected
    · subst same
      rw [matchChar_same] at ran
      cases ran
      rfl
    · rw [matchChar_not same] at ran
      cases ran
      rfl

theorem silent_getOffsetAndAdvance : Silent getOffsetAndAdvance :=
  takes_bind silent_currentOffset fun o => takes_bind silent_advance fun _ => takes_pure o

theorem still_put (t : Token) : Still (put t) := takes_tell fun _ => ⟨rfl,rfl⟩

theorem silent_put (t : Token) : Silent (put t) := (still_put t).silent

theorem still_putSince (kind : TokenKind) (offset : Nat) :
    Still (do let length := (← currentOffset) - offset; put (.make kind offset length)) :=
  takes_bind still_currentOffset fun _ => still_put _

theorem silent_loop {α β : Type} {body : α → Lexer (α ⊕ β)} (round : ∀ a, Silent (body a)) (a : α) : Silent (loop body a) :=
  fun c => takes_iterate round (c.rest.length+1) a c
end Primitives

section Handlers
variable {x : Context}

theorem silent_skipWhitespace : Silent skipWhitespace := by
  refine silent_loop (fun _ => takes_bind silent_advance fun _ => takes_bind silent_peek fun c => ?_) ()
  exact takes_ite (fun _ => takes_pure _) (fun _ => takes_pure _)

theorem silent_consumeDigitSequence (digitPredicate : UInt8 → Bool) (offset : Nat) :
    Silent (consumeDigitSequence digitPredicate offset) := by
  refine takes_bind (silent_loop (fun _ => takes_bind silent_peek fun c => ?_) ()) fun found => ?_
  · refine takes_ite (fun _ => takes_pure _) fun _ => ?_
    refine takes_ite (fun _ => takes_bind silent_advance fun _ => takes_pure _) fun _ => ?_
    refine takes_ite (fun _ => takes_pure _) fun _ => takes_bind silent_currentOffset fun stop => ?_
    refine takes_bind silent_skipWhitespace fun d => ?_
    exact takes_ite (fun _ => takes_bind silent_advance fun _ => takes_pure _) (fun _ => takes_pure _)
  · cases found with
    | none => exact takes_bind silent_currentOffset fun _ => takes_pure _
    | some length => exact takes_pure _

theorem silent_putBasedLiteral (kind : TokenKind) (digitPredicate : UInt8 → Bool) (offset : Nat) :
    Silent (putBasedLiteral kind digitPredicate offset) :=
  takes_bind (silent_consumeDigitSequence _ _) fun _ => silent_put _

theorem silent_handleDecimalLiteral (offset : Nat) : Silent (handleDecimalLiteral offset) := by
  refine takes_bind (silent_consumeDigitSequence _ _) fun length => takes_bind silent_peek fun c => ?_
  refine takes_ite (fun _ => ?_) (fun _ => silent_put _)
  refine takes_bind silent_getOffsetAndAdvance fun dotOffset => takes_bind (silent_consumeDigitSequence _ _) fun more => ?_
  exact takes_ite (fun _ => silent_put _) (fun _ => takes_bind (silent_put _) fun _ => silent_put _)

theorem silent_onZero : Silent onZero := by
  refine takes_bind silent_getOffsetAndAdvance fun offset => ?_
  refine takes_bind (silent_matchChar _) fun _ => takes_ite (fun _ => silent_putBasedLiteral _ _ _) fun _ => ?_
  refine takes_bind (silent_matchChar _) fun _ => takes_ite (fun _ => silent_putBasedLiteral _ _ _) fun _ => ?_
  refine takes_bind (silent_matchChar _) fun _ => takes_ite (fun _ => silent_putBasedLiteral _ _ _) fun _ => ?_
  exact silent_handleDecimalLiteral offset

theorem silent_onNonzero : Silent onNonzero := takes_bind silent_getOffsetAndAdvance fun offset => silent_handleDecimalLiteral offset

theorem silent_onDot : Silent onDot := by
  refine takes_bind silent_getOffsetAndAdvance fun offset => takes_bind (silent_consumeDigitSequence _ _) fun length => ?_
  exact takes_ite (fun _ => silent_put _) (fun _ => silent_put _)

theorem silent_onOneCharToken (kind : TokenKind) : Silent (onOneCharToken kind) :=
  takes_bind silent_getOffsetAndAdvance fun _ => silent_put _

theorem silent_chain (chain : MatchChain) (offset : Nat) : Silent (chain.run offset) := by
  induction chain with
  | put kind => exact silent_put _
  | ifMatch c matched other ih₁ ih₂ => exact takes_bind (silent_matchChar c) fun _ => takes_ite (fun _ => ih₁) (fun _ => ih₂)

theorem silent_onOperator (chain : MatchChain) : Silent (onOperator chain) :=
  takes_bind silent_getOffsetAndAdvance fun offset => silent_chain chain offset

theorem silent_onRightAngle : Silent onRightAngle := by
  refine takes_bind silent_getOffsetAndAdvance fun offset => takes_bind (silent_matchChar _) fun _ => ?_
  refine takes_ite (fun _ => takes_bind (silent_matchChar _) fun _ => ?_) (fun _ => takes_bind (silent_matchChar _) fun _ => ?_)
  · exact takes_ite (fun _ => silent_put _) (fun _ => takes_bind (silent_put _) fun _ => silent_put _)
  · exact takes_ite (fun _ => silent_put _) (fun _ => silent_put _)

theorem silent_consumeLineComment : Silent consumeLineComment := by
  refine silent_loop (fun _ => takes_bind silent_peek fun c => ?_) ()
  refine takes_ite (fun _ => takes_pure _) fun _ => ?_
  exact takes_ite (fun _ => takes_pure _) (fun _ => takes_bind silent_advance fun _ => takes_pure _)

theorem still_putComment (kind : TokenKind) (offset : Nat) : Still (putComment x kind offset) :=
  takes_ite (fun _ => still_putSince kind offset) (fun _ => takes_pure ())
end Handlers

-- At most one report is made on the way from `c` to `c'`. It points at a byte that is
-- passed over, or at the line end where a literal is broken off.
def Points (x : Context) (c c' : SourceCursor) (log : List Event) : Prop :=
  reportsOf log = [] ∨ ∃ made o, reportsOf log = [made] ∧ x.source.locate o x.tabSize = .ok made.location ∧ c.offset ≤ o ∧
    (o < c'.offset ∨ o = c'.offset ∧ c.offset < o ∧ c'.front = ch '\n')

section Points
variable {x : Context} {c₀ c c' c'' : SourceCursor} {b : UInt8} {o : Nat} {rest crossed : Bytes} {log more : List Event}

theorem points_silent {α : Type} {m : Lexer α} {r : Reply α} (silent : Silent m) (ran : m c = .ok ⟨r,c',log⟩) : Points x c c' log :=
  .inl (silent _ _ _ _ ran)

-- What is passed over in front of a report.
theorem Points.before (points : Points x c' c'' log) (moved : Moves c crossed c') : Points x c c'' log := by
  rcases points with quiet | ⟨made,o,reported,there,low,high⟩
  · exact .inl quiet
  · have offset := moved.2
    refine .inr ⟨made,o,reported,there,by omega,high.imp_right fun ⟨same,more,newline⟩ => ⟨same,by omega,newline⟩⟩

theorem consumeWord_points (here : At x.source c) :
    Holds (consumeWord x) c (fun _ c' log => (∃ crossed, Moves c crossed c') ∧ Points x c c' log) := by
  refine holds_loop (fun _ c => At x.source c) (fun _ c _ c' log => (∃ crossed, Moves c crossed c') ∧ Points x c c' log) ?_ here
  rintro ⟨⟩ ⟨o,rest⟩ here
  refine holds_silent peek_run ?_
  cases rest with
  | nil => exact holds_pure ⟨⟨[],.refl _⟩,.inl rfl⟩
  | cons b rest =>
    rw [front_cons]
    refine holds_ite (fun _ => holds_pure ⟨⟨[],.refl _⟩,.inl rfl⟩) fun _ => ?_
    have next : At x.source ⟨o+1,rest⟩ := here.moves moves_cons
    refine holds_ite (fun _ => ?_) fun _ => ?_
    · refine holds_silent advance_run (holds_pure ⟨next,Nat.lt_succ_self _,?_⟩)
      rintro _ c'' more ⟨⟨crossed,moved⟩,points⟩
      exact ⟨⟨_,moves_cons.trans moved⟩,points.before moves_cons⟩
    refine holds_ite (fun _ => holds_pure ⟨⟨[],.refl _⟩,.inl rfl⟩) fun _ => ?_
    refine holds_silent getOffsetAndAdvance_run (holds_bind (consumeMultibyteUtf8Char_spec _ here.fits here.inside) ?_)
    rintro accepted c' log ⟨⟨crossed,moved,_⟩,reported⟩
    have first : Moves ⟨o,b :: rest⟩ (b :: crossed) c' := moves_cons.trans moved
    cases accepted with
    | true =>
      obtain rfl : log = [] := reported
      refine holds_pure ⟨next.moves moved,moves_shorter first (List.cons_ne_nil _ _),?_⟩
      rintro _ c'' more ⟨⟨crossed',moved'⟩,points⟩
      exact ⟨⟨_,first.trans moved'⟩,points.before first⟩
    | false =>
      obtain ⟨made,rfl,_,there⟩ := reported
      refine holds_pure ⟨⟨_,first⟩,.inr ⟨made,o,rfl,there,Nat.le_refl _,.inl ?_⟩⟩
      exact moved_on first (List.cons_ne_nil _ _)

theorem holds_ran {α : Type} {m : Lexer α} {post : α → SourceCursor → List Event → Prop} {r : Reply α} (holds : Holds m c post)
    (ran : m c = .ok ⟨r,c',log⟩) : ∃ a, r = .ok a ∧ post a c' log := by
  obtain ⟨a,_,_,ran',established⟩ := holds
  obtain ⟨⟩ := ran.symm.trans ran'
  exact ⟨a,rfl,established⟩

-- What is behind the last step that moves changes nothing.
theorem points_still {α β : Type} {m : Lexer α} {f : α → Lexer β} {r : Reply β} (first : Holds m c fun _ c' log => Points x c₀ c' log)
    (second : ∀ a, Still (f a)) (ran : (m >>= f) c = .ok ⟨r,c',log⟩) : Points x c₀ c' log := by
  rcases bind_parts ran with ⟨thrown,_⟩ | ⟨a,c₁,earlier,later,ran₁,ran₂,rfl⟩
  · obtain ⟨_,⟨⟩,_⟩ := holds_ran first thrown
  · obtain ⟨_,⟨⟩,points⟩ := holds_ran first ran₁
    obtain ⟨rfl,quiet⟩ := second a c₁ r c' later ran₂
    rw [Points,reportsOf_append,quiet,List.append_nil]
    exact points

theorem word_points (here : At x.source c) : Holds (consumeWord x) c fun _ c' log => Points x c c' log :=
  holds_weaken (consumeWord_points here) fun _ _ _ result => result.2

theorem onAlphabetic_points {r : Reply Unit} (here : At x.source ⟨o,b :: rest⟩)
    (ran : onAlphabetic x ⟨o,b :: rest⟩ = .ok ⟨r,c',log⟩) : Points x ⟨o,b :: rest⟩ c' log := by
  rw [onAlphabetic,bind_ok getOffsetAndAdvance_run,map_after_nil] at ran
  exact (points_still (word_points (here.moves moves_cons)) (fun _ => still_putSince _ _) ran).before moves_cons

theorem onAlphabeticMaybeKeyword_points {r : Reply Unit} {tails : List KeywordTail} (here : At x.source ⟨o,b :: rest⟩)
    (ran : onAlphabeticMaybeKeyword x tails ⟨o,b :: rest⟩ = .ok ⟨r,c',log⟩) : Points x ⟨o,b :: rest⟩ c' log := by
  rw [onAlphabeticMaybeKeyword,bind_ok getOffsetAndAdvance_run,map_after_nil] at ran
  refine (points_still (word_points (here.moves moves_cons)) (fun _ => ?_) ran).before moves_cons
  refine takes_bind still_currentOffset fun _ => takes_ite (fun _ => ?_) (fun _ => still_put _)
  refine takes_bind (takes_ofExcept _) fun tail => ?_
  split <;> exact still_put _

theorem keywordHandler_points {r : Reply Unit} (here : At x.source ⟨o,b :: rest⟩)
    (ran : keywordHandler x b ⟨o,b :: rest⟩ = .ok ⟨r,c',log⟩) : Points x ⟨o,b :: rest⟩ c' log := by
  unfold keywordHandler at ran
  split at ran
  · exact onAlphabetic_points here ran
  · exact onAlphabeticMaybeKeyword_points here ran

theorem consumeBlockComment_points (fits : x.source.text.length ≤ sourceSizeMax) (inside : o ≤ x.source.text.length) (c : SourceCursor) :
    Holds (consumeBlockComment x o) c fun _ c' log => (∃ crossed, Moves c crossed c') ∧
      (reportsOf log = [] ∨ ∃ made, reportsOf log = [made] ∧ x.source.locate o x.tabSize = .ok made.location) := by
  refine holds_bind (blockCommentRounds_spec 1 c) ?_
  rintro (_ | _) c' _ ⟨rfl,moved⟩
  · obtain ⟨made,ran,_,there⟩ : ∃ made, report x .unterminatedBlockComment o [] c' = .ok ⟨.ok (),c',[.report made]⟩ ∧
        ReportAt x o .unterminatedBlockComment made := report_run fits inside rfl
    exact ⟨(),c',_,ran,moved,.inr ⟨made,rfl,there⟩⟩
  · exact holds_pure ⟨moved,.inl rfl⟩

theorem onSlash_points {r : Reply Unit} (here : At x.source ⟨o,b :: rest⟩)
    (ran : onSlash x ⟨o,b :: rest⟩ = .ok ⟨r,c',log⟩) : Points x ⟨o,b :: rest⟩ c' log := by
  rw [onSlash,bind_ok getOffsetAndAdvance_run,map_after_nil] at ran
  rcases matchChar_spec (ch '/') ⟨o+1,rest⟩ with ⟨_,_,_,line⟩ | ⟨_,line⟩
  · rw [bind_ok line,map_after_nil,if_pos rfl] at ran
    exact .inl (takes_bind silent_consumeLineComment (fun _ => (still_putComment _ _).silent) _ _ _ _ ran)
  rw [bind_ok line,map_after_nil,if_neg Bool.false_ne_true] at ran
  rcases matchChar_spec (ch '*') ⟨o+1,rest⟩ with ⟨_,_,⟨rfl,rfl⟩,block⟩ | ⟨_,block⟩
  · rw [bind_ok block,map_after_nil,if_pos rfl] at ran
    refine points_still (holds_weaken (consumeBlockComment_points here.fits here.inside _) ?_) (fun _ => still_putComment _ _) ran
    rintro _ c₁ log ⟨⟨crossed,moved⟩,quiet | ⟨made,reported,there⟩⟩
    · exact .inl quiet
    · have offset := moved.2
      exact .inr ⟨made,o,reported,there,Nat.le_refl _,.inl (by simp only at offset; omega)⟩
  rw [bind_ok block,map_after_nil,if_neg Bool.false_ne_true] at ran
  refine .inl (takes_bind (silent_matchChar _) (fun _ => ?_) _ _ _ _ ran)
  exact takes_ite (fun _ => silent_put _) (fun _ => silent_put _)

theorem quoteRounds_points (quote : UInt8) (here : At x.source c) : Holds (loop (quoteRound x quote) false) c fun _ c' log =>
    (∃ crossed, Moves c crossed c') ∧ (reportsOf log = [] ∨ ∃ made, reportsOf log = [made] ∧
      x.source.locate c'.offset x.tabSize = .ok made.location ∧ c'.front = ch '\n') := by
  refine holds_loop (fun _ c => At x.source c) (fun _ c _ c' log => (∃ crossed, Moves c crossed c') ∧
    (reportsOf log = [] ∨ ∃ made, reportsOf log = [made] ∧ x.source.locate c'.offset x.tabSize = .ok made.location ∧
      c'.front = ch '\n')) ?_ here
  rintro ignoreQuote ⟨o,_ | ⟨b,rest⟩⟩ here
  · exact holds_silent peek_run (holds_pure ⟨⟨[],.refl _⟩,.inl rfl⟩)
  by_cases atNull : b = 0
  · refine holds_silent peek_run ?_
    rw [front_cons,if_pos atNull]
    exact holds_pure ⟨⟨[],.refl _⟩,.inl rfl⟩
  by_cases atNewline : b = ch '\n'
  · refine holds_silent peek_run ?_
    rw [front_cons,if_neg atNull,if_pos atNewline]
    obtain ⟨made,ran,_,there⟩ : ∃ made, report x .missingClosingQuote o [] ⟨o,b :: rest⟩ =
        .ok ⟨.ok (),⟨o,b :: rest⟩,[.report made]⟩ ∧ ReportAt x o .missingClosingQuote made :=
      report_run here.fits here.inside rfl
    exact holds_silent currentOffset_run (holds_step ran (holds_pure ⟨⟨[],.refl _⟩,.inr ⟨made,rfl,there,atNewline⟩⟩))
  · obtain ⟨r,ran⟩ := quoteRound_moves ignoreQuote atNull atNewline
    refine ⟨r,_,_,ran,?_⟩
    cases r with
    | inl ignoring =>
      refine ⟨here.moves moves_cons,Nat.lt_succ_self _,?_⟩
      rintro _ c'' more ⟨⟨crossed,moved⟩,reported⟩
      exact ⟨⟨_,moves_cons.trans moved⟩,reported⟩
    | inr _ => exact ⟨⟨_,moves_cons⟩,.inl rfl⟩

theorem onQuote_points {r : Reply Unit} {kind : TokenKind} {quote : UInt8} (here : At x.source ⟨o,b :: rest⟩)
    (ran : onQuote x kind quote ⟨o,b :: rest⟩ = .ok ⟨r,c',log⟩) : Points x ⟨o,b :: rest⟩ c' log := by
  rw [onQuote,bind_ok getOffsetAndAdvance_run,map_after_nil] at ran
  refine points_still (holds_weaken (quoteRounds_points quote (here.moves moves_cons)) ?_) (fun _ => still_putSince _ _) ran
  rintro _ c₁ log ⟨⟨crossed,moved⟩,quiet | ⟨made,reported,there,newline⟩⟩
  · exact .inl quiet
  · have offset := moved.2
    exact .inr ⟨made,c₁.offset,reported,there,by simp only at offset ⊢; omega,.inr ⟨rfl,by simp only at offset ⊢; omega,newline⟩⟩

theorem onOtherChar_points {r : Reply Unit} (here : At x.source ⟨o,b :: rest⟩)
    (ran : onOtherChar x b ⟨o,b :: rest⟩ = .ok ⟨r,c',log⟩) : Points x ⟨o,b :: rest⟩ c' log := by
  rw [onOtherChar,bind_ok getOffsetAndAdvance_run,map_after_nil] at ran
  rcases bind_parts ran with ⟨thrown,_⟩ | ⟨accepted,c₁,earlier,later,ran₁,ran₂,rfl⟩
  · obtain ⟨_,⟨⟩,_⟩ := holds_ran (consumeMultibyteUtf8Char_spec _ here.fits here.inside) thrown
  obtain ⟨_,⟨⟩,⟨crossed,moved,_⟩,reported⟩ := holds_ran (consumeMultibyteUtf8Char_spec _ here.fits here.inside) ran₁
  have first : Moves ⟨o,b :: rest⟩ (b :: crossed) c₁ := moves_cons.trans moved
  cases accepted with
  | true =>
    obtain rfl : earlier = [] := reported
    exact (points_still (word_points (here.moves first)) (fun _ => still_putSince _ _) ran₂).before first
  | false =>
    obtain ⟨made,rfl,_,there⟩ := reported
    cases ran₂
    exact .inr ⟨made,o,rfl,there,Nat.le_refl _,.inl (moved_on first (List.cons_ne_nil _ _))⟩

theorem handle_points {r : Reply Unit} (here : At x.source ⟨o,b :: rest⟩)
    (ran : handleNextCharacter x b ⟨o,b :: rest⟩ = .ok ⟨r,c',log⟩) : Points x ⟨o,b :: rest⟩ c' log := by
  refine handle_dispatched (P := fun handler => handler ⟨o,b :: rest⟩ = .ok ⟨r,c',log⟩ → Points x ⟨o,b :: rest⟩ c' log) ?_ ran
  constructor
  case blank => exact fun _ => points_silent silent_advance
  case upper => exact fun _ => onAlphabetic_points here
  case lower => exact fun _ => keywordHandler_points here
  case zero => exact fun _ => points_silent silent_onZero
  case nonzero => exact fun _ => points_silent silent_onNonzero
  case single => exact fun kind _ _ => points_silent (silent_onOneCharToken kind)
  case operator => exact fun chain _ => points_silent (silent_onOperator chain)
  case rightAngle => exact fun _ => points_silent silent_onRightAngle
  case dot => exact fun _ => points_silent silent_onDot
  case slash => exact fun _ => onSlash_points here
  case string => exact fun _ => onQuote_points here
  case character => exact fun _ => onQuote_points here
  case other => exact onOtherChar_points here

theorem newline_silent {r : Reply Unit} (ran : handleNextCharacter x (ch '\n') c = .ok ⟨r,c',log⟩) : reportsOf log = [] :=
  silent_advance c r c' log ran
end Points

-- Where the reports on the way from `c` to `c'` point, one behind the other. A line
-- end that a literal was broken off at is passed over without a further report.
structure Rising (x : Context) (c c' : SourceCursor) (log : List Event) (os : List Nat) : Prop where
  moves : ∃ crossed, Moves c crossed c'
  located : List.Forall₂ (fun made o => x.source.locate o x.tabSize = .ok made.location) (reportsOf log) os
  increasing : os.Pairwise (· < ·)
  start : ∀ o ∈ os, c.offset ≤ o ∧ (o = c.offset → c.front ≠ ch '\n')
  stop : ∀ o ∈ os, o < c'.offset ∨ o = c'.offset ∧ c'.front = ch '\n'

section Rising
variable {x : Context} {c c' c'' : SourceCursor} {log more : List Event} {os us : List Nat}

theorem Rising.nil (c : SourceCursor) : Rising x c c [] [] :=
  ⟨⟨[],.refl c⟩,.nil,.nil,fun _ member => (by cases member),fun _ member => (by cases member)⟩

theorem moves_far {crossed : Bytes} (moved : Moves c crossed c') : c' = c ∨ c.offset < c'.offset := by
  cases crossed with
  | nil =>
    obtain ⟨rest,offset⟩ := moved
    cases c; cases c'
    simp_all
  | cons b crossed => exact .inr (moved_on moved (List.cons_ne_nil _ _))

theorem Rising.trans (first : Rising x c c' log os) (second : Rising x c' c'' more us) : Rising x c c'' (log ++ more) (os ++ us) := by
  obtain ⟨crossed,moved⟩ := first.moves
  obtain ⟨crossed',moved'⟩ := second.moves
  refine ⟨⟨_,moved.trans moved'⟩,?_,List.pairwise_append.mpr ⟨first.increasing,second.increasing,?_⟩,?_,?_⟩
  · rw [reportsOf_append]
    exact List.rel_append first.located second.located
  · intro o member u among
    obtain ⟨low,other⟩ := second.start u among
    rcases first.stop o member with less | ⟨rfl,newline⟩
    · exact Nat.lt_of_lt_of_le less low
    · exact Nat.lt_of_le_of_ne low fun same => other same.symm newline
  · intro o member
    rcases List.mem_append.mp member with here | there
    · exact first.start o here
    · obtain ⟨low,other⟩ := second.start o there
      rcases moves_far moved with rfl | further
      · exact ⟨low,other⟩
      · exact ⟨by omega,fun same => by omega⟩
  · intro o member
    rcases List.mem_append.mp member with here | there
    · rcases moves_far moved' with rfl | further
      · exact first.stop o here
      · exact .inl ((first.stop o here).elim (by omega) (by omega))
    · exact second.stop o there

theorem rising_handled {b : UInt8} {o : Nat} {rest : Bytes} {r : Reply Unit} (here : At x.source ⟨o,b :: rest⟩)
    (ran : handleNextCharacter x b ⟨o,b :: rest⟩ = .ok ⟨r,c',log⟩) : ∃ os, Rising x ⟨o,b :: rest⟩ c' log os := by
  obtain ⟨_,_,⟨crossed,_,moved,_⟩,_⟩ := holds_ran (handleNextCharacter_spec here) ran
  rcases handle_points here ran with quiet | ⟨made,u,reported,there,low,high⟩
  · refine ⟨[],⟨crossed,moved⟩,?_,.nil,fun _ member => (by cases member),fun _ member => (by cases member)⟩
    rw [quiet]
    exact .nil
  · refine ⟨[u],⟨crossed,moved⟩,?_,List.pairwise_singleton _ _,?_,?_⟩
    · rw [reported]
      exact .cons there .nil
    · rintro _ member
      obtain rfl := List.mem_singleton.mp member
      refine ⟨low,fun _ newline => ?_⟩
      obtain rfl : b = ch '\n' := newline
      have quiet := newline_silent ran
      rw [reported] at quiet
      cases quiet
    · rintro _ member
      obtain rfl := List.mem_singleton.mp member
      exact high.imp_right fun ⟨same,_,newline⟩ => ⟨same,newline⟩

theorem sourceRounds_rise (here : At x.source c) :
    Holds (loop (sourceRound x) ()) c (fun _ c' log => (∃ os, Rising x c c' log os) ∧ c'.front = 0) := by
  refine holds_loop (fun _ c => At x.source c) (fun _ c _ c' log => (∃ os, Rising x c c' log os) ∧ c'.front = 0) ?_ here
  rintro ⟨⟩ c here
  refine holds_silent peek_run ?_
  refine holds_ite (fun atNull => holds_pure ⟨⟨[],.nil c⟩,atNull⟩) fun some_ => ?_
  obtain ⟨o,_ | ⟨b,rest⟩⟩ := c
  · exact absurd front_nil some_
  obtain ⟨⟨⟩,c',log,ran,lexed,progress⟩ := handleNextCharacter_spec here
  obtain ⟨os,rising⟩ := rising_handled here ran
  have there := lexed.at_ here
  refine holds_step ran (holds_pure ⟨there,?_,?_⟩)
  · have before := here.length
    have after := there.length
    simp only at before progress ⊢
    omega
  · rintro _ c'' more ⟨⟨us,later⟩,atNull⟩
    exact ⟨⟨os ++ us,by simpa using rising.trans later⟩,atNull⟩

-- All the reports of a source, by where they point.
def Reported (x : Context) (log : List Event) : Prop :=
  ∃ os, List.Forall₂ (fun made o => x.source.locate o x.tabSize = .ok made.location) (reportsOf log) os ∧ os.Pairwise (· < ·) ∧
    ∀ o ∈ os, o ≤ x.source.text.length

theorem handleSource_rise (here : At x.source c) : Holds (handleSource x) c fun _ _ log => Reported x log := by
  refine holds_bind (sourceRounds_rise here) ?_
  rintro ⟨⟩ c' log ⟨⟨os,rising⟩,atNull⟩
  obtain ⟨crossed,moved⟩ := rising.moves
  have there := here.moves moved
  have bounded : ∀ o ∈ os, o ≤ x.source.text.length := by
    intro o member
    have inside := there.inside
    exact (rising.stop o member).elim (by omega) (by omega)
  refine holds_silent valid_run ?_
  obtain ⟨o,_ | ⟨b,rest⟩⟩ := c'
  · exact holds_pure ⟨os,by simpa using rising.located,rising.increasing,bounded⟩
  · obtain rfl : b = 0 := atNull
    obtain ⟨made,ran,_,at_⟩ : ∃ made, report x .invalidCharacter o [.number 0] ⟨o,0 :: rest⟩ =
        .ok ⟨.ok (),⟨o,0 :: rest⟩,[.report made]⟩ ∧ ReportAt x o .invalidCharacter made :=
      report_run there.fits there.inside rfl
    rw [if_pos (by simp)]
    refine holds_silent currentOffset_run ⟨_,_,_,ran,os ++ [o],?_,List.pairwise_append.mpr ⟨rising.increasing,List.pairwise_singleton _ _,?_⟩,?_⟩
    · rw [reportsOf_append]
      exact List.rel_append rising.located (.cons at_ .nil)
    · intro u member v last
      obtain rfl := List.mem_singleton.mp last
      rcases rising.stop u member with less | ⟨_,newline⟩
      · exact less
      · exact absurd (show (0 : UInt8) = ch '\n' from newline) (by decide)
    · exact List.forall_mem_append.mpr ⟨bounded,List.forall_mem_singleton.mpr there.inside⟩

theorem run_rise (fits : x.source.text.length ≤ sourceSizeMax) : Holds (run x) (.start x.source) fun _ _ log => Reported x log := by
  rw [run,if_pos fits]
  refine holds_bind (handleSource_rise (.start fits)) ?_
  rintro ⟨⟩ c' log ⟨os,located,ordered⟩
  have quiet : reportsOf (log ++ [.token (.fixed .endOfFile c'.offset)]) = reportsOf log :=
    (reportsOf_append _ _).trans (List.append_nil _)
  exact holds_silent currentOffset_run (holds_tell ⟨os,quiet ▸ located,ordered⟩)
end Rising
end Cero.Lexer
