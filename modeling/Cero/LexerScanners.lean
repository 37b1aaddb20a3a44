import Cero.LexerRules

-- What each scanning loop of the lexer passes over, from any cursor of a source.
namespace Cero.Lexer
open Effect SourceCursor

-- The bytes that a lead byte claims for its character.
def characterLength (lead : UInt8) : Nat := if countlOne lead ≥ 2 ∧ countlOne lead ≤ 4 then countlOne lead else 1

-- From `c` to `c'` over bytes with `P`, without putting a token.
def Passes (P : Bytes → Prop) (c c' : SourceCursor) (log : List Event) : Prop :=
  ∃ crossed, Moves c crossed c' ∧ P crossed ∧ tokensOf log = []

theorem moves_cons {o : Nat} {b : UInt8} {rest : Bytes} : Moves ⟨o,b :: rest⟩ [b] ⟨o+1,rest⟩ := ⟨rfl,rfl⟩

theorem Passes.refl {P : Bytes → Prop} {c : SourceCursor} (empty : P []) : Passes P c c [] := ⟨[],.refl c,empty,rfl⟩

theorem Passes.cons {P : Bytes → Prop} {o : Nat} {b : UInt8} {rest : Bytes} {c' : SourceCursor} {log : List Event}
    (extend : ∀ crossed, P crossed → P (b :: crossed)) (later : Passes P ⟨o+1,rest⟩ c' log) : Passes P ⟨o,b :: rest⟩ c' log := by
  obtain ⟨crossed,moved,passed,quiet⟩ := later
  exact ⟨b :: crossed,moves_cons.trans moved,extend crossed passed,quiet⟩

theorem moves_shorter {c c' : SourceCursor} {crossed : Bytes} (moved : Moves c crossed c') (some_ : crossed ≠ []) :
    c'.rest.length < c.rest.length := by
  have positive := List.length_pos_iff.mpr some_
  rw [moved.length]
  omega

theorem consumeTrailing_spec (rounds i utf8Char : Nat) (c : SourceCursor) :
    Holds (consumeTrailing rounds i utf8Char) c
      (fun _ c' log => log = [] ∧ ∃ crossed, Moves c crossed c' ∧ crossed.length ≤ rounds) := by
  induction rounds generalizing i utf8Char c with
  | zero => exact holds_pure ⟨rfl,[],.refl c,Nat.le_refl _⟩
  | succ rounds ih =>
    obtain ⟨o,_ | ⟨b,rest⟩⟩ := c
    · refine holds_silent next_end (holds_weaken (ih _ _ _) ?_)
      rintro _ c' _ ⟨rfl,crossed,moved,size⟩
      exact ⟨rfl,crossed,moved,Nat.le_succ_of_le size⟩
    · refine holds_silent next_run (holds_weaken (ih _ _ _) ?_)
      rintro _ c' _ ⟨rfl,crossed,moved,size⟩
      exact ⟨rfl,b :: crossed,moves_cons.trans moved,Nat.succ_le_succ size⟩

section Character
variable {x : Context} {lead : UInt8} {offset : Nat} {c : SourceCursor}

theorem reject_spec (utf8Char : Nat) (fits : x.source.text.length ≤ sourceSizeMax)
    (inside : offset ≤ x.source.text.length) :
    Holds (do report x .invalidCharacter offset [.number utf8Char]; return false) c
      (fun r c' log => r = false ∧ c' = c ∧ ∃ made, log = [.report made] ∧ ReportAt x offset .invalidCharacter made) := by
  obtain ⟨made,ran,there⟩ : ∃ made, report x .invalidCharacter offset [.number utf8Char] c =
      .ok ⟨.ok (),c,[.report made]⟩ ∧ ReportAt x offset .invalidCharacter made := report_run fits inside rfl
  exact holds_step ran (holds_pure ⟨rfl,rfl,made,rfl,there⟩)

-- A character that is accepted leaves no report; one that is rejected is reported
-- where it begins. Either way its lead byte claims what it consumes.
theorem consumeMultibyteUtf8Char_spec (utf8Predicate : Nat → Bool) (fits : x.source.text.length ≤ sourceSizeMax)
    (inside : offset ≤ x.source.text.length) :
    Holds (consumeMultibyteUtf8Char x lead offset utf8Predicate) c (fun accepted c' log =>
      (∃ crossed, Moves c crossed c' ∧ crossed.length < characterLength lead) ∧
        (if accepted then log = [] else ∃ made, log = [.report made] ∧ ReportAt x offset .invalidCharacter made)) := by
  rw [consumeMultibyteUtf8Char]
  by_cases multi : countlOne lead ≥ 2 ∧ countlOne lead ≤ 4
  · rw [if_pos multi]
    refine holds_bind (consumeTrailing_spec _ _ _ _) ?_
    rintro utf8Char c' _ ⟨rfl,crossed,moved,size⟩
    have claimed : crossed.length < characterLength lead := by
      rw [characterLength,if_pos multi]
      omega
    cases utf8Predicate utf8Char with
    | true => exact holds_pure ⟨⟨crossed,moved,claimed⟩,rfl⟩
    | false =>
      refine holds_weaken (reject_spec utf8Char fits inside) ?_
      rintro _ c'' _ ⟨rfl,rfl,made,rfl,there⟩
      exact ⟨⟨crossed,moved,claimed⟩,made,rfl,there⟩
  · rw [if_neg multi]
    refine holds_weaken (reject_spec lead.toNat fits inside) ?_
    rintro _ c'' _ ⟨rfl,rfl,made,rfl,there⟩
    exact ⟨⟨[],.refl _,by rw [characterLength,if_neg multi]; decide⟩,made,rfl,there⟩
end Character

-- A null byte within a word stands behind a byte that is not ASCII.
def NullsCovered (crossed : Bytes) : Prop := 0 ∉ crossed.takeWhile (· < 0x80)

theorem nullsCovered_ascii {b : UInt8} {crossed : Bytes} (nonzero : b ≠ 0) (covered : NullsCovered crossed) :
    NullsCovered (b :: crossed) := by
  rw [NullsCovered,List.takeWhile_cons]
  split
  · simp only [List.mem_cons,not_or]
    exact ⟨Ne.symm nonzero,covered⟩
  · exact List.not_mem_nil

theorem not_ascii {b : UInt8} (high : isAscii b = false) : ¬ b < 0x80 := by
  have table : ∀ n : Fin 256, isAscii ⟨⟨n⟩⟩ = false → ¬ (⟨⟨n⟩⟩ : UInt8) < 0x80 := by decide +kernel
  exact table b.toFin high

theorem nullsCovered_high {b : UInt8} (crossed : Bytes) (high : isAscii b = false) : NullsCovered (b :: crossed) := by
  rw [NullsCovered,List.takeWhile_cons_of_neg (by simpa using not_ascii high)]
  exact List.not_mem_nil

theorem consumeWord_spec {x : Context} {c : SourceCursor} (here : At x.source c) :
    Holds (consumeWord x) c (fun _ c' log => Passes NullsCovered c c' log) := by
  refine holds_loop (fun _ c => At x.source c) (fun _ c _ c' log => Passes NullsCovered c c' log) ?_ here
  rintro ⟨⟩ ⟨o,rest⟩ here
  refine holds_silent peek_run ?_
  cases rest with
  | nil => exact holds_pure (.refl List.not_mem_nil)
  | cons b rest =>
    rw [front_cons]
    by_cases atNull : b = 0
    · rw [if_pos atNull]
      exact holds_pure (.refl List.not_mem_nil)
    rw [if_neg atNull]
    have next : At x.source ⟨o+1,rest⟩ := here.moves moves_cons
    by_cases plain : isAsciiIdentifierChar b = true
    · rw [if_pos plain]
      refine holds_silent advance_run (holds_pure ⟨next,Nat.lt_succ_self _,?_⟩)
      intro _ c'' more later
      exact .cons (fun _ => nullsCovered_ascii atNull) later
    rw [if_neg plain]
    by_cases ascii : isAscii b = true
    · rw [if_pos ascii]
      exact holds_pure (.refl List.not_mem_nil)
    rw [if_neg ascii]
    have high : isAscii b = false := by simpa using ascii
    refine holds_silent getOffsetAndAdvance_run (holds_bind (consumeMultibyteUtf8Char_spec _ here.fits here.inside) ?_)
    rintro accepted c' log ⟨⟨crossed,moved,_⟩,reported⟩
    cases accepted with
    | true =>
      refine holds_pure ⟨next.moves moved,?_,?_⟩
      · exact moves_shorter (moves_cons.trans moved) (List.cons_ne_nil _ _)
      · rintro _ c'' more ⟨crossed',moved',_,quiet⟩
        obtain rfl : log = [] := reported
        exact ⟨b :: (crossed ++ crossed'),moves_cons.trans (moved.trans moved'),nullsCovered_high _ high,by simpa using quiet⟩
    | false =>
      obtain ⟨made,rfl,_⟩ := reported
      exact holds_pure ⟨b :: crossed,moves_cons.trans moved,nullsCovered_high _ high,rfl⟩

-- A predicate that holds of the byte under the cursor holds of no end of the source.
theorem front_some {P : UInt8 → Bool} {c : SourceCursor} (notNull : P 0 = false) (holds : P c.front = true) :
    ∃ o b rest, c = ⟨o,b :: rest⟩ ∧ P b = true := by
  obtain ⟨o,_ | ⟨b,rest⟩⟩ := c
  · rw [front_nil,notNull] at holds
    cases holds
  · exact ⟨o,b,rest,rfl,holds⟩

def Blank (crossed : Bytes) : Prop := ∀ b ∈ crossed, isAsciiWhitespace b = true

theorem Blank.nil : Blank [] := by simp [Blank]

theorem Blank.cons {b : UInt8} {crossed : Bytes} (blank : isAsciiWhitespace b = true) (more : Blank crossed) :
    Blank (b :: crossed) := List.forall_mem_cons.mpr ⟨blank,more⟩

theorem skipWhitespace_spec {c : SourceCursor} (blank : isAsciiWhitespace c.front = true) :
    Holds skipWhitespace c (fun r c' log => log = [] ∧ r = c'.front ∧ ∃ crossed, Moves c crossed c' ∧ crossed ≠ [] ∧ Blank crossed) := by
  refine holds_loop (fun _ c => isAsciiWhitespace c.front = true) (fun _ c r c' log =>
    log = [] ∧ r = c'.front ∧ ∃ crossed, Moves c crossed c' ∧ crossed ≠ [] ∧ Blank crossed) ?_ blank
  rintro ⟨⟩ c blank
  obtain ⟨o,b,rest,rfl,blank⟩ := front_some (P := isAsciiWhitespace) rfl blank
  refine holds_silent advance_run (holds_silent peek_run ?_)
  by_cases again : isAsciiWhitespace (SourceCursor.front ⟨o+1,rest⟩) = true
  · rw [if_pos again]
    refine holds_pure ⟨again,Nat.lt_succ_self _,?_⟩
    rintro r c'' _ ⟨rfl,at_,crossed,moved,_,blanks⟩
    exact ⟨rfl,at_,b :: crossed,moves_cons.trans moved,List.cons_ne_nil _ _,blanks.cons blank⟩
  · rw [if_neg again]
    exact holds_pure ⟨rfl,rfl,[b],moves_cons,List.cons_ne_nil _ _,Blank.cons blank .nil⟩

section Digits
variable {digitPredicate : UInt8 → Bool} {offset : Nat} {c : SourceCursor}

-- How the loop of `consume_digit_sequence` ends: with the length it found before
-- trailing whitespace, or right behind the sequence.
def DigitsEnd (offset : Nat) (c : SourceCursor) (early : Option Nat) (c' : SourceCursor) (log : List Event) : Prop :=
  log = [] ∧ ∃ digits blanks, Moves c (digits ++ blanks) c' ∧ Blank blanks ∧
    match early with
    | none => blanks = []
    | some length => offset + length = c.offset + digits.length

theorem DigitsEnd.after {early : Option Nat} {c c' c'' : SourceCursor} {crossed : Bytes} {log : List Event}
    (moved : Moves c crossed c') (later : DigitsEnd offset c' early c'' log) : DigitsEnd offset c early c'' log := by
  obtain ⟨quiet,digits,blanks,rest,blank,result⟩ := later
  refine ⟨quiet,crossed ++ digits,blanks,by rw [List.append_assoc]; exact moved.trans rest,blank,?_⟩
  cases early with
  | none => exact result
  | some length =>
    have start := moved.2
    simp only [List.length_append] at result ⊢
    omega

theorem digitRound_spec (notNull : digitPredicate 0 = false) (from_ : offset ≤ c.offset) :
    Holds (loop (digitRound digitPredicate offset) ()) c (DigitsEnd offset c) := by
  refine holds_loop (fun _ c => offset ≤ c.offset) (fun _ c early c' log => DigitsEnd offset c early c' log) ?_ from_
  rintro ⟨⟩ c from_
  refine holds_silent peek_run ?_
  have stay : DigitsEnd offset c none c [] := ⟨rfl,[],[],.refl c,by simp [Blank],rfl⟩
  by_cases atNull : c.front = 0
  · rw [if_pos atNull]
    exact holds_pure stay
  rw [if_neg atNull]
  by_cases digit : digitPredicate c.front = true
  · rw [if_pos digit]
    obtain ⟨o,b,rest,rfl,_⟩ := front_some notNull digit
    refine holds_silent advance_run (holds_pure ⟨Nat.le_succ_of_le from_,Nat.lt_succ_self _,?_⟩)
    intro early c'' more later
    exact later.after moves_cons
  rw [if_neg digit]
  by_cases blank : isAsciiWhitespace c.front = true
  · rw [if_neg (by simpa using blank)]
    refine holds_silent currentOffset_run (holds_bind (skipWhitespace_spec blank) ?_)
    rintro _ c' _ ⟨rfl,rfl,crossed,moved,nonempty,blanks⟩
    have shorter := moves_shorter moved nonempty
    by_cases more : digitPredicate c'.front = true
    · rw [if_pos more]
      obtain ⟨o,b,rest,rfl,_⟩ := front_some notNull more
      refine holds_silent advance_run (holds_pure ⟨?_,Nat.lt_of_succ_lt shorter,?_⟩)
      · have := moved.2
        simp only at this ⊢
        omega
      · intro early c'' log later
        exact later.after (moved.trans moves_cons)
    · rw [if_neg more]
      exact holds_pure ⟨rfl,[],crossed,moved,blanks,by simp; omega⟩
  · rw [if_pos (by simpa using blank)]
    exact holds_pure stay

-- Trailing whitespace is passed over and not counted.
theorem consumeDigitSequence_spec (digitPredicate : UInt8 → Bool) (notNull : digitPredicate 0 = false) (from_ : offset ≤ c.offset) :
    Holds (consumeDigitSequence digitPredicate offset) c (fun length c' log => log = [] ∧
      ∃ digits blanks, Moves c (digits ++ blanks) c' ∧ Blank blanks ∧ offset + length = c.offset + digits.length) := by
  refine holds_bind (digitRound_spec notNull from_) ?_
  rintro early c' _ ⟨rfl,digits,blanks,moved,blank,result⟩
  cases early with
  | none =>
    subst result
    refine holds_silent currentOffset_run (holds_pure ⟨rfl,digits,[],moved,blank,?_⟩)
    have := moved.2
    rw [List.append_nil] at this
    omega
  | some length => exact holds_pure ⟨rfl,digits,blanks,moved,blank,result⟩
end Digits

theorem consumeLineComment_spec (c : SourceCursor) :
    Holds consumeLineComment c (fun _ c' log => Passes (fun _ => True) c c' log) := by
  refine holds_loop (fun _ _ => True) (fun _ c _ c' log => Passes (fun _ => True) c c' log) ?_ trivial
  rintro ⟨⟩ ⟨o,rest⟩ _
  refine holds_silent peek_run ?_
  cases rest with
  | nil => exact holds_pure (.refl trivial)
  | cons b rest =>
    rw [front_cons]
    by_cases atNull : b = 0
    · rw [if_pos atNull]
      exact holds_pure (.refl trivial)
    rw [if_neg atNull]
    by_cases atNewline : b = ch '\n'
    · rw [if_pos atNewline]
      exact holds_pure (.refl trivial)
    rw [if_neg atNewline]
    refine holds_silent advance_run (holds_pure ⟨trivial,Nat.lt_succ_self _,?_⟩)
    intro _ c'' more later
    exact .cons (fun _ _ => trivial) later

theorem matchChar_spec (expected : UInt8) (c : SourceCursor) :
    (∃ o rest, c = ⟨o,expected :: rest⟩ ∧
        (matchChar expected : Lexer Bool) c = .ok ⟨.ok true,⟨o+1,rest⟩,[]⟩) ∨
      ((c.front ≠ expected ∨ c.rest = []) ∧ (matchChar expected : Lexer Bool) c = .ok ⟨.ok false,c,[]⟩) := by
  obtain ⟨o,_ | ⟨b,rest⟩⟩ := c
  · exact .inr ⟨.inr rfl,rfl⟩
  · by_cases same : b = expected
    · subst same
      exact .inl ⟨o,rest,rfl,matchChar_same⟩
    · exact .inr ⟨.inl same,matchChar_other (.inl same)⟩

-- With a byte left, a round of the block comment loop moves.
theorem blockCommentRound_moves (unclosedCount : UInt32) (o : Nat) (b : UInt8) (rest : Bytes) :
    Holds (blockCommentRound unclosedCount) ⟨o,b :: rest⟩ (fun _ c' log =>
      log = [] ∧ ∃ crossed, crossed ≠ [] ∧ Moves ⟨o,b :: rest⟩ crossed c') := by
  refine holds_silent valid_run ?_
  rw [if_neg (by simp)]
  rcases matchChar_spec (ch '*') ⟨o,b :: rest⟩ with ⟨_,_,⟨rfl,rfl⟩,star⟩ | ⟨_,star⟩
  · refine holds_silent star ?_
    rw [if_pos rfl]
    rcases matchChar_spec (ch '/') ⟨o+1,rest⟩ with ⟨_,rest,⟨rfl,rfl⟩,slash⟩ | ⟨_,slash⟩
    · refine holds_silent slash ?_
      rw [if_pos rfl]
      by_cases closed : unclosedCount - 1 = 0
      · rw [if_pos closed]
        exact holds_pure ⟨rfl,_,List.cons_ne_nil _ _,moves_cons.trans moves_cons⟩
      · rw [if_neg closed]
        exact holds_pure ⟨rfl,_,List.cons_ne_nil _ _,moves_cons.trans moves_cons⟩
    · refine holds_silent slash ?_
      rw [if_neg Bool.false_ne_true]
      exact holds_pure ⟨rfl,_,List.cons_ne_nil _ _,moves_cons⟩
  · refine holds_silent star ?_
    rw [if_neg Bool.false_ne_true]
    rcases matchChar_spec (ch '/') ⟨o,b :: rest⟩ with ⟨_,_,⟨rfl,rfl⟩,slash⟩ | ⟨_,slash⟩
    · refine holds_silent slash ?_
      rw [if_pos rfl]
      rcases matchChar_spec (ch '*') ⟨o+1,rest⟩ with ⟨_,rest,⟨rfl,rfl⟩,opened⟩ | ⟨_,opened⟩
      · refine holds_silent opened ?_
        rw [if_pos rfl]
        exact holds_pure ⟨rfl,_,List.cons_ne_nil _ _,moves_cons.trans moves_cons⟩
      · refine holds_silent opened ?_
        rw [if_neg Bool.false_ne_true]
        exact holds_pure ⟨rfl,_,List.cons_ne_nil _ _,moves_cons⟩
    · refine holds_silent slash ?_
      rw [if_neg Bool.false_ne_true]
      exact holds_silent advance_run (holds_pure ⟨rfl,_,List.cons_ne_nil _ _,moves_cons⟩)

theorem blockCommentRounds_spec (unclosedCount : UInt32) (c : SourceCursor) :
    Holds (loop blockCommentRound unclosedCount) c (fun _ c' log => log = [] ∧ ∃ crossed, Moves c crossed c') := by
  refine holds_loop (fun _ _ => True) (fun _ c _ c' log => log = [] ∧ ∃ crossed, Moves c crossed c') ?_ trivial
  rintro unclosedCount ⟨o,_ | ⟨b,rest⟩⟩ _
  · exact holds_silent valid_run (holds_pure ⟨rfl,[],.refl _⟩)
  · refine holds_weaken (blockCommentRound_moves unclosedCount o b rest) ?_
    rintro (next | closed) c' _ ⟨rfl,crossed,nonempty,moved⟩
    · refine ⟨trivial,moves_shorter moved nonempty,?_⟩
      rintro _ c'' _ ⟨rfl,crossed',moved'⟩
      exact ⟨rfl,crossed ++ crossed',moved.trans moved'⟩
    · exact ⟨rfl,crossed,moved⟩

theorem consumeBlockComment_spec {x : Context} {offset : Nat} (fits : x.source.text.length ≤ sourceSizeMax)
    (inside : offset ≤ x.source.text.length) (c : SourceCursor) :
    Holds (consumeBlockComment x offset) c (fun _ c' log => ∃ crossed, Moves c crossed c' ∧ tokensOf log = []) := by
  refine holds_bind (blockCommentRounds_spec 1 c) ?_
  rintro (_ | _) c' _ ⟨rfl,crossed,moved⟩
  · obtain ⟨made,ran,_⟩ : ∃ made, report x .unterminatedBlockComment offset [] c' = .ok ⟨.ok (),c',[.report made]⟩ ∧
        ReportAt x offset .unterminatedBlockComment made := report_run fits inside rfl
    exact ⟨(),c',_,ran,crossed,moved,rfl⟩
  · exact holds_pure ⟨crossed,moved,rfl⟩

-- A byte of a literal is passed over whatever its round makes of it.
theorem quoteRound_moves {x : Context} {quote b : UInt8} {o : Nat} {rest : Bytes} (ignoreQuote : Bool)
    (notNull : b ≠ 0) (notNewline : b ≠ ch '\n') :
    ∃ r, quoteRound x quote ignoreQuote ⟨o,b :: rest⟩ = .ok ⟨.ok r,⟨o+1,rest⟩,[]⟩ := by
  rw [quoteRound,bind_ok peek_run,front_cons,if_neg notNull,if_neg notNewline,bind_ok advance_run,map_after_nil]
  split
  · exact ⟨_,rfl⟩
  · split
    · exact ⟨_,rfl⟩
    · split <;> exact ⟨_,rfl⟩

theorem quoteRounds_spec {x : Context} {c : SourceCursor} (quote : UInt8) (ignoreQuote : Bool) (here : At x.source c) :
    Holds (loop (quoteRound x quote) ignoreQuote) c (fun _ c' log => ∃ crossed, Moves c crossed c' ∧ tokensOf log = []) := by
  refine holds_loop (fun _ c => At x.source c) (fun _ c _ c' log => ∃ crossed, Moves c crossed c' ∧ tokensOf log = []) ?_ here
  rintro ignoreQuote ⟨o,_ | ⟨b,rest⟩⟩ here
  · exact holds_silent peek_run (holds_pure ⟨[],.refl _,rfl⟩)
  by_cases atNull : b = 0
  · refine holds_silent peek_run ?_
    rw [front_cons,if_pos atNull]
    exact holds_pure ⟨[],.refl _,rfl⟩
  by_cases atNewline : b = ch '\n'
  · refine holds_silent peek_run ?_
    rw [front_cons,if_neg atNull,if_pos atNewline]
    obtain ⟨made,ran,_⟩ : ∃ made, report x .missingClosingQuote o [] ⟨o,b :: rest⟩ =
        .ok ⟨.ok (),⟨o,b :: rest⟩,[.report made]⟩ ∧ ReportAt x o .missingClosingQuote made :=
      report_run here.fits here.inside rfl
    exact holds_silent currentOffset_run (holds_step ran (holds_pure ⟨[],.refl _,rfl⟩))
  · obtain ⟨r,ran⟩ := quoteRound_moves ignoreQuote atNull atNewline
    refine ⟨r,_,_,ran,?_⟩
    cases r with
    | inl ignoring =>
      refine ⟨here.moves moves_cons,Nat.lt_succ_self _,?_⟩
      rintro _ c'' more ⟨crossed,moved,quiet⟩
      exact ⟨b :: crossed,moves_cons.trans moved,quiet⟩
    | inr _ => exact ⟨[b],moves_cons,rfl⟩
end Cero.Lexer
