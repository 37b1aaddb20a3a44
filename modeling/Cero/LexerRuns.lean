import Cero.BlockComments
import Cero.LexerTexts
import Cero.Utf8Chars

-- What the scanning loops do on a text that is followed by something that ends it.
namespace Cero.Lexer
open Effect SourceCursor

section Dispatch
variable {x : Context} {b : UInt8}

theorem notBlank_of {b : UInt8} (letter : isAsciiIdentifierChar b = true) :
    ¬ (b = ch ' ' ∨ b = ch '\t' ∨ b = ch '\n' ∨ b = 0x0b ∨ b = 0x0c ∨ b = ch '\r') := by
  rintro (rfl | rfl | rfl | rfl | rfl | rfl) <;> exact absurd letter (by decide)

theorem handle_upper (upper : ch 'A' ≤ b ∧ b ≤ ch 'Z' ∨ b = ch '_') : handleNextCharacter x b = onAlphabetic x := by
  have letter : isAsciiIdentifierChar b = true := by
    rcases upper with ⟨low,high⟩ | rfl
    · simp [isAsciiIdentifierChar] at low high ⊢
      simp [low,high]
    · decide
  rw [handleNextCharacter,if_neg (notBlank_of letter),if_pos upper]

theorem upper_notLower (upper : ch 'A' ≤ b ∧ b ≤ ch 'Z' ∨ b = ch '_') : ¬ (ch 'a' ≤ b ∧ b ≤ ch 'z') := by
  rintro ⟨low,_⟩
  rcases upper with ⟨_,high⟩ | rfl
  · exact absurd (UInt8.le_trans low high) (by decide)
  · exact absurd low (by decide)

theorem handle_lower (lower : ch 'a' ≤ b ∧ b ≤ ch 'z') : handleNextCharacter x b = keywordHandler x b := by
  have letter : isAsciiIdentifierChar b = true := by
    simp [isAsciiIdentifierChar] at lower ⊢
    simp [lower]
  have notUpper : ¬ (ch 'A' ≤ b ∧ b ≤ ch 'Z' ∨ b = ch '_') := fun upper => upper_notLower upper lower
  rw [handleNextCharacter,if_neg (notBlank_of letter),if_neg notUpper,if_pos lower]

theorem handle_high (high : isAscii b = false) : handleNextCharacter x b = onOtherChar x b := by
  have other : ∀ {c : UInt8}, isAscii c = true → (b = c) = False := by
    intro c ascii
    refine eq_false ?_
    rintro rfl
    exact absurd (high.symm.trans ascii) (by decide)
  have above : ∀ {c : UInt8}, c < 0x80 → (b ≤ c) = False := by
    intro c small
    exact eq_false fun below => not_ascii high (UInt8.lt_of_le_of_lt below small)
  simp (disch := decide) only [handleNextCharacter,other,above,and_false,or_false,if_false]
end Dispatch

section Digits
variable {digit : UInt8 → Bool} {o offset : Nat} {u blanks rest : Bytes}

theorem skipWhitespace_run (some_ : blanks ≠ []) (blank : Blank blanks)
    (stops : isAsciiWhitespace (front ⟨o,rest⟩) = false) :
    skipWhitespace ⟨o,blanks ++ rest⟩ = .ok ⟨.ok (front ⟨o,rest⟩),⟨o+blanks.length,rest⟩,[]⟩ := by
  induction blanks generalizing o with
  | nil => exact absurd rfl some_
  | cons b blanks ih =>
    cases blanks with
    | nil =>
      refine loop_leave ?_
      rw [whitespaceRound,List.cons_append,bind_ok advance_run,bind_ok peek_run]
      rw [show front ⟨o+1,[] ++ rest⟩ = front ⟨o,rest⟩ from rfl,if_neg (by rw [stops]; decide)]
      rfl
    | cons d blanks =>
      have later := ih (o := o+1) (List.cons_ne_nil _ _) (fun c member => blank c (List.mem_cons_of_mem _ member)) stops
      have round : whitespaceRound () ⟨o,b :: d :: blanks ++ rest⟩ = .ok ⟨.ok (.inl ()),⟨o+1,d :: blanks ++ rest⟩,[]⟩ := by
        rw [whitespaceRound,List.cons_append,bind_ok advance_run,bind_ok peek_run]
        rw [show front ⟨o+1,d :: blanks ++ rest⟩ = d from rfl,if_pos (blank d (by simp))]
        rfl
      have again := loop_again round (Nat.lt_succ_self _) later
      rw [show o + (b :: d :: blanks).length = o + 1 + (d :: blanks).length by simp only [List.length_cons]; omega]
      exact again

-- Where a sequence of digits ends: nothing that could go on stands behind the
-- whitespace that follows it.
def Stops (digit : UInt8 → Bool) (rest : Bytes) : Prop :=
  digit (front ⟨0,rest⟩) = false ∧ isAsciiWhitespace (front ⟨0,rest⟩) = false

theorem digitRound_digit {b : UInt8} (nonzero : digit 0 = false) (is : digit b = true) :
    digitRound digit offset () ⟨o,b :: rest⟩ = .ok ⟨.ok (.inl ()),⟨o+1,rest⟩,[]⟩ := by
  have notNull : b ≠ 0 := by
    rintro rfl
    rw [nonzero] at is
    cases is
  rw [digitRound,bind_ok peek_run,front_cons,if_neg notNull,if_pos is,bind_ok advance_run]
  rfl

theorem digitRound_blank {c : SourceCursor} (blank : isAsciiWhitespace c.front = true) (other : digit c.front = false)
    {d : UInt8} {c' : SourceCursor} (skipped : skipWhitespace c = .ok ⟨.ok d,c',[]⟩) :
    digitRound digit offset () c = (do
      if digit d then
        advance
        return .inl ()
      else return .inr (some (c.offset - offset)) : Lexer (Unit ⊕ Option Nat)) c' := by
  have notNull : c.front ≠ 0 := fun same => by
    rw [same] at blank
    cases blank
  rw [digitRound,bind_ok peek_run,if_neg notNull,if_neg (by rw [other]; decide),if_neg (by rw [blank]; decide),
    bind_ok currentOffset_run,bind_ok skipped]
  simp only [map_after_nil]

theorem digitRound_stop {c : SourceCursor} (digitFree : digit c.front = false) (blankFree : isAsciiWhitespace c.front = false) :
    digitRound digit offset () c = .ok ⟨.ok (.inr none),c,[]⟩ := by
  rw [digitRound,bind_ok peek_run]
  by_cases atNull : c.front = 0
  · rw [if_pos atNull]
    rfl
  · rw [if_neg atNull,if_neg (by rw [digitFree]; decide),if_pos (by rw [blankFree]; decide)]
    rfl

theorem digitLoop_run (nonzero : digit 0 = false) (apart : ∀ b, isAsciiWhitespace b = true → digit b = false)
    (digits : DigitTail digit u) (blank : Blank blanks) (stops : Stops digit rest) :
    loop (digitRound digit offset) () ⟨o,u ++ (blanks ++ rest)⟩ =
      .ok ⟨.ok (if blanks = [] then none else some (o + u.length - offset)),⟨o + u.length + blanks.length,rest⟩,[]⟩ := by
  induction digits generalizing o with
  | nil =>
    cases blanks with
    | nil => exact loop_leave (digitRound_stop stops.1 stops.2)
    | cons b blanks =>
      have skipped := skipWhitespace_run (o := o) (List.cons_ne_nil b blanks) blank stops.2
      have first : isAsciiWhitespace b = true := blank b List.mem_cons_self
      have none_ : ¬ digit (front ⟨o,rest⟩) = true := fun is => by
        rw [show digit (front ⟨o,rest⟩) = false from stops.1] at is
        cases is
      refine loop_leave ?_
      rw [List.nil_append,digitRound_blank (by exact first) (by exact apart b first) skipped,if_neg none_]
      rfl
  | @digit b u is _ ih =>
    have again := loop_again (digitRound_digit nonzero is) (Nat.lt_succ_self _) (ih (o := o+1))
    rw [List.cons_append,again,List.length_cons]
    simp only [List.nil_append]
    rw [Nat.add_right_comm o 1,Nat.add_assoc o u.length 1]
  | @spaced spaces b u some_ spacesBlank is _ ih =>
    have notBlank : isAsciiWhitespace b = false := by
      by_contra blankB
      rw [apart b (by simpa using blankB)] at is
      cases is
    have skipped : skipWhitespace ⟨o,spaces ++ b :: (u ++ (blanks ++ rest))⟩ =
        .ok ⟨.ok b,⟨o+spaces.length,b :: (u ++ (blanks ++ rest))⟩,[]⟩ := skipWhitespace_run some_ spacesBlank notBlank
    have first : isAsciiWhitespace (front ⟨o,spaces ++ b :: (u ++ (blanks ++ rest))⟩) = true := by
      obtain ⟨space,spaces,rfl⟩ := List.exists_cons_of_ne_nil some_
      exact spacesBlank space List.mem_cons_self
    have round : digitRound digit offset () ⟨o,spaces ++ b :: (u ++ (blanks ++ rest))⟩ =
        .ok ⟨.ok (.inl ()),⟨o+spaces.length+1,u ++ (blanks ++ rest)⟩,[]⟩ := by
      rw [digitRound_blank first (apart _ first) skipped,if_pos is,bind_ok advance_run]
      rfl
    have shorter : (u ++ (blanks ++ rest)).length < (spaces ++ b :: (u ++ (blanks ++ rest))).length := by
      simp only [List.length_append,List.length_cons]
      omega
    have again := loop_again round shorter (ih (o := o+spaces.length+1))
    rw [List.append_assoc,List.cons_append,again,List.length_append,List.length_cons]
    simp only [List.nil_append]
    rw [show o + spaces.length + 1 + u.length = o + (spaces.length + (u.length + 1)) by omega]

theorem consumeDigits_run (nonzero : digit 0 = false) (apart : ∀ b, isAsciiWhitespace b = true → digit b = false)
    (digits : DigitTail digit u) (blank : Blank blanks) (stops : Stops digit rest) :
    consumeDigitSequence digit offset ⟨o,u ++ (blanks ++ rest)⟩ =
      .ok ⟨.ok (o + u.length - offset),⟨o + u.length + blanks.length,rest⟩,[]⟩ := by
  rw [consumeDigitSequence,bind_ok (digitLoop_run nonzero apart digits blank stops)]
  cases blanks <;> rfl
end Digits

section Words
variable {x : Context} {o : Nat} {c : Char} {lead : UInt8} {more u rest : Bytes}

theorem consumeTrailing_run (i utf8Char : Nat) : consumeTrailing more.length i utf8Char ⟨o,more ++ rest⟩ =
    .ok ⟨.ok (packed utf8Char i more),⟨o+more.length,rest⟩,[]⟩ := by
  induction more generalizing o i utf8Char with
  | nil => rfl
  | cons b more ih =>
    rw [List.length_cons,consumeTrailing,List.cons_append,bind_ok next_run,ih,Nat.add_right_comm,← Nat.add_assoc]
    rfl

theorem consumeMultibyteUtf8Char_run {utf8Predicate : Nat → Bool} (encoded : Encoded c lead more)
    (accepted : utf8Predicate (packed lead.toNat 1 more) = true) (offset : Nat) :
    consumeMultibyteUtf8Char x lead offset utf8Predicate ⟨o,more ++ rest⟩ = .ok ⟨.ok true,⟨o+more.length,rest⟩,[]⟩ := by
  have several := encoded.several
  have all : consumeTrailing more.length 1 lead.toNat ⟨o,more ++ rest⟩ =
      .ok ⟨.ok (packed lead.toNat 1 more),⟨o+more.length,rest⟩,[]⟩ := consumeTrailing_run 1 lead.toNat
  rw [consumeMultibyteUtf8Char]
  simp only [encoded.ones]
  rw [if_pos ⟨several.1,several.2⟩,Nat.add_sub_cancel,bind_ok all,if_pos accepted]
  rfl

-- Bytes that continue a name.
inductive WordTail : Bytes → Prop where
  | nil : WordTail []
  | ascii {b : UInt8} {rest : Bytes} : isAsciiIdentifierChar b = true → WordTail rest → WordTail (b :: rest)
  | multibyte {c : Char} {lead : UInt8} {more rest : Bytes} : Encoded c lead more →
      isUtf8XidContinueChar (packed lead.toNat 1 more) = true → WordTail rest → WordTail (lead :: (more ++ rest))

-- Nothing behind the name continues it.
def WordEnds (rest : Bytes) : Prop := isAsciiIdentifierChar (front ⟨0,rest⟩) = false ∧ isAscii (front ⟨0,rest⟩) = true

theorem consumeWord_run (word : WordTail u) (ends : WordEnds rest) :
    consumeWord x ⟨o,u ++ rest⟩ = .ok ⟨.ok (),⟨o+u.length,rest⟩,[]⟩ := by
  induction word generalizing o with
  | nil =>
    refine loop_leave ?_
    rw [wordRound,bind_ok peek_run]
    have plain : ¬ isAsciiIdentifierChar (front ⟨o,[] ++ rest⟩) = true := fun is => by
      rw [show isAsciiIdentifierChar (front ⟨o,[] ++ rest⟩) = false from ends.1] at is
      cases is
    by_cases atNull : front ⟨o,[] ++ rest⟩ = 0
    · rw [if_pos atNull]
      rfl
    · rw [if_neg atNull,if_neg plain,if_pos (show isAscii (front ⟨o,[] ++ rest⟩) = true from ends.2)]
      rfl
  | @ascii b u is _ ih =>
    have notNull : b ≠ 0 := by
      rintro rfl
      exact absurd is (by decide)
    have round : wordRound x () ⟨o,b :: (u ++ rest)⟩ = .ok ⟨.ok (.inl ()),⟨o+1,u ++ rest⟩,[]⟩ := by
      rw [wordRound,bind_ok peek_run,front_cons,if_neg notNull,if_pos is,bind_ok advance_run]
      rfl
    have again := loop_again round (Nat.lt_succ_self _) (ih (o := o+1))
    rw [List.cons_append,List.length_cons,Nat.add_comm u.length,← Nat.add_assoc]
    exact again
  | @multibyte c lead more u encoded accepted _ ih =>
    have notNull : lead ≠ 0 := by
      rintro rfl
      exact absurd encoded.high (by decide)
    have plain : ¬ isAsciiIdentifierChar lead = true := fun is => by
      have table : ∀ n : Fin 256, isAsciiIdentifierChar ⟨⟨n⟩⟩ = true → isAscii ⟨⟨n⟩⟩ = true := by decide +kernel
      exact absurd (encoded.high.symm.trans (table lead.toFin is)) (by decide)
    have round : wordRound x () ⟨o,lead :: (more ++ (u ++ rest))⟩ = .ok ⟨.ok (.inl ()),⟨o+1+more.length,u ++ rest⟩,[]⟩ := by
      rw [wordRound,bind_ok peek_run,front_cons,if_neg notNull,if_neg plain,if_neg (by rw [encoded.high]; decide),
        bind_ok getOffsetAndAdvance_run,bind_ok (consumeMultibyteUtf8Char_run encoded accepted o)]
      rfl
    have shorter : (u ++ rest).length < (lead :: (more ++ (u ++ rest))).length := by
      simp only [List.length_cons,List.length_append]
      omega
    have again := loop_again round shorter (ih (o := o+1+more.length))
    rw [List.cons_append,List.append_assoc,List.length_cons,List.length_append]
    rw [show o + (more.length + u.length + 1) = o + 1 + more.length + u.length by omega]
    exact again

theorem ascii_char (low : c.toNat < 0x80) : String.utf8EncodeChar c = [UInt8.ofNat c.toNat] := by
  have value : c.val.toNat = c.toNat := rfl
  simp only [String.utf8EncodeChar,value]
  rw [if_pos (by omega)]

-- A name holds no null byte.
theorem WordTail.nonzero (word : WordTail u) : ∀ b ∈ u, b ≠ 0 := by
  induction word with
  | nil => simp
  | ascii is _ ih =>
    refine List.forall_mem_cons.mpr ⟨?_,ih⟩
    rintro rfl
    exact absurd is (by decide)
  | multibyte encoded _ _ ih =>
    refine List.forall_mem_cons.mpr ⟨?_,List.forall_mem_append.mpr ⟨encoded.nonzero,ih⟩⟩
    rintro rfl
    exact absurd encoded.high (by decide)
end Words

section Literals
variable {x : Context} {o : Nat} {quote b : UInt8} {u rest : Bytes}

theorem quoteRound_open {c : UInt8} (notNull : c ≠ 0) (notNewline : c ≠ ch '\n') (ignoreQuote : Bool) :
    quoteRound x quote ignoreQuote ⟨o,c :: rest⟩ =
      (if c = ch '\\' then return .inl (!ignoreQuote)
        else if c = quote ∧ ignoreQuote = false then return .inr ()
        else if ignoreQuote then return .inl false
        else return .inl ignoreQuote : Lexer (Bool ⊕ Unit)) ⟨o+1,rest⟩ := by
  rw [quoteRound,bind_ok peek_run,front_cons,if_neg notNull,if_neg notNewline,bind_ok advance_run]
  simp only [map_after_nil]

-- What may stand behind a text that is not a number: the end, or a new line.
def LineEnds (rest : Bytes) : Prop := rest = [] ∨ ∃ later, rest = ch '\n' :: later

-- What stops a line comment; a null byte does so too.
def LineStops (rest : Bytes) : Prop := front ⟨0,rest⟩ = 0 ∨ front ⟨0,rest⟩ = ch '\n'

theorem LineEnds.stops (ends : LineEnds rest) : LineStops rest := by
  rcases ends with rfl | ⟨later,rfl⟩
  · exact .inl rfl
  · exact .inr rfl

theorem consumeLineComment_run (line : ∀ b ∈ u, b ≠ ch '\n' ∧ b ≠ 0) (stops : LineStops rest) :
    consumeLineComment ⟨o,u ++ rest⟩ = .ok ⟨.ok (),⟨o+u.length,rest⟩,[]⟩ := by
  induction u generalizing o with
  | nil =>
    refine loop_leave ?_
    rw [lineCommentRound,bind_ok peek_run]
    by_cases atNull : front ⟨o,[] ++ rest⟩ = 0
    · rw [if_pos atNull]
      rfl
    · have newline : front ⟨o,[] ++ rest⟩ = ch '\n' := stops.resolve_left atNull
      rw [if_neg atNull,if_pos newline]
      rfl
  | cons b u ih =>
    obtain ⟨notNewline,notNull⟩ := line b List.mem_cons_self
    have round : lineCommentRound () ⟨o,b :: (u ++ rest)⟩ = .ok ⟨.ok (.inl ()),⟨o+1,u ++ rest⟩,[]⟩ := by
      rw [lineCommentRound,bind_ok peek_run,front_cons,if_neg notNull,if_neg notNewline,bind_ok advance_run]
      rfl
    have again := loop_again round (Nat.lt_succ_self _) (ih (o := o+1) fun c member => line c (List.mem_cons_of_mem _ member))
    rw [List.cons_append,List.length_cons,Nat.add_comm u.length,← Nat.add_assoc]
    exact again

section Comments
variable {depth : Nat} {a : UInt8}

end Comments
end Literals
end Cero.Lexer
