import Cero.Library.Simulation
import Cero.LexerTiling
import Cero.Locations
import Cero.ParserLayout

-- What the lexer does with a text does not depend on the lines in front of it, and
-- its flag does nothing but leave the comments out.
namespace Cero

def CodeLocation.below (lines : Nat) (location : CodeLocation) : CodeLocation :=
  ⟨location.path,location.line + UInt32.ofNat lines,location.column⟩

def Report.below (lines : Nat) (made : Report) : Report := ⟨made.location.below lines,made.level,made.message,made.args⟩

theorem reporter_below (n : Nat) (location : CodeLocation) (message : Message) (args : MessageArgs) :
    Reporter.report (location.below n) message args = (Reporter.report location message args).map (Report.below n) := by
  unfold Reporter.report
  split <;> rfl

-- Nothing stands in front, or whole lines.
def WholeLines (front : Bytes) : Prop := front = [] ∨ ∃ u, front = u ++ [ch '\n']

section Lines
variable {front u : Bytes}

theorem currentLine_behind (whole : WholeLines front) : currentLine (front ++ u) = currentLine u := by
  induction u using List.reverseRecOn with
  | nil =>
    rcases whole with rfl | ⟨v,rfl⟩
    · rfl
    · rw [List.append_nil,currentLine_newline]
      rfl
  | append_singleton u b ih =>
    rw [← List.append_assoc]
    by_cases newline : b = ch '\n'
    · rw [newline,currentLine_newline,currentLine_newline]
    · rw [currentLine_other newline,currentLine_other newline,ih]

theorem lineOf_behind : lineOf (front ++ u) = lineOf u + front.count (ch '\n') := by
  unfold lineOf
  rw [List.count_append]
  omega
end Lines

theorem locate_behind {source source' : SourceView} {front : Bytes} (text : source'.text = front ++ source.text)
    (path : source'.path = source.path) (fits : source'.text.length ≤ sourceSizeMax) (whole : WholeLines front)
    (tabSize : UInt8) (offset : Nat) : ∃ location, source.locate offset tabSize = .ok location ∧
      source'.locate (front.length + offset) tabSize = .ok (location.below (front.count (ch '\n'))) := by
  have size : source'.text.length = front.length + source.text.length := by rw [text,List.length_append]
  obtain ⟨location,ran,here⟩ := locate_located tabSize (show source.text.length ≤ sourceSizeMax by omega) offset
  obtain ⟨location',ran',there⟩ := locate_located tabSize fits (front.length + offset)
  have before : source'.text.take (front.length + offset) = front ++ source.text.take offset := by
    rw [text,List.take_length_add_append]
  rw [before] at there
  refine ⟨location,ran,ran'.trans (congrArg Except.ok ?_)⟩
  have few := List.count_le_length (a := ch '\n') (l := front)
  have bound := lineOf_bound (front ++ source.text.take offset)
  have room : sourceSizeMax + 1 < 2 ^ 32 := by decide
  have short : (front ++ source.text.take offset).length ≤ sourceSizeMax := by
    rw [← before]
    exact Nat.le_trans (List.length_take_le' _ _) fits
  rw [lineOf_behind] at bound
  have line : location'.line = location.line + UInt32.ofNat (front.count (ch '\n')) := by
    rw [← UInt32.toNat_inj,UInt32.toNat_add,there.line,here.line,lineOf_behind,UInt32.toNat_ofNat']
    rw [Nat.mod_eq_of_lt (show front.count (ch '\n') < 2 ^ 32 by omega),Nat.mod_eq_of_lt (by omega)]
  have column : location'.column = location.column := by
    rw [← UInt32.toNat_inj,there.column,here.column]
    unfold columnOf
    rw [currentLine_behind whole]
  have named : location'.path = location.path := (there.path.trans path).trans here.path.symm
  rw [CodeLocation.below,← line,← column,← named]

namespace Lexer
open Effect SourceCursor Cero.Parser

def isComment (kind : TokenKind) : Bool := kind = .lineComment || kind = .blockComment

-- What becomes of an event behind `front`; without `emit` a comment is left out.
def Event.behind (front : Bytes) (emit : Bool) : Event → List Event
  | .token t => if isComment t.kind && !emit then [] else [.token ((Layout.shift front.length).token t)]
  | .report made => [.report (made.below (front.count (ch '\n')))]

def placement (front : Bytes) (emit : Bool) : Link SourceCursor SourceCursor Event Event where
  states c c' := c' = ⟨front.length + c.offset,c.rest⟩
  logs log log' := log' = log.flatMap (Event.behind front emit)
  silent := rfl
  append first second := by rw [first,second,List.flatMap_append]

-- The source of `x` is what stands behind `front` in the source of `x'`, which emits
-- comments only if `x` does.
structure Placed (front : Bytes) (x x' : Context) : Prop where
  text : x'.source.text = front ++ x.source.text
  path : x'.source.path = x.source.path
  tabSize : x'.tabSize = x.tabSize
  flags : x'.flags.emitComments = true → x.flags.emitComments = true
  fits : x'.source.text.length ≤ sourceSizeMax
  whole : WholeLines front

-- The second does behind `front` what the first does alone.
abbrev Follows {α β : Type} (front : Bytes) (emit : Bool) (values : α → β → Prop) (m : Lexer α) (n : Lexer β) : Prop :=
  Simulates (placement front emit) values m n

section Primitives
variable {front : Bytes} {emit : Bool}

theorem follows_done {α β : Type} {values : α → β → Prop} {a : α} {b : β} {c : SourceCursor} (same : values a b) :
    Agree (φ := Fault) (placement front emit) values (.ok ⟨.ok a,c,[]⟩) (.ok ⟨.ok b,⟨front.length + c.offset,c.rest⟩,[]⟩) :=
  .done (.ok same) rfl rfl

theorem follows_peek : Follows front emit Eq peek peek := by
  rintro c _ rfl
  exact follows_done rfl

theorem follows_valid : Follows front emit Eq valid valid := by
  rintro c _ rfl
  exact follows_done rfl

theorem follows_currentOffset : Follows front emit (fun o p => p = front.length + o) currentOffset currentOffset := by
  rintro c _ rfl
  exact follows_done rfl

theorem follows_next : Follows front emit Eq next next := by
  rintro ⟨o,_ | ⟨b,rest⟩⟩ _ rfl
  · exact follows_done rfl
  · exact follows_done (c := ⟨o+1,rest⟩) rfl

theorem follows_advance : Follows front emit (fun _ _ => True) advance advance := by
  rintro ⟨o,_ | ⟨b,rest⟩⟩ _ rfl
  · exact .fault _
  · exact follows_done (c := ⟨o+1,rest⟩) trivial

theorem follows_matchChar (expected : UInt8) : Follows front emit Eq (matchChar expected) (matchChar expected) := by
  rintro ⟨o,_ | ⟨b,rest⟩⟩ _ rfl
  · exact follows_done rfl
  · by_cases same : b = expected
    · simp only [matchChar,if_pos same]
      exact follows_done (c := ⟨o+1,rest⟩) rfl
    · simp only [matchChar,if_neg same]
      exact follows_done rfl

theorem follows_getOffsetAndAdvance :
    Follows front emit (fun o p => p = front.length + o) getOffsetAndAdvance getOffsetAndAdvance :=
  simulates_bind follows_currentOffset fun _ _ same => simulates_bind follows_advance fun _ _ _ => simulates_pure same

theorem shift_make (n : Nat) (kind : TokenKind) (offset length : Nat) :
    (Layout.shift n).token (.make kind offset length) = .make kind (n + offset) length := by
  rw [Layout.token,Layout.shift,Token.make,Token.make]
  simp only [Nat.add_comm n,BitVec.ofNat_add]

theorem follows_put {kind : TokenKind} (kept : isComment kind = false ∨ emit = true) (offset length : Nat) :
    Follows front emit (fun _ _ => True) (put (.make kind offset length)) (put (.make kind (front.length + offset) length)) := by
  refine simulates_tell ?_
  have stays : (isComment kind && !emit) = false := by
    rcases kept with plain | rfl
    · rw [plain,Bool.false_and]
    · rw [Bool.not_true,Bool.and_false]
  show _ = [Event.token _].flatMap _
  rw [List.flatMap_singleton,Event.behind,if_neg (by rw [show (Token.make kind offset length).kind = kind from rfl,stays]; decide),shift_make]

theorem follows_loop {α β γ δ : Type} {R : α → β → Prop} {values : γ → δ → Prop} {body : α → Lexer (α ⊕ γ)}
    {body' : β → Lexer (β ⊕ δ)} (round : ∀ a b, R a b → Follows front emit (Sum.LiftRel R values) (body a) (body' b))
    {a : α} {b : β} (entered : R a b) : Follows front emit values (loop body a) (loop body' b) := by
  rintro c _ rfl
  exact simulates_iterate round (c.rest.length+1) entered c _ rfl
end Primitives

section Scanners
variable {front : Bytes} {emit : Bool} {x x' : Context} {offset : Nat}

theorem follows_report (placed : Placed front x x') (message : Message) (offset : Nat) (args : MessageArgs) :
    Follows front emit (fun _ _ => True) (report x message offset args) (report x' message (front.length + offset) args) := by
  obtain ⟨location,ran,ran'⟩ := locate_behind placed.text placed.path placed.fits placed.whole x.tabSize offset
  unfold report
  rw [placed.tabSize,ran,ran']
  refine simulates_bind (R := fun l l' => l = location ∧ l' = location.below (front.count (ch '\n'))) ?_ ?_
  · rintro c _ rfl
    exact follows_done ⟨rfl,rfl⟩
  rintro here _ ⟨rfl,rfl⟩
  rw [reporter_below]
  cases Reporter.report here message args with
  | error fault => exact fun _ _ _ => .fault _
  | ok made =>
    refine simulates_bind (R := fun r r' => r = made ∧ r' = made.below (front.count (ch '\n'))) ?_ ?_
    · rintro c _ rfl
      exact follows_done ⟨rfl,rfl⟩
    · rintro _ _ ⟨rfl,rfl⟩
      exact simulates_tell rfl

theorem follows_consumeTrailing (rounds i utf8Char : Nat) :
    Follows front emit Eq (consumeTrailing rounds i utf8Char) (consumeTrailing rounds i utf8Char) := by
  induction rounds generalizing i utf8Char with
  | zero => exact simulates_pure rfl
  | succ rounds ih =>
    refine simulates_bind follows_next ?_
    rintro c _ rfl
    exact ih _ _

theorem follows_consumeMultibyteUtf8Char (placed : Placed front x x') (lead : UInt8) (offset : Nat) (utf8Predicate : Nat → Bool) :
    Follows front emit Eq (consumeMultibyteUtf8Char x lead offset utf8Predicate)
      (consumeMultibyteUtf8Char x' lead (front.length + offset) utf8Predicate) := by
  refine simulates_ite Iff.rfl (fun _ => ?_)
    (fun _ => simulates_bind (follows_report placed _ _ _) fun _ _ _ => simulates_pure rfl)
  refine simulates_bind (follows_consumeTrailing _ _ _) ?_
  rintro utf8Char _ rfl
  exact simulates_ite Iff.rfl (fun _ => simulates_pure rfl)
    (fun _ => simulates_bind (follows_report placed _ _ _) fun _ _ _ => simulates_pure rfl)

theorem follows_consumeWord (placed : Placed front x x') : Follows front emit Eq (consumeWord x) (consumeWord x') := by
  refine follows_loop (R := Eq) ?_ rfl
  rintro ⟨⟩ _ rfl
  refine simulates_bind follows_peek ?_
  rintro c _ rfl
  refine simulates_ite Iff.rfl (fun _ => simulates_pure (.inr rfl)) fun _ => ?_
  refine simulates_ite Iff.rfl (fun _ => simulates_bind follows_advance fun _ _ _ => simulates_pure (.inl rfl)) fun _ => ?_
  refine simulates_ite Iff.rfl (fun _ => simulates_pure (.inr rfl)) fun _ => ?_
  refine simulates_bind follows_getOffsetAndAdvance ?_
  rintro offset _ rfl
  refine simulates_bind (follows_consumeMultibyteUtf8Char placed c offset _) ?_
  rintro accepted _ rfl
  exact simulates_ite Iff.rfl (fun _ => simulates_pure (.inr rfl)) (fun _ => simulates_pure (.inl rfl))

theorem follows_skipWhitespace : Follows front emit Eq skipWhitespace skipWhitespace := by
  refine follows_loop (R := Eq) ?_ rfl
  rintro ⟨⟩ _ rfl
  refine simulates_bind follows_advance fun _ _ _ => simulates_bind follows_peek ?_
  rintro c _ rfl
  exact simulates_ite Iff.rfl (fun _ => simulates_pure (.inl rfl)) (fun _ => simulates_pure (.inr rfl))

theorem follows_consumeDigitSequence (digitPredicate : UInt8 → Bool) (offset : Nat) :
    Follows front emit Eq (consumeDigitSequence digitPredicate offset) (consumeDigitSequence digitPredicate (front.length + offset)) := by
  refine simulates_bind (R := Eq) (follows_loop (R := Eq) ?_ rfl) ?_
  · rintro ⟨⟩ _ rfl
    refine simulates_bind follows_peek ?_
    rintro c _ rfl
    refine simulates_ite Iff.rfl (fun _ => simulates_pure (.inr rfl)) fun _ => ?_
    refine simulates_ite Iff.rfl (fun _ => simulates_bind follows_advance fun _ _ _ => simulates_pure (.inl rfl)) fun _ => ?_
    refine simulates_ite Iff.rfl (fun _ => simulates_pure (.inr rfl)) fun _ => simulates_bind follows_currentOffset ?_
    rintro stop _ rfl
    simp only [Nat.add_sub_add_left]
    refine simulates_bind follows_skipWhitespace ?_
    rintro d _ rfl
    exact simulates_ite Iff.rfl (fun _ => simulates_bind follows_advance fun _ _ _ => simulates_pure (.inl rfl))
      (fun _ => simulates_pure (.inr rfl))
  · rintro (_ | length) _ rfl
    · refine simulates_bind follows_currentOffset ?_
      rintro stop _ rfl
      exact simulates_pure (Nat.add_sub_add_left _ _ _).symm
    · exact simulates_pure rfl

theorem follows_consumeLineComment : Follows front emit Eq consumeLineComment consumeLineComment := by
  refine follows_loop (R := Eq) ?_ rfl
  rintro ⟨⟩ _ rfl
  refine simulates_bind follows_peek ?_
  rintro c _ rfl
  refine simulates_ite Iff.rfl (fun _ => simulates_pure (.inr rfl)) fun _ => ?_
  exact simulates_ite Iff.rfl (fun _ => simulates_pure (.inr rfl))
    (fun _ => simulates_bind follows_advance fun _ _ _ => simulates_pure (.inl rfl))

theorem follows_consumeBlockComment (placed : Placed front x x') (offset : Nat) :
    Follows front emit (fun _ _ => True) (consumeBlockComment x offset) (consumeBlockComment x' (front.length + offset)) := by
  refine simulates_bind (R := Eq) (follows_loop (R := Eq) ?_ rfl) ?_
  · rintro unclosed _ rfl
    refine simulates_bind follows_valid ?_
    rintro more _ rfl
    refine simulates_ite Iff.rfl (fun _ => simulates_pure (.inr rfl)) fun _ => ?_
    refine simulates_bind (follows_matchChar _) ?_
    rintro star _ rfl
    refine simulates_ite Iff.rfl (fun _ => simulates_bind (follows_matchChar _) ?_)
      (fun _ => simulates_bind (follows_matchChar _) ?_)
    · rintro slash _ rfl
      refine simulates_ite Iff.rfl (fun _ => ?_) (fun _ => simulates_pure (.inl rfl))
      exact simulates_ite Iff.rfl (fun _ => simulates_pure (.inr rfl)) (fun _ => simulates_pure (.inl rfl))
    · rintro slash _ rfl
      refine simulates_ite Iff.rfl (fun _ => simulates_bind (follows_matchChar _) ?_)
        (fun _ => simulates_bind follows_advance fun _ _ _ => simulates_pure (.inl rfl))
      rintro star _ rfl
      exact simulates_ite Iff.rfl (fun _ => simulates_pure (.inl rfl)) (fun _ => simulates_pure (.inl rfl))
  · rintro closed _ rfl
    exact simulates_ite Iff.rfl (fun _ => simulates_pure trivial) (fun _ => follows_report placed _ _ _)
end Scanners

-- A handler that puts no comment.
section Handlers
variable {front : Bytes} {emit : Bool} {x x' : Context}

abbrev Handles (front : Bytes) (emit : Bool) (m n : Lexer Unit) : Prop := Follows front emit (fun _ _ => True) m n

theorem follows_putSince {kind : TokenKind} (kept : isComment kind = false ∨ emit = true) (offset : Nat) :
    Handles front emit (do let c ← currentOffset; put (.make kind offset (c - offset)))
      (do let c ← currentOffset; put (.make kind (front.length + offset) (c - (front.length + offset)))) := by
  refine simulates_bind follows_currentOffset ?_
  rintro stop _ rfl
  rw [Nat.add_sub_add_left]
  exact follows_put kept _ _

theorem follows_onAlphabetic (placed : Placed front x x') : Handles front emit (onAlphabetic x) (onAlphabetic x') := by
  refine simulates_bind follows_getOffsetAndAdvance ?_
  rintro offset _ rfl
  exact simulates_bind (follows_consumeWord placed) fun _ _ _ => follows_putSince (.inl rfl) offset

theorem substr_behind (front u : Bytes) (pos count : Nat) : substr (front ++ u) (front.length + pos) count = substr u pos count := by
  unfold substr
  rw [List.length_append,List.drop_length_add_append]
  exact if_congr (Nat.add_le_add_iff_left) rfl rfl

theorem keywordTails_plain (b : UInt8) : ∀ kwTail ∈ getKeywordTails b, isComment kwTail.kind = false := by
  have all : ∀ keyword ∈ keywords, isComment keyword.2 = false := by decide +kernel
  intro kwTail member
  obtain ⟨keyword,among,rfl⟩ := List.mem_map.mp member
  exact all keyword (List.mem_filter.mp among).1

theorem follows_onAlphabeticMaybeKeyword (placed : Placed front x x') {tails : List KeywordTail}
    (plain : ∀ kwTail ∈ tails, isComment kwTail.kind = false) :
    Handles front emit (onAlphabeticMaybeKeyword x tails) (onAlphabeticMaybeKeyword x' tails) := by
  refine simulates_bind follows_getOffsetAndAdvance ?_
  rintro offset _ rfl
  refine simulates_bind (follows_consumeWord placed) fun _ _ _ => simulates_bind follows_currentOffset ?_
  rintro stop _ rfl
  simp only [Nat.add_sub_add_left]
  refine simulates_ite Iff.rfl (fun _ => ?_) (fun _ => follows_put (.inl rfl) _ _)
  rw [placed.text,Nat.add_assoc,substr_behind]
  refine simulates_bind (R := Eq) ?_ ?_
  · cases substr x.source.text (offset+1) (stop - offset - 1) with
    | error fault => exact fun _ _ _ => .fault _
    | ok tail => exact simulates_pure rfl
  · rintro tail _ rfl
    cases found : tails.find? (fun kwTail => kwTail.tail = encodeTail tail) with
    | none => exact follows_put (.inl rfl) _ _
    | some kwTail => exact follows_put (.inl (plain kwTail (List.mem_of_find?_eq_some found))) _ _

theorem follows_keywordHandler (placed : Placed front x x') (first : UInt8) :
    Handles front emit (keywordHandler x first) (keywordHandler x' first) :=
  simulates_ite Iff.rfl (fun _ => follows_onAlphabetic placed)
    (fun _ => follows_onAlphabeticMaybeKeyword placed (keywordTails_plain first))

theorem follows_putBasedLiteral {kind : TokenKind} (plain : isComment kind = false) (digitPredicate : UInt8 → Bool) (offset : Nat) :
    Handles front emit (putBasedLiteral kind digitPredicate offset) (putBasedLiteral kind digitPredicate (front.length + offset)) := by
  refine simulates_bind (follows_consumeDigitSequence digitPredicate offset) ?_
  rintro length _ rfl
  exact follows_put (.inl plain) _ _

theorem follows_handleDecimalLiteral (offset : Nat) :
    Handles front emit (handleDecimalLiteral offset) (handleDecimalLiteral (front.length + offset)) := by
  refine simulates_bind (follows_consumeDigitSequence isDecimalDigit offset) ?_
  rintro length _ rfl
  refine simulates_bind follows_peek ?_
  rintro c _ rfl
  refine simulates_ite Iff.rfl (fun _ => simulates_bind follows_getOffsetAndAdvance ?_) (fun _ => follows_put (.inl rfl) _ _)
  rintro dotOffset _ rfl
  refine simulates_bind (follows_consumeDigitSequence isDecimalDigit dotOffset) ?_
  rintro lengthAfterDot _ rfl
  rw [Nat.add_sub_add_left]
  exact simulates_ite Iff.rfl (fun _ => follows_put (.inl rfl) _ _)
    (fun _ => simulates_bind (follows_put (.inl rfl) _ _) fun _ _ _ => follows_put (.inl rfl) _ _)

theorem follows_onZero : Handles front emit onZero onZero := by
  refine simulates_bind follows_getOffsetAndAdvance ?_
  rintro offset _ rfl
  refine simulates_bind (follows_matchChar _) ?_
  rintro hex _ rfl
  refine simulates_ite Iff.rfl (fun _ => follows_putBasedLiteral rfl _ _) fun _ => simulates_bind (follows_matchChar _) ?_
  rintro bin _ rfl
  refine simulates_ite Iff.rfl (fun _ => follows_putBasedLiteral rfl _ _) fun _ => simulates_bind (follows_matchChar _) ?_
  rintro oct _ rfl
  exact simulates_ite Iff.rfl (fun _ => follows_putBasedLiteral rfl _ _) (fun _ => follows_handleDecimalLiteral _)

theorem follows_onNonzero : Handles front emit onNonzero onNonzero := by
  refine simulates_bind follows_getOffsetAndAdvance ?_
  rintro offset _ rfl
  exact follows_handleDecimalLiteral offset

theorem follows_onDot : Handles front emit onDot onDot := by
  refine simulates_bind follows_getOffsetAndAdvance ?_
  rintro offset _ rfl
  refine simulates_bind (follows_consumeDigitSequence isDecimalDigit offset) ?_
  rintro length _ rfl
  exact simulates_ite Iff.rfl (fun _ => follows_put (.inl rfl) _ _) (fun _ => follows_put (.inl rfl) _ _)

theorem follows_onOneCharToken {kind : TokenKind} (plain : isComment kind = false) :
    Handles front emit (onOneCharToken kind) (onOneCharToken kind) := by
  refine simulates_bind follows_getOffsetAndAdvance ?_
  rintro offset _ rfl
  exact follows_put (.inl plain) _ _

theorem fixedText_plain {kind : TokenKind} {w : Bytes} (spelled : fixedText kind = some w) : isComment kind = false := by
  cases kind <;> first | rfl | cases spelled

-- No operator is a comment: every leaf of its chain has a text of its own.
theorem follows_chain {chain : MatchChain} {w : Bytes} (spelled : chain.spelled w = true) (offset : Nat) :
    Handles front emit (chain.run offset) (chain.run (front.length + offset)) := by
  induction chain generalizing w with
  | put kind =>
    rw [MatchChain.spelled,Bool.and_eq_true] at spelled
    exact follows_put (.inl (fixedText_plain (of_decide_eq_true spelled.1))) _ _
  | ifMatch c matched other ih ih' =>
    rw [MatchChain.spelled,Bool.and_eq_true] at spelled
    refine simulates_bind (follows_matchChar c) ?_
    rintro same _ rfl
    exact simulates_ite Iff.rfl (fun _ => ih spelled.1) (fun _ => ih' spelled.2)

theorem follows_onOperator {chain : MatchChain} {w : Bytes} (spelled : chain.spelled w = true) :
    Handles front emit (onOperator chain) (onOperator chain) := by
  refine simulates_bind follows_getOffsetAndAdvance ?_
  rintro offset _ rfl
  exact follows_chain spelled offset

theorem follows_onRightAngle : Handles front emit onRightAngle onRightAngle := by
  refine simulates_bind follows_getOffsetAndAdvance ?_
  rintro offset _ rfl
  refine simulates_bind (follows_matchChar _) ?_
  rintro second _ rfl
  refine simulates_ite Iff.rfl (fun _ => simulates_bind (follows_matchChar _) ?_) (fun _ => simulates_bind (follows_matchChar _) ?_)
  · rintro eq _ rfl
    exact simulates_ite Iff.rfl (fun _ => follows_put (.inl rfl) _ _)
      (fun _ => simulates_bind (follows_put (.inl rfl) _ _) fun _ _ _ => follows_put (.inl rfl) _ _)
  · rintro eq _ rfl
    exact simulates_ite Iff.rfl (fun _ => follows_put (.inl rfl) _ _) (fun _ => follows_put (.inl rfl) _ _)

-- The only handler that looks at the flag.
theorem follows_putComment (placed : Placed front x x') {kind : TokenKind} (comment : isComment kind = true) (offset : Nat) :
    Handles front x'.flags.emitComments (putComment x kind offset) (putComment x' kind (front.length + offset)) := by
  unfold putComment
  cases after : x'.flags.emitComments with
  | true =>
    rw [if_pos (placed.flags after),if_pos rfl]
    exact follows_putSince (.inr rfl) offset
  | false =>
    rw [if_neg (by decide : ¬ false = true)]
    by_cases before : x.flags.emitComments = true
    · rw [if_pos before]
      rintro c _ rfl
      refine .done (.ok trivial) rfl ?_
      show [] = [Event.token _].flatMap _
      rw [List.flatMap_singleton,Event.behind,if_pos]
      rw [show (Token.make kind offset (c.offset - offset)).kind = kind from rfl,comment]
      rfl
    · rw [if_neg before]
      exact simulates_pure trivial

theorem follows_onSlash (placed : Placed front x x') : Handles front x'.flags.emitComments (onSlash x) (onSlash x') := by
  refine simulates_bind follows_getOffsetAndAdvance ?_
  rintro offset _ rfl
  refine simulates_bind (follows_matchChar _) ?_
  rintro line _ rfl
  refine simulates_ite Iff.rfl (fun _ => simulates_bind follows_consumeLineComment fun _ _ _ => follows_putComment placed rfl offset)
    fun _ => simulates_bind (follows_matchChar _) ?_
  rintro block _ rfl
  refine simulates_ite Iff.rfl
    (fun _ => simulates_bind (follows_consumeBlockComment placed offset) fun _ _ _ => follows_putComment placed rfl offset)
    fun _ => simulates_bind (follows_matchChar _) ?_
  rintro eq _ rfl
  exact simulates_ite Iff.rfl (fun _ => follows_put (.inl rfl) _ _) (fun _ => follows_put (.inl rfl) _ _)

theorem follows_onQuote (placed : Placed front x x') {kind : TokenKind} (plain : isComment kind = false) (quote : UInt8) :
    Handles front emit (onQuote x kind quote) (onQuote x' kind quote) := by
  refine simulates_bind follows_getOffsetAndAdvance ?_
  rintro offset _ rfl
  refine simulates_bind (R := Eq) (follows_loop (R := Eq) ?_ rfl) fun _ _ _ => follows_putSince (.inl plain) offset
  rintro ignoreQuote _ rfl
  refine simulates_bind follows_peek ?_
  rintro c _ rfl
  refine simulates_ite Iff.rfl (fun _ => simulates_pure (.inr rfl)) fun _ => simulates_ite Iff.rfl (fun _ => ?_) fun _ => ?_
  · refine simulates_bind follows_currentOffset ?_
    rintro stop _ rfl
    exact simulates_bind (follows_report placed _ _ _) fun _ _ _ => simulates_pure (.inr rfl)
  · refine simulates_bind follows_advance fun _ _ _ => simulates_ite Iff.rfl (fun _ => simulates_pure (.inl rfl)) fun _ => ?_
    refine simulates_ite Iff.rfl (fun _ => simulates_pure (.inr rfl)) fun _ => ?_
    exact simulates_ite Iff.rfl (fun _ => simulates_pure (.inl rfl)) (fun _ => simulates_pure (.inl rfl))

theorem follows_onOtherChar (placed : Placed front x x') (b : UInt8) : Handles front emit (onOtherChar x b) (onOtherChar x' b) := by
  refine simulates_bind follows_getOffsetAndAdvance ?_
  rintro offset _ rfl
  refine simulates_bind (follows_consumeMultibyteUtf8Char placed b offset _) ?_
  rintro accepted _ rfl
  exact simulates_ite Iff.rfl (fun _ => simulates_bind (follows_consumeWord placed) fun _ _ _ => follows_putSince (.inl rfl) offset)
    (fun _ => simulates_pure trivial)

-- The handlers that a byte is dispatched to in one context and in another: what holds
-- of each two of them holds of the dispatch.
structure Paired (x x' : Context) (b : UInt8) (P : Lexer Unit → Lexer Unit → Prop) : Prop where
  blank : isAsciiWhitespace b = true → P advance advance
  upper : P (onAlphabetic x) (onAlphabetic x')
  lower : P (keywordHandler x b) (keywordHandler x' b)
  zero : P onZero onZero
  nonzero : P onNonzero onNonzero
  single : ∀ kind, fixedText kind = some [b] → P (onOneCharToken kind) (onOneCharToken kind)
  operator : ∀ chain : MatchChain, chain.spelled [b] = true → P (onOperator chain) (onOperator chain)
  rightAngle : P onRightAngle onRightAngle
  dot : P onDot onDot
  slash : b = ch '/' → P (onSlash x) (onSlash x')
  string : P (onQuote x .stringLiteral (ch '"')) (onQuote x' .stringLiteral (ch '"'))
  character : P (onQuote x .charLiteral (ch '\'')) (onQuote x' .charLiteral (ch '\''))
  other : P (onOtherChar x b) (onOtherChar x' b)

theorem handle_paired {b : UInt8} {P : Lexer Unit → Lexer Unit → Prop} (each : Paired x x' b P) :
    P (handleNextCharacter x b) (handleNextCharacter x' b) := by
  have choose : ∀ {p : Prop} [Decidable p] {m n m' n' : Lexer Unit}, (p → P m m') → P n n' →
      P (if p then m else n) (if p then m' else n') := by
    intro p _ m n m' n' yes no
    split
    · exact yes ‹p›
    · exact no
  unfold handleNextCharacter
  apply choose (fun blank => each.blank (by rcases blank with rfl | rfl | rfl | rfl | rfl | rfl <;> decide))
  apply choose (fun _ => each.upper)
  apply choose (fun _ => each.lower)
  apply choose (fun _ => each.zero)
  apply choose (fun _ => each.nonzero)
  -- one byte each
  iterate 9 apply choose (fun same => by subst same; exact each.single _ rfl)
  -- the operators
  apply choose (fun same => by subst same; exact each.operator leftAngleChain (by decide))
  apply choose (fun _ => each.rightAngle)
  apply choose (fun _ => each.dot)
  apply choose (fun same => by subst same; exact each.operator colonChain (by decide))
  apply choose (fun same => by subst same; exact each.operator equalsChain (by decide))
  apply choose (fun same => by subst same; exact each.operator plusChain (by decide))
  apply choose (fun same => by subst same; exact each.operator minusChain (by decide))
  apply choose (fun same => by subst same; exact each.operator starChain (by decide))
  apply choose each.slash
  apply choose (fun same => by subst same; exact each.operator percentChain (by decide))
  apply choose (fun same => by subst same; exact each.operator ampersandChain (by decide))
  apply choose (fun same => by subst same; exact each.operator pipeChain (by decide))
  apply choose (fun same => by subst same; exact each.operator tildeChain (by decide))
  apply choose (fun same => by subst same; exact each.operator bangChain (by decide))
  apply choose (fun _ => each.string)
  apply choose (fun _ => each.character)
  exact each.other

theorem follows_handleNextCharacter (placed : Placed front x x') (b : UInt8) :
    Handles front x'.flags.emitComments (handleNextCharacter x b) (handleNextCharacter x' b) := by
  apply handle_paired
  constructor
  case blank => exact fun _ => follows_advance
  case upper => exact follows_onAlphabetic placed
  case lower => exact follows_keywordHandler placed b
  case zero => exact follows_onZero
  case nonzero => exact follows_onNonzero
  case single => exact fun _ spelled => follows_onOneCharToken (fixedText_plain spelled)
  case operator => exact fun _ spelled => follows_onOperator spelled
  case rightAngle => exact follows_onRightAngle
  case dot => exact follows_onDot
  case slash => exact fun _ => follows_onSlash placed
  case string => exact follows_onQuote placed rfl _
  case character => exact follows_onQuote placed rfl _
  case other => exact follows_onOtherChar placed b

theorem follows_handleSource (placed : Placed front x x') : Handles front x'.flags.emitComments (handleSource x) (handleSource x') := by
  refine simulates_bind (R := Eq) (follows_loop (R := Eq) ?_ rfl) fun _ _ _ => simulates_bind follows_valid ?_
  · rintro ⟨⟩ _ rfl
    refine simulates_bind follows_peek ?_
    rintro c _ rfl
    refine simulates_ite Iff.rfl (fun _ => simulates_pure (.inr rfl)) fun _ => ?_
    exact simulates_bind (follows_handleNextCharacter placed c) fun _ _ _ => simulates_pure (.inl rfl)
  · rintro more _ rfl
    refine simulates_ite Iff.rfl (fun _ => simulates_bind follows_currentOffset ?_) (fun _ => simulates_pure trivial)
    rintro offset _ rfl
    exact follows_report placed _ _ _

theorem follows_run (placed : Placed front x x') : Handles front x'.flags.emitComments (run x) (run x') := by
  have size : x'.source.text.length = front.length + x.source.text.length := by rw [placed.text,List.length_append]
  have fits := placed.fits
  unfold run
  rw [if_pos fits,if_pos (show x.source.text.length ≤ sourceSizeMax by omega)]
  refine simulates_bind (follows_handleSource placed) fun _ _ _ => simulates_bind follows_currentOffset ?_
  rintro offset _ rfl
  exact follows_put (.inl rfl) offset 0
end Handlers

section Logs
variable {front : Bytes} {emit : Bool}

theorem tokensOf_behind (log : List Event) : tokensOf (log.flatMap (Event.behind front emit)) =
    ((tokensOf log).filter (fun t => !isComment t.kind || emit)).map (Layout.shift front.length).token := by
  induction log with
  | nil => rfl
  | cons event log ih =>
    rw [List.flatMap_cons,tokensOf_append,ih]
    cases event with
    | report made => rfl
    | token t =>
      rw [tokensOf_token,Event.behind,List.filter_cons]
      cases isComment t.kind <;> cases emit <;> rfl

theorem reportsOf_behind (log : List Event) : reportsOf (log.flatMap (Event.behind front emit)) =
    (reportsOf log).map (Report.below (front.count (ch '\n'))) := by
  induction log with
  | nil => rfl
  | cons event log ih =>
    rw [List.flatMap_cons,reportsOf_append,ih]
    cases event with
    | report made => rfl
    | token t =>
      rw [reportsOf_token,Event.behind]
      split <;> rfl
end Logs

-- What the two runs have put and reported.
theorem follows_logs {front : Bytes} {x x' : Context} (placed : Placed front x x') {c c' : SourceCursor} {log : List Event}
    (ran : run x c = .ok ⟨.ok (),c',log⟩) : ∃ log', run x' ⟨front.length + c.offset,c.rest⟩ =
      .ok ⟨.ok (),⟨front.length + c'.offset,c'.rest⟩,log'⟩ ∧ log' = log.flatMap (Event.behind front x'.flags.emitComments) := by
  have agree := follows_run placed c _ rfl
  rw [ran] at agree
  generalize run x' _ = other at agree
  cases agree with
  | done replies states logs =>
    cases replies with
    | ok _ =>
      cases states
      exact ⟨_,rfl,logs⟩
end Lexer
end Cero
