import Cero.LexerRuns

-- Where the string and character literals of a source end.
namespace Cero.Lexer
open Effect SourceCursor

-- How many backslashes a text ends with.
def endingBackslashes (u : Bytes) : Nat := (u.reverse.takeWhile (· = ch '\\')).length

-- A quote behind an even number of backslashes is not escaped.
def Plain (u : Bytes) : Prop := endingBackslashes u % 2 = 0

instance (u : Bytes) : Decidable (Plain u) := inferInstanceAs (Decidable (_ = _))

-- Behind the text `u` of the literal its closing quote follows, ...
def Closed (quote : UInt8) (u after : Bytes) : Prop := (∃ rest, after = quote :: rest) ∧ Plain u

-- ... or the literal is cut off by the end of its line, or by the end of the source,
-- for which a null byte counts too.
def CutByLine (after : Bytes) : Prop := ∃ rest, after = ch '\n' :: rest
def CutByEnd (after : Bytes) : Prop := after = [] ∨ ∃ rest, after = 0 :: rest

-- The text behind an opening quote up to where the literal ends.
structure Literal (quote : UInt8) (u after : Bytes) : Prop where
  inside : ∀ b ∈ u, b ≠ ch '\n' ∧ b ≠ 0
  escaped : ∀ v w, u = v ++ quote :: w → ¬ Plain v
  ends : Closed quote u after ∨ CutByLine after ∨ CutByEnd after

-- The two kinds of quoted literals.
inductive QuoteOf : TokenKind → UInt8 → Prop where
  | string : QuoteOf .stringLiteral (ch '"')
  | character : QuoteOf .charLiteral (ch '\'')

-- What is expected of the lexer in front of a literal.
structure LiteralRead (quote : UInt8) (kind : TokenKind) (o : Nat) (u after : Bytes) (log : List Event) : Prop where
  closed : Closed quote u after → tokensOf log = [.make kind o (u.length+2)] ∧ reportsOf log = []
  cut : ¬ Closed quote u after → tokensOf log = [.make kind o (u.length+1)] ∧
    ∃ made, reportsOf log = [made] ∧ made.message = .missingClosingQuote

def ReadsLiteral (x : Context) (kind : TokenKind) (quote : UInt8) (o : Nat) (u after : Bytes) : Prop :=
  Holds (handleNextCharacter x quote) ⟨o,quote :: (u ++ after)⟩ fun _ _ log => LiteralRead quote kind o u after log

section Backslashes
variable {quote b : UInt8} {u v after text : Bytes}

theorem endingBackslashes_backslash : endingBackslashes (u ++ [ch '\\']) = endingBackslashes u + 1 := by
  rw [endingBackslashes,List.reverse_append,List.reverse_singleton,List.singleton_append,List.takeWhile_cons_of_pos (by decide)]
  rfl

theorem endingBackslashes_other (other : b ≠ ch '\\') : endingBackslashes (u ++ [b]) = 0 := by
  rw [endingBackslashes,List.reverse_append,List.reverse_singleton,List.singleton_append,
    List.takeWhile_cons_of_neg (by simpa using other)]
  rfl

-- Every text behind an opening quote is that of a literal and what follows it.
theorem literal_exists (quote : UInt8) (text : Bytes) : ∃ u after, text = u ++ after ∧ Literal quote u after := by
  have from_ : ∀ v text, (∀ b ∈ v, b ≠ ch '\n' ∧ b ≠ 0) → (∀ v' w, v = v' ++ quote :: w → ¬ Plain v') →
      ∃ u after, v ++ text = u ++ after ∧ Literal quote u after := by
    intro v text
    induction text generalizing v with
    | nil => exact fun inside escaped => ⟨v,[],rfl,inside,escaped,.inr (.inr (.inl rfl))⟩
    | cons b rest ih =>
      intro inside escaped
      by_cases line : b = ch '\n'
      · exact ⟨v,b :: rest,rfl,inside,escaped,.inr (.inl ⟨rest,by rw [line]⟩)⟩
      by_cases null : b = 0
      · exact ⟨v,b :: rest,rfl,inside,escaped,.inr (.inr (.inr ⟨rest,by rw [null]⟩))⟩
      by_cases closing : b = quote ∧ Plain v
      · exact ⟨v,b :: rest,rfl,inside,escaped,.inl ⟨⟨rest,by rw [closing.1]⟩,closing.2⟩⟩
      · have inside' : ∀ c ∈ v ++ [b], c ≠ ch '\n' ∧ c ≠ 0 := by
          intro c member
          rcases List.mem_append.mp member with early | last
          · exact inside c early
          · rw [List.mem_singleton.mp last]
            exact ⟨line,null⟩
        have escaped' : ∀ v' w, v ++ [b] = v' ++ quote :: w → ¬ Plain v' := by
          intro v' w same
          rcases List.eq_nil_or_concat w with rfl | ⟨w,last,rfl⟩
          · obtain ⟨rfl,quoted⟩ := List.append_inj' same rfl
            exact fun plain => closing ⟨(List.cons.inj quoted).1,plain⟩
          · rw [List.concat_eq_append,← List.cons_append,← List.append_assoc] at same
            exact escaped v' w (List.append_inj' same rfl).1
        obtain ⟨u,after,whole,literal⟩ := ih (v ++ [b]) inside' escaped'
        exact ⟨u,after,by rw [← whole,List.append_assoc,List.singleton_append],literal⟩
  exact from_ [] text (by simp) (by simp)
end Backslashes

section Loop
variable {x : Context} {quote : UInt8} {kind : TokenKind} {o : Nat} {u v w after : Bytes}

theorem QuoteOf.other (quoteOf : QuoteOf kind quote) : quote ≠ 0 ∧ quote ≠ ch '\n' ∧ quote ≠ ch '\\' := by
  cases quoteOf <;> decide

-- The toggle is the parity of the backslashes that have just been passed.
def escaping (v : Bytes) : Bool := !decide (Plain v)

theorem escaping_backslash : escaping (v ++ [ch '\\']) = !escaping v := by
  have parity : Plain (v ++ [ch '\\']) ↔ ¬ Plain v := by
    rw [Plain,Plain,endingBackslashes_backslash]
    omega
  rw [escaping,escaping,decide_eq_decide.mpr parity,decide_not]

theorem escaping_other {b : UInt8} (other : b ≠ ch '\\') : escaping (v ++ [b]) = false := by
  have plain : Plain (v ++ [b]) := by rw [Plain,endingBackslashes_other other]
  rw [escaping,decide_eq_true plain]
  rfl

theorem quoteRound_inside {b : UInt8} {rest : Bytes} (line : b ≠ ch '\n') (null : b ≠ 0) (open_ : b = quote → ¬ Plain v) :
    quoteRound x quote (escaping v) ⟨o,b :: rest⟩ = .ok ⟨.ok (.inl (escaping (v ++ [b]))),⟨o+1,rest⟩,[]⟩ := by
  rw [quoteRound_open null line]
  by_cases backslash : b = ch '\\'
  · rw [if_pos backslash,backslash,escaping_backslash]
    rfl
  · have notClosing : ¬ (b = quote ∧ escaping v = false) := by
      rintro ⟨same,plain⟩
      exact open_ same (by simpa [escaping] using plain)
    rw [if_neg backslash,if_neg notClosing,escaping_other backslash]
    cases escaping v <;> rfl

-- The loop stops behind the closing quote or in front of what cuts the literal off.
theorem quoteLoop_inside (inside : ∀ b ∈ w, b ≠ ch '\n' ∧ b ≠ 0) (open_ : ∀ v' w', v ++ w = v' ++ quote :: w' → ¬ Plain v')
    {c' : SourceCursor} {log : List Event} (last : quoteRound x quote (escaping (v ++ w)) ⟨o+w.length,after⟩ = .ok ⟨.ok (.inr ()),c',log⟩) :
    loop (quoteRound x quote) (escaping v) ⟨o,w ++ after⟩ = .ok ⟨.ok (),c',log⟩ := by
  induction w generalizing o v with
  | nil =>
    rw [List.append_nil] at last
    exact loop_leave last
  | cons b w ih =>
    obtain ⟨line,null⟩ := inside b List.mem_cons_self
    have round : quoteRound x quote (escaping v) ⟨o,b :: (w ++ after)⟩ =
        .ok ⟨.ok (.inl (escaping (v ++ [b]))),⟨o+1,w ++ after⟩,[]⟩ :=
      quoteRound_inside line null fun same => open_ v w (by rw [same])
    have whole : v ++ b :: w = v ++ [b] ++ w := by rw [List.append_assoc,List.singleton_append]
    have place : o + (b :: w).length = o + 1 + w.length := by rw [List.length_cons,Nat.add_comm w.length,← Nat.add_assoc]
    rw [whole] at open_
    rw [whole,place] at last
    exact loop_again round (Nat.lt_succ_self _) (ih (fun c member => inside c (List.mem_cons_of_mem _ member)) open_ last)

theorem onQuote_exact {c' : SourceCursor} {log : List Event} {length : Nat} (literal : Literal quote u after)
    (last : quoteRound x quote (escaping u) ⟨o+1+u.length,after⟩ = .ok ⟨.ok (.inr ()),c',log⟩) (ends : c'.offset = o + length) :
    onQuote x kind quote ⟨o,quote :: (u ++ after)⟩ = .ok ⟨.ok (),c',log ++ [.token (.make kind o length)]⟩ := by
  have looped : loop (quoteRound x quote) false ⟨o+1,u ++ after⟩ = .ok ⟨.ok (),c',log⟩ :=
    quoteLoop_inside (v := []) literal.inside literal.escaped last
  rw [onQuote,bind_ok getOffsetAndAdvance_run,bind_ok looped,bind_ok currentOffset_run,put_run,ends,Nat.add_sub_cancel_left]
  rfl

theorem handle_quote (quoteOf : QuoteOf kind quote) : handleNextCharacter x quote = onQuote x kind quote := by
  cases quoteOf <;> rfl

theorem read_closed (quoteOf : QuoteOf kind quote) (literal : Literal quote u after) (closed : Closed quote u after) :
    ∃ c', onQuote x kind quote ⟨o,quote :: (u ++ after)⟩ = .ok ⟨.ok (),c',[.token (.make kind o (u.length+2))]⟩ := by
  obtain ⟨⟨rest,rfl⟩,plain⟩ := closed
  obtain ⟨notNull,notNewline,notBackslash⟩ := quoteOf.other
  have off : escaping u = false := by rw [escaping,decide_eq_true plain]; rfl
  have last : quoteRound x quote (escaping u) ⟨o+1+u.length,quote :: rest⟩ = .ok ⟨.ok (.inr ()),⟨o+1+u.length+1,rest⟩,[]⟩ := by
    rw [quoteRound_open notNull notNewline,if_neg notBackslash,if_pos ⟨rfl,off⟩]
    rfl
  exact ⟨_,onQuote_exact literal last (by show o + 1 + u.length + 1 = _; omega)⟩

theorem read_line (kind : TokenKind) (literal : Literal quote u after) (line : CutByLine after) (here : At x.source ⟨o,quote :: (u ++ after)⟩) :
    ∃ c' made, onQuote x kind quote ⟨o,quote :: (u ++ after)⟩ =
      .ok ⟨.ok (),c',[.report made,.token (.make kind o (u.length+1))]⟩ ∧ made.message = .missingClosingQuote := by
  obtain ⟨rest,rfl⟩ := line
  have place : At x.source ⟨o+1+u.length,ch '\n' :: rest⟩ := by
    have moved : Moves ⟨o,quote :: (u ++ ch '\n' :: rest)⟩ (quote :: u) ⟨o+1+u.length,ch '\n' :: rest⟩ :=
      ⟨rfl,by rw [List.length_cons]; exact Nat.add_right_comm _ _ _⟩
    exact here.moves moved
  obtain ⟨made,reported,there⟩ : ∃ made, report x .missingClosingQuote (o+1+u.length) [] ⟨o+1+u.length,ch '\n' :: rest⟩ =
      .ok ⟨.ok (),⟨o+1+u.length,ch '\n' :: rest⟩,[.report made]⟩ ∧ ReportAt x (o+1+u.length) .missingClosingQuote made :=
    report_run place.fits place.inside rfl
  have last : quoteRound x quote (escaping u) ⟨o+1+u.length,ch '\n' :: rest⟩ =
      .ok ⟨.ok (.inr ()),⟨o+1+u.length,ch '\n' :: rest⟩,[.report made]⟩ := by
    rw [quoteRound,bind_ok peek_run,front_cons,if_neg (by decide),if_pos rfl,bind_ok currentOffset_run,bind_ok reported]
    rfl
  exact ⟨_,made,onQuote_exact literal last (by show o + 1 + u.length = _; omega),there.1⟩

theorem read_end (kind : TokenKind) (literal : Literal quote u after) (end_ : CutByEnd after) : ∃ c', onQuote x kind quote ⟨o,quote :: (u ++ after)⟩ =
    .ok ⟨.ok (),c',[.token (.make kind o (u.length+1))]⟩ := by
  have last : quoteRound x quote (escaping u) ⟨o+1+u.length,after⟩ = .ok ⟨.ok (.inr ()),⟨o+1+u.length,after⟩,[]⟩ := by
    rcases end_ with rfl | ⟨rest,rfl⟩ <;> rfl
  exact ⟨_,onQuote_exact literal last (by show o + 1 + u.length = _; omega)⟩

theorem closed_not_line (quoteOf : QuoteOf kind quote) (line : CutByLine after) : ¬ Closed quote u after := by
  rintro ⟨⟨rest,same⟩,_⟩
  obtain ⟨rest',rfl⟩ := line
  exact quoteOf.other.2.1 (List.cons.inj same).1.symm

theorem closed_not_end (quoteOf : QuoteOf kind quote) (end_ : CutByEnd after) : ¬ Closed quote u after := by
  rintro ⟨⟨rest,same⟩,_⟩
  rcases end_ with rfl | ⟨rest',rfl⟩
  · cases same
  · exact quoteOf.other.1 (List.cons.inj same).1.symm

theorem line_not_end (end_ : CutByEnd after) : ¬ CutByLine after := by
  rintro ⟨rest,same⟩
  rcases end_ with rfl | ⟨rest',rfl⟩
  · cases same
  · exact absurd (List.cons.inj same).1 (by decide)

-- A literal is read right just where it is closed or cut off by the end of its line.
theorem quoted_extent (quoteOf : QuoteOf kind quote) (literal : Literal quote u after) (here : At x.source ⟨o,quote :: (u ++ after)⟩) :
    ReadsLiteral x kind quote o u after ↔ Closed quote u after ∨ CutByLine after := by
  have handled : handleNextCharacter x quote = onQuote x kind quote := handle_quote quoteOf
  rw [ReadsLiteral,handled]
  rcases literal.ends with closed | line | end_
  · obtain ⟨c',ran⟩ := read_closed (x := x) (o := o) quoteOf literal closed
    exact iff_of_true ⟨_,c',_,ran,fun _ => ⟨rfl,rfl⟩,fun open_ => absurd closed open_⟩ (.inl closed)
  · obtain ⟨c',made,ran,message⟩ := read_line kind literal line here
    refine iff_of_true ⟨_,c',_,ran,fun closed => absurd closed (closed_not_line quoteOf line),fun _ => ?_⟩ (.inr line)
    exact ⟨rfl,made,rfl,message⟩
  · obtain ⟨c',ran⟩ := read_end (x := x) (o := o) kind literal end_
    have open_ := closed_not_end (u := u) quoteOf end_
    refine iff_of_false ?_ fun right => right.elim open_ (line_not_end end_)
    rintro ⟨_,_,log,again,read⟩
    obtain ⟨⟩ := ran.symm.trans again
    obtain ⟨_,made,reported,_⟩ := read.cut open_
    cases reported
end Loop

-- A string that the source ends in.
def unclosed : Context := ⟨⟨text "\"",""⟩,.none,4⟩

theorem unclosed_literal : Literal (ch '"') [] [] := ⟨by simp,by simp,.inr (.inr (.inl rfl))⟩

theorem quoted_extent_unclosed : ¬ ∀ (x : Context) (kind : TokenKind) (quote : UInt8) (o : Nat) (u after : Bytes), QuoteOf kind quote →
    Literal quote u after → At x.source ⟨o,quote :: (u ++ after)⟩ → ReadsLiteral x kind quote o u after := by
  intro always
  have here : At unclosed.source ⟨0,ch '"' :: ([] ++ [])⟩ := ⟨by decide,by decide,rfl⟩
  obtain ⟨_,_,log,again,read⟩ := always unclosed .stringLiteral _ 0 _ _ .string unclosed_literal here
  rw [handle_quote .string] at again
  obtain ⟨c',ran⟩ := read_end (x := unclosed) (o := 0) .stringLiteral unclosed_literal (.inl rfl)
  obtain ⟨⟩ := ran.symm.trans again
  obtain ⟨_,made,reported,_⟩ := read.cut (closed_not_end .string (.inl rfl))
  cases reported

-- A character literal with an escaped quote.
def escapedQuote : Context := ⟨⟨text "'\\'' ",""⟩,.none,4⟩

theorem quoted_extent_escapedQuote : ReadsLiteral escapedQuote .charLiteral (ch '\'') 0 (text "\\'") (text "' ") ↔
    Closed (ch '\'') (text "\\'") (text "' ") ∨ CutByLine (text "' ") := by
  have escaped : ∀ v w, text "\\'" = v ++ ch '\'' :: w → ¬ Plain v := by
    intro v w same
    rcases v with _ | ⟨b,_ | ⟨c,v⟩⟩
    · exact absurd (List.cons.inj same).1 (by decide)
    · obtain ⟨rfl,_⟩ := List.cons.inj same
      decide
    · have length := congrArg List.length same
      simp [text] at length
  have inside : ∀ b ∈ text "\\'", b ≠ ch '\n' ∧ b ≠ 0 :=
    List.forall_mem_cons.mpr ⟨by decide,List.forall_mem_cons.mpr ⟨by decide,by simp⟩⟩
  have literal : Literal (ch '\'') (text "\\'") (text "' ") := ⟨inside,escaped,.inl ⟨⟨_,rfl⟩,by decide⟩⟩
  exact quoted_extent .character literal ⟨by decide,by decide,rfl⟩
end Cero.Lexer
