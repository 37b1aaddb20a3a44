import Cero.NumericLiterals
import Cero.WordTokens

namespace Cero.Lexer
open Effect SourceCursor

-- From the text `w` the handler goes over it and the whitespace `gap`, and stops
-- in front of `rest`.
def Handled (x : Context) (o : Nat) (w gap rest : Bytes) (log : List Event) : Prop :=
  ∃ b u, w = b :: u ∧ b ≠ 0 ∧
    handleNextCharacter x b ⟨o,w ++ (gap ++ rest)⟩ = .ok ⟨.ok (),⟨o + w.length + gap.length,rest⟩,log⟩

section Fixed
variable {x : Context} {o : Nat} {kind : TokenKind} {w rest : Bytes}

-- Operators and punctuation: the recogniser against the table of texts, with what
-- may stand behind them.
theorem fixed_handled (spelled : fixedText kind = some w) (notEnd : kind ≠ .endOfFile) (notDot : kind ≠ .dot)
    (notWord : isWord kind = false) (ends : LineEnds rest) : Handled x o w [] rest [.token (.fixed kind o)] := by
  cases kind with
  | identifier | lineComment | blockComment | decIntLiteral | hexIntLiteral | binIntLiteral | octIntLiteral
  | floatLiteral | charLiteral | stringLiteral => cases spelled
  | kwBreak | kwCatch | kwConst | kwContinue | kwDo | kwElse | kwEnum | kwFor | kwIf | kwIn | kwInterface | kwLet | kwMut
  | kwPrivate | kwPublic | kwRaise | kwReturn | kwStatic | kwStruct | kwSwitch | kwTry | kwUnchecked | kwWhile =>
    exact absurd notWord (by decide)
  | endOfFile => exact absurd rfl notEnd
  | dot => exact absurd rfl notDot
  | _ =>
    obtain rfl := Option.some.inj spelled
    rcases ends with rfl | ⟨later,rfl⟩ <;> exact ⟨_,_,rfl,by decide,rfl⟩
end Fixed

theorem LineEnds.word {rest : Bytes} (ends : LineEnds rest) : WordEnds rest := by
  have newline : isAsciiIdentifierChar (ch '\n') = false ∧ isAscii (ch '\n') = true := by decide
  rcases ends with rfl | ⟨later,rfl⟩
  · exact ⟨by decide,by decide⟩
  · exact newline

section Words
variable {x : Context} {o : Nat} {b : UInt8} {u rest : Bytes}

theorem wordTail_ascii {u : Bytes} (ascii : ∀ c ∈ u, isAsciiIdentifierChar c = true) : WordTail u := by
  induction u with
  | nil => exact .nil
  | cons c u ih =>
    exact .ascii (ascii c List.mem_cons_self) (ih fun d member => ascii d (List.mem_cons_of_mem _ member))

-- ASCII letters in front of what ends the word.
theorem asciiWord_handled (letter : (ch 'A' ≤ b ∧ b ≤ ch 'Z' ∨ b = ch '_') ∨ ch 'a' ≤ b ∧ b ≤ ch 'z') (word : WordTail u)
    (here : At x.source ⟨o,b :: u ++ rest⟩) (ends : LineEnds rest) : Handled x o (b :: u) [] rest [.token (wordToken o (b :: u))] := by
  have ran : consumeWord x ⟨o+1,u ++ rest⟩ = .ok ⟨.ok (),⟨o+1+u.length,rest⟩,[]⟩ := consumeWord_run word ends.word
  have covered : NullsCovered u := fun zero => word.nonzero 0 ((List.takeWhile_sublist _).subset zero) rfl
  have end_ : o + (b :: u).length + ([] : Bytes).length = o + 1 + u.length := by
    rw [List.length_cons,List.length_nil]
    omega
  refine ⟨b,u,rfl,?_,?_⟩
  · rintro rfl
    exact absurd letter (by decide)
  · rw [end_]
    exact onLetter_exact here letter ran ⟨rfl,rfl⟩ covered

theorem keyword_handled {kind : TokenKind} {w : Bytes} (member : (w,kind) ∈ keywords)
    (here : At x.source ⟨o,w ++ rest⟩) (ends : LineEnds rest) : Handled x o w [] rest [.token (.fixed kind o)] := by
  obtain ⟨b,u,rfl,lower,ascii,_⟩ := keywords_found _ member
  have token : wordToken o (b :: u) = .fixed kind o := wordToken_keyword member
  rw [← token]
  exact asciiWord_handled (.inr lower) (wordTail_ascii ascii) here ends

end Words

section Literals
variable {x : Context} {o : Nat} {u rest : Bytes}

theorem putComment_run {kind : TokenKind} {c : SourceCursor} (emit : x.flags.emitComments = true) :
    putComment x kind o c = .ok ⟨.ok (),c,[.token (.make kind o (c.offset - o))]⟩ := by
  rw [putComment,if_pos emit,bind_ok currentOffset_run]
  rfl

theorem lineComment_handled (emit : x.flags.emitComments = true) (line : ∀ b ∈ u, b ≠ ch '\n' ∧ b ≠ 0)
    (stops : LineStops rest) :
    Handled x o (text "//" ++ u) [] rest [.token (.make .lineComment o (u.length+2))] := by
  have passed : consumeLineComment ⟨o+1+1,u ++ rest⟩ = .ok ⟨.ok (),⟨o+1+1+u.length,rest⟩,[]⟩ := consumeLineComment_run line stops
  have ran : onSlash x ⟨o,ch '/' :: ch '/' :: (u ++ rest)⟩ =
      .ok ⟨.ok (),⟨o+1+1+u.length,rest⟩,[.token (.make .lineComment o (o+1+1+u.length-o))]⟩ := by
    rw [onSlash,bind_ok getOffsetAndAdvance_run,bind_ok matchChar_same,if_pos rfl,bind_ok passed,putComment_run emit]
    rfl
  refine ⟨ch '/',ch '/' :: u,rfl,by decide,?_⟩
  rw [show o + 1 + 1 + u.length - o = u.length + 2 by omega] at ran
  rw [show o + (text "//" ++ u).length + ([] : Bytes).length = o + 1 + 1 + u.length by
    simp only [List.length_append,List.length_nil,show (text "//").length = 2 from rfl]; omega]
  exact ran

-- Whether it is closed or not, the comment is put when the loop has passed over it.
theorem blockComment_run (emit : x.flags.emitComments = true) {t : Bytes} {log : List Event}
    (passed : consumeBlockComment x o ⟨o+2,t⟩ = .ok ⟨.ok (),⟨o+2+u.length,rest⟩,log⟩) :
    handleNextCharacter x (ch '/') ⟨o,ch '/' :: ch '*' :: t⟩ =
      .ok ⟨.ok (),⟨o+2+u.length,rest⟩,log ++ [.token (.make .blockComment o (u.length+2))]⟩ := by
  have length : o + 2 + u.length - o = u.length + 2 := by omega
  rw [handle_blockComment,bind_ok passed,putComment_run emit,length]
  rfl

end Literals

-- What stands between a number and the next text, or the end.
def Gap (gap rest : Bytes) : Prop := (gap = [] ∧ rest = []) ∨ gap = [ch '\n']

theorem Gap.blank {gap rest : Bytes} (between : Gap gap rest) : Blank gap := by
  rcases between with ⟨rfl,_⟩ | rfl
  · simp [Blank]
  · intro b member
    rw [List.mem_singleton.mp member]
    decide

section Numbers
variable {x : Context} {o p : Nat} {b : UInt8} {u v gap rest later : Bytes}

theorem dot_handled (between : Gap gap rest) (stops : Stops isDecimalDigit rest) :
    Handled x o (text ".") gap rest [.token (.fixed .dot o)] :=
  ⟨ch '.',[],rfl,by decide,onDot_dot between.blank stops⟩

theorem Digits.parts {digit : UInt8 → Bool} (digits : Digits digit u) : DigitTail digit u ∧ u ≠ [] := by
  obtain ⟨first,tail⟩ := digits
  exact ⟨.digit first tail,List.cons_ne_nil _ _⟩

end Numbers

-- What the first byte of a text says about its kind.
structure Front (kind : TokenKind) (b : UInt8) : Prop where
  visible : isAsciiWhitespace b = false
  decimal : isDecimalDigit b = true → isNumeric kind = true
  hexadecimal : isHexadecimalDigit b = true → isNumeric kind = true ∨ isWord kind = true
  point : b = ch '.' → kind = .dot ∨ isNumeric kind = true

instance (kind : TokenKind) (b : UInt8) : Decidable (Front kind b) :=
  decidable_of_iff (isAsciiWhitespace b = false ∧ (isDecimalDigit b = true → isNumeric kind = true) ∧
    (isHexadecimalDigit b = true → isNumeric kind = true ∨ isWord kind = true) ∧ (b = ch '.' → kind = .dot ∨ isNumeric kind = true))
    ⟨fun ⟨visible,decimal,hexadecimal,point⟩ => ⟨visible,decimal,hexadecimal,point⟩,
      fun front => ⟨front.visible,front.decimal,front.hexadecimal,front.point⟩⟩

section Fronts
variable {kind : TokenKind} {w u : Bytes} {b : UInt8}

theorem fixed_keyword (spelled : fixedText kind = some w) (word : isWord kind = true) : (w,kind) ∈ keywords := by
  cases kind with
  | kwBreak | kwCatch | kwConst | kwContinue | kwDo | kwElse | kwEnum | kwFor | kwIf | kwIn | kwInterface | kwLet | kwMut
  | kwPrivate | kwPublic | kwRaise | kwReturn | kwStatic | kwStruct | kwSwitch | kwTry | kwUnchecked | kwWhile =>
    obtain rfl := Option.some.inj spelled
    decide
  | identifier => cases spelled
  | _ => exact absurd word (by decide)
end Fronts

section Items
variable {x : Context} {o : Nat} {kind : TokenKind} {w gap rest : Bytes} {log : List Event}

theorem sourceRound_handled (handled : Handled x o w gap rest log) :
    sourceRound x () ⟨o,w ++ (gap ++ rest)⟩ = .ok ⟨.ok (.inl ()),⟨o + w.length + gap.length,rest⟩,log⟩ := by
  obtain ⟨b,u,rfl,notNull,ran⟩ := handled
  rw [sourceRound,bind_ok peek_run,List.cons_append,front_cons,if_neg notNull]
  rw [List.cons_append] at ran
  rw [bind_ok ran]
  simp

-- The rounds from `w` on, when those from `rest` on are known.
theorem loop_handled (handled : Handled x o w gap rest log) {c : SourceCursor} {more : List Event}
    (later : loop (sourceRound x) () ⟨o + w.length + gap.length,rest⟩ = .ok ⟨.ok (),c,more⟩) :
    loop (sourceRound x) () ⟨o,w ++ (gap ++ rest)⟩ = .ok ⟨.ok (),c,log ++ more⟩ := by
  have round := sourceRound_handled handled
  obtain ⟨b,u,rfl,_⟩ := handled
  refine loop_again round ?_ later
  simp only [List.length_append,List.length_cons]
  omega

theorem loop_end : loop (sourceRound x) () ⟨o,[]⟩ = .ok ⟨.ok (),⟨o,[]⟩,[]⟩ := loop_leave rfl
end Items

section Lines
variable {x : Context} {o : Nat} {first : Lexeme} {rest : List Lexeme}

def Spelled (items : List Lexeme) : Prop := ∀ item ∈ items, TextOf item.kind item.text

theorem Spelled.tail (spelled : Spelled (first :: rest)) : Spelled rest :=
  fun item member => spelled item (List.mem_cons_of_mem _ member)

-- A token and the kind and text that it was printed from.
def Reads (source : SourceView) (token : Token) (item : Lexeme) : Prop :=
  token.kind = item.kind ∧ token.getText source = .ok item.text

end Lines

theorem tokensOf_tokens (tokens : List Token) : tokensOf (tokens.map .token) = tokens := by
  induction tokens with
  | nil => rfl
  | cons token tokens ih => rw [List.map_cons,tokensOf_token,ih]

-- A run whose loop reaches the end of the source.
theorem run_of_loop {x : Context} {n : Nat} {log : List Event} (fits : x.source.text.length ≤ sourceSizeMax)
    (looped : loop (sourceRound x) () (.start x.source) = .ok ⟨.ok (),⟨n,[]⟩,log⟩) :
    runLexer x.source x.flags x.tabSize = .ok (tokensOf log ++ [.fixed .endOfFile n],reportsOf log) := by
  have handled : handleSource x (.start x.source) = .ok ⟨.ok (),⟨n,[]⟩,log⟩ := by
    rw [handleSource,bind_ok looped,bind_ok valid_run]
    simp
  have ran : run x (.start x.source) = .ok ⟨.ok (),⟨n,[]⟩,log ++ [.token (.fixed .endOfFile n)]⟩ := by
    rw [run,if_pos fits,bind_ok handled]
    rfl
  rw [runLexer,ran,map_ok]
  simp only [tokensOf_append,reportsOf_append]
  rw [show reportsOf [.token (.fixed .endOfFile n)] = [] from rfl,List.append_nil]
  rfl

-- A number whose dot stands on the next line, behind a name and before a keyword.
def member : List Lexeme := [⟨.identifier,text "x"⟩,⟨.plus,text "+"⟩,⟨.decIntLiteral,text "1 0"⟩,⟨.dot,text "."⟩,⟨.kwIf,text "if"⟩]

end Cero.Lexer
