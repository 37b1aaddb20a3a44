import Cero.WordExtent

-- The comparison of packed tails decides as a comparison of whole words would.
namespace Cero.Lexer
open Effect SourceCursor

-- The token that is put for a word, by its text alone.
structure KeywordRead (o : Nat) (word : Bytes) (token : Token) : Prop where
  keyword : ∀ entry ∈ keywords, token = .fixed entry.2 o ↔ entry.1 = word
  identifier : (∀ entry ∈ keywords, entry.1 ≠ word) → token = .make .identifier o word.length

def StartsKeyword (b : UInt8) : Prop := ∃ entry ∈ keywords, entry.1.head? = some b

-- What is expected in front of a word whose bytes behind the first one are `crossed`.
def ReadsWord (x : Context) (o : Nat) (b : UInt8) (rest : Bytes) : Prop :=
  ∃ crossed c' log token, consumeWord x ⟨o+1,rest⟩ = .ok ⟨.ok (),c',log⟩ ∧ Moves ⟨o+1,rest⟩ crossed c' ∧
    handleNextCharacter x b ⟨o,b :: rest⟩ = .ok ⟨.ok (),c',log ++ [.token token]⟩ ∧ tokensOf log = [] ∧
    KeywordRead o (b :: crossed) token

section Table
variable {b : UInt8} {o : Nat} {word : Bytes}

theorem getKeywordTails_empty : (getKeywordTails b).isEmpty = true ↔ ¬ StartsKeyword b := by
  unfold getKeywordTails
  rw [List.isEmpty_iff,List.map_eq_nil_iff,List.filter_eq_nil_iff]
  constructor
  · rintro none_ ⟨entry,member,starts⟩
    exact none_ entry member (by simpa using starts)
  · intro none_ entry member starts
    exact none_ ⟨entry,member,by simpa using starts⟩

theorem keyword_kinds : ∀ entry ∈ keywords, entry.2 ≠ .identifier ∧ ∀ other ∈ keywords, entry.2 = other.2 → entry.1 = other.1 := by
  decide +kernel

theorem wordToken_read (o : Nat) (word : Bytes) : KeywordRead o word (wordToken o word) := by
  refine ⟨fun entry member => ⟨fun same => ?_,?_⟩,wordToken_other⟩
  · have kind : (wordToken o word).kind = entry.2 := congrArg Token.kind same
    rcases wordToken_cases o word with ⟨other,found,rfl,token⟩ | token
    · rw [token] at kind
      exact (keyword_kinds entry member).2 other found kind.symm
    · rw [token] at kind
      exact absurd kind.symm (keyword_kinds entry member).1
  · rintro rfl
    exact wordToken_keyword member

theorem startsKeyword_lower (starts : StartsKeyword b) : ch 'a' ≤ b ∧ b ≤ ch 'z' := by
  obtain ⟨entry,member,head⟩ := starts
  obtain ⟨first,tail,same,lower,_⟩ := keywords_found entry member
  rw [same,List.head?_cons] at head
  rw [← Option.some.inj head]
  exact lower
end Table

section Letters
variable {x : Context} {o : Nat} {b : UInt8} {rest : Bytes}

theorem reads_word (here : At x.source ⟨o,b :: rest⟩) (lower : ch 'a' ≤ b ∧ b ≤ ch 'z') : ReadsWord x o b rest := by
  have behind : At x.source ⟨o+1,rest⟩ := here.moves moves_cons
  obtain ⟨_,c',log,ran,crossed,moved,covered,quiet⟩ := consumeWord_spec behind
  exact ⟨crossed,c',log,_,ran,moved,onLower_exact here lower ran moved covered,quiet,wordToken_read o (b :: crossed)⟩

theorem handle_plain (is : isAsciiStart b = true) (none_ : ¬ StartsKeyword b) : handleNextCharacter x b = onAlphabetic x := by
  rcases asciiStart_iff.mp is with upper | lower
  · exact handle_upper upper
  · rw [handle_lower lower]
    exact if_pos (getKeywordTails_empty.mpr none_)

-- On the text of a keyword the plain handler puts another token.
theorem handle_keyword (starts : StartsKeyword b) : ∃ x, handleNextCharacter x b ≠ onAlphabetic x := by
  have lower := startsKeyword_lower starts
  obtain ⟨⟨word,kind⟩,member,head⟩ := starts
  obtain ⟨_,_,long,short⟩ := keyword_sound member
  obtain ⟨tail,rfl⟩ : ∃ tail, word = b :: tail := by
    cases word with
    | nil => cases head
    | cons c tail =>
        rw [List.head?_cons,Option.some.injEq] at head
        exact ⟨tail,by rw [head]⟩
  refine ⟨⟨⟨b :: tail,""⟩,.none,4⟩,fun same => ?_⟩
  have fits : (b :: tail).length ≤ sourceSizeMax := Nat.le_trans short (by decide)
  have here : At ⟨b :: tail,""⟩ ⟨0,b :: tail⟩ := .start fits
  have ascii : ∀ c ∈ tail, isAsciiIdentifierChar c = true := by
    obtain ⟨_,_,whole,_,ascii,_⟩ := keywords_found _ member
    obtain ⟨rfl,rfl⟩ := List.cons.inj whole
    exact ascii
  obtain ⟨crossed,c',log,token,ran,moved,handled,_,read⟩ := reads_word (x := ⟨⟨b :: tail,""⟩,.none,4⟩) here lower
  have all : consumeWord ⟨⟨b :: tail,""⟩,.none,4⟩ ⟨1,tail ++ []⟩ = .ok ⟨.ok (),⟨1+tail.length,[]⟩,[]⟩ :=
    consumeWord_run (wordTail_ascii ascii) (LineEnds.word (.inl rfl))
  rw [List.append_nil] at all
  obtain ⟨⟩ := all.symm.trans ran
  have whole : tail = crossed := by simpa using moved.1
  subst whole
  have put_ := (read.keyword _ member).mpr rfl
  rw [same,onAlphabetic_exact ran moved,put_] at handled
  have kinds : TokenKind.identifier = kind := by
    simp only [List.nil_append,Except.ok.injEq,Outcome.mk.injEq,List.cons.injEq,Event.token.injEq] at handled
    exact congrArg Token.kind handled.2.2.1
  exact (keyword_kinds _ member).1 kinds.symm
end Letters

-- The letters that are dispatched to the plain handler are those that begin no keyword.
theorem keyword_lookup :
    (∀ x o b rest, At x.source ⟨o,b :: rest⟩ → ch 'a' ≤ b ∧ b ≤ ch 'z' → ReadsWord x o b rest) ∧
      ∀ b, isAsciiStart b = true → ((∀ x, handleNextCharacter x b = onAlphabetic x) ↔ ¬ StartsKeyword b) := by
  refine ⟨fun x o b rest here lower => reads_word here lower,fun b is => ⟨?_,fun none_ x => handle_plain is none_⟩⟩
  intro plain starts
  obtain ⟨x,other⟩ := handle_keyword starts
  exact other (plain x)

-- A keyword with a null byte behind it, and a word in which one is swallowed.
def nullInWord : Context := ⟨⟨text "do" ++ [0xc3,0],""⟩,.none,4⟩

theorem keyword_lookup_nullInWord : ReadsWord nullInWord 0 (ch 'd') [ch 'o',0xc3,0] ∧
    ((∀ x, handleNextCharacter x (ch 'd') = onAlphabetic x) ↔ ¬ StartsKeyword (ch 'd')) :=
  ⟨keyword_lookup.1 nullInWord 0 (ch 'd') _ ⟨by decide,by decide,rfl⟩ (by decide),keyword_lookup.2 (ch 'd') (by decide)⟩
end Cero.Lexer
