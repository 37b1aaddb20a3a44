import Cero.LexerRuns

-- The token of a word, whichever handler its first letter is dispatched to.
namespace Cero.Lexer
open Effect SourceCursor

def wordToken (o : Nat) (word : Bytes) : Token := match keywords.find? (fun keyword => keyword.1 = word) with
  | some keyword => .fixed keyword.2 o
  | none => .make .identifier o word.length

section Keywords
variable {o : Nat} {b : UInt8}

theorem keywords_found : ∀ entry ∈ keywords, ∃ b u, entry.1 = b :: u ∧ (ch 'a' ≤ b ∧ b ≤ ch 'z') ∧
    (∀ c ∈ u, isAsciiIdentifierChar c = true) ∧ u.length ≤ 8 ∧
    (getKeywordTails b).find? (fun kwTail => kwTail.tail = encodeTail u) = some ⟨encodeTail u,entry.2⟩ := by
  have table : ∀ entry ∈ keywords, entry.1 = entry.1.headD 0 :: entry.1.tail ∧
      (ch 'a' ≤ entry.1.headD 0 ∧ entry.1.headD 0 ≤ ch 'z') ∧ (∀ c ∈ entry.1.tail, isAsciiIdentifierChar c = true) ∧
      entry.1.tail.length ≤ 8 ∧ (getKeywordTails (entry.1.headD 0)).find? (fun kwTail => kwTail.tail = encodeTail entry.1.tail) =
        some ⟨encodeTail entry.1.tail,entry.2⟩ := by
    decide +kernel
  exact fun entry member => ⟨_,_,table entry member⟩

theorem keyword_unique {entry other : Bytes × TokenKind} (first : entry ∈ keywords) (second : other ∈ keywords)
    (same : entry.1 = other.1) : entry = other := by
  have table : ∀ entry ∈ keywords, ∀ other ∈ keywords, entry.1 = other.1 → entry = other := by decide +kernel
  exact table entry first other second same

theorem wordToken_keyword {entry : Bytes × TokenKind} (member : entry ∈ keywords) : wordToken o entry.1 = .fixed entry.2 o := by
  rw [wordToken]
  cases found : keywords.find? (fun keyword => keyword.1 = entry.1) with
  | none =>
    have never := List.find?_eq_none.mp found entry member
    simp at never
  | some other =>
    have same := keyword_unique (List.mem_of_find?_eq_some found) member (by simpa using List.find?_some found)
    rw [same]

theorem wordToken_other {word : Bytes} (other : ∀ entry ∈ keywords, entry.1 ≠ word) : wordToken o word = .make .identifier o word.length := by
  rw [wordToken,List.find?_eq_none.mpr fun entry member => by simpa using other entry member]

theorem wordToken_cases (o : Nat) (word : Bytes) : (∃ entry ∈ keywords, entry.1 = word ∧ wordToken o word = .fixed entry.2 o) ∨
    wordToken o word = .make .identifier o word.length := by
  by_cases keyword : ∃ entry ∈ keywords, entry.1 = word
  · obtain ⟨entry,member,rfl⟩ := keyword
    exact .inl ⟨entry,member,rfl,wordToken_keyword member⟩
  · exact .inr (wordToken_other fun entry member same => keyword ⟨entry,member,same⟩)

theorem upper_notKeyword (notLower : ¬ (ch 'a' ≤ b ∧ b ≤ ch 'z')) {tail : Bytes} : ∀ entry ∈ keywords, entry.1 ≠ b :: tail := by
  intro entry member whole
  obtain ⟨first,_,same,lower,_⟩ := keywords_found entry member
  rw [(List.cons.inj (same.symm.trans whole)).1] at lower
  exact notLower lower

end Keywords

section Handlers
variable {x : Context} {o : Nat} {b : UInt8} {crossed rest : Bytes} {c' : SourceCursor} {log : List Event}

-- The comparison of the tails decides whether the whole word is a keyword.
theorem tails_token (covered : NullsCovered crossed) (o : Nat) : (if crossed.length ≤ 8 then
      match (getKeywordTails b).find? (fun kwTail => kwTail.tail = encodeTail crossed) with
      | some kwTail => .fixed kwTail.kind o
      | none => .make .identifier o (crossed.length+1)
    else .make .identifier o (crossed.length+1)) = wordToken o (b :: crossed) := by
  by_cases keyword : ∃ entry ∈ keywords, entry.1 = b :: crossed
  · obtain ⟨entry,member,whole⟩ := keyword
    obtain ⟨first,tail,same,_,_,short,found⟩ := keywords_found entry member
    obtain ⟨rfl,rfl⟩ := List.cons.inj (whole.symm.trans same)
    rw [if_pos short,found,← whole,wordToken_keyword member]
  · have other : ∀ entry ∈ keywords, entry.1 ≠ b :: crossed := fun entry member whole => keyword ⟨entry,member,whole⟩
    rw [wordToken_other other,List.length_cons]
    split
    · rename_i short
      cases found : (getKeywordTails b).find? (fun kwTail => kwTail.tail = encodeTail crossed) with
      | none => rfl
      | some kwTail =>
        have member := keywordTail_keyword (List.mem_of_find?_eq_some found) short covered (by simpa using List.find?_some found)
        exact absurd rfl (other _ member)
    · rfl

theorem onAlphabetic_exact (ran : consumeWord x ⟨o+1,rest⟩ = .ok ⟨.ok (),c',log⟩) (moved : Moves ⟨o+1,rest⟩ crossed c') :
    onAlphabetic x ⟨o,b :: rest⟩ = .ok ⟨.ok (),c',log ++ [.token (.make .identifier o (crossed.length+1))]⟩ := by
  have length : c'.offset - o = crossed.length + 1 := by
    have end_ : c'.offset = o + 1 + crossed.length := moved.2
    omega
  rw [onAlphabetic,bind_ok getOffsetAndAdvance_run,bind_ok ran,bind_ok currentOffset_run,put_run,length]
  rfl

theorem onAlphabeticMaybeKeyword_exact (here : At x.source ⟨o,b :: rest⟩) (ran : consumeWord x ⟨o+1,rest⟩ = .ok ⟨.ok (),c',log⟩)
    (moved : Moves ⟨o+1,rest⟩ crossed c') (covered : NullsCovered crossed) :
    onAlphabeticMaybeKeyword x (getKeywordTails b) ⟨o,b :: rest⟩ =
      .ok ⟨.ok (),c',log ++ [.token (wordToken o (b :: crossed))]⟩ := by
  have behind : At x.source ⟨o+1,rest⟩ := here.moves moves_cons
  have length : c'.offset - o = crossed.length + 1 := by
    have end_ : c'.offset = o + 1 + crossed.length := moved.2
    omega
  rw [onAlphabeticMaybeKeyword,bind_ok getOffsetAndAdvance_run,bind_ok ran,bind_ok currentOffset_run]
  simp only [length]
  rw [← tails_token covered]
  by_cases short : crossed.length ≤ 8
  · have tail : substr x.source.text (o+1) (crossed.length + 1 - 1) = .ok crossed := by
      rw [substr_ok behind.inside,Nat.add_sub_cancel]
      exact congrArg Except.ok (behind.slice moved)
    rw [if_pos (Nat.succ_le_succ short),if_pos short,bind_ok (ofExcept_run tail)]
    cases (getKeywordTails b).find? (fun kwTail => kwTail.tail = encodeTail crossed) <;> rfl
  · rw [if_neg (by omega),if_neg short]
    rfl

-- Whichever handler the letter is dispatched to, the token is that of the whole word.
theorem onLower_exact (here : At x.source ⟨o,b :: rest⟩) (lower : ch 'a' ≤ b ∧ b ≤ ch 'z')
    (ran : consumeWord x ⟨o+1,rest⟩ = .ok ⟨.ok (),c',log⟩) (moved : Moves ⟨o+1,rest⟩ crossed c') (covered : NullsCovered crossed) :
    handleNextCharacter x b ⟨o,b :: rest⟩ = .ok ⟨.ok (),c',log ++ [.token (wordToken o (b :: crossed))]⟩ := by
  rw [handle_lower lower]
  unfold keywordHandler
  split
  · rename_i none_
    have token : wordToken o (b :: crossed) = .make .identifier o (crossed.length+1) := by
      rw [← tails_token covered,List.isEmpty_iff.mp none_]
      split <;> rfl
    rw [token]
    exact onAlphabetic_exact ran moved
  · exact onAlphabeticMaybeKeyword_exact here ran moved covered

theorem onLetter_exact (here : At x.source ⟨o,b :: rest⟩) (letter : (ch 'A' ≤ b ∧ b ≤ ch 'Z' ∨ b = ch '_') ∨ ch 'a' ≤ b ∧ b ≤ ch 'z')
    (ran : consumeWord x ⟨o+1,rest⟩ = .ok ⟨.ok (),c',log⟩) (moved : Moves ⟨o+1,rest⟩ crossed c') (covered : NullsCovered crossed) :
    handleNextCharacter x b ⟨o,b :: rest⟩ = .ok ⟨.ok (),c',log ++ [.token (wordToken o (b :: crossed))]⟩ := by
  rcases letter with upper | lower
  · rw [handle_upper upper,wordToken_other (upper_notKeyword (upper_notLower upper)),List.length_cons]
    exact onAlphabetic_exact ran moved
  · exact onLower_exact here lower ran moved covered
end Handlers
end Cero.Lexer
