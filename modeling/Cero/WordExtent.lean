import Cero.LexerRoundTrip
import Cero.Utf8Validation

-- How far the words of a source reach.
namespace Cero.Lexer
open Effect SourceCursor

-- The bytes of the character that a text begins with if that is one of a name.
def nameCharacter (ascii : UInt8 → Bool) (xid : Xid) : Bytes → Nat
  | [] => 0
  | b :: rest =>
    if ascii b then 1 else if isAscii b then 0 else if accepts xid b rest then 1 + (claimed b rest).length else 0

def isAsciiStart (b : UInt8) : Bool := (ch 'A' ≤ b && b ≤ ch 'Z') || b == ch '_' || (ch 'a' ≤ b && b ≤ ch 'z')

def startCharacter : Bytes → Nat := nameCharacter isAsciiStart .start
def identifierCharacter : Bytes → Nat := nameCharacter isAsciiIdentifierChar .continue_

-- `u` is the longest run of identifier characters that stands in front of `after`.
inductive LongestRun : Bytes → Bytes → Prop where
  | stop {after : Bytes} : identifierCharacter after = 0 → LongestRun [] after
  | more {c u after : Bytes} : c ≠ [] → identifierCharacter (c ++ (u ++ after)) = c.length → LongestRun u after →
      LongestRun (c ++ u) after

-- The bytes of a character that is no part of a word and is reported behind it.
def rejected : Bytes → Bytes
  | [] => []
  | b :: rest => if isAscii b then [] else b :: claimed b rest

-- A word of the source: its start character, the run behind it and what follows.
structure Word (start u after : Bytes) : Prop where
  some_ : start ≠ []
  starts : startCharacter (start ++ (u ++ after)) = start.length
  run : LongestRun u after

-- What is expected of the lexer in front of a word.
def Extent (x : Context) (o : Nat) (start u after : Bytes) : Prop :=
  ∀ b rest, start ++ (u ++ after) = b :: rest → Holds (handleNextCharacter x b) ⟨o,b :: rest⟩ fun _ _ log =>
    tokensOf log = [wordToken o (start ++ u)] ∧ (reportsOf log).length = if rejected after = [] then 0 else 1

section Characters
variable {ascii : UInt8 → Bool} {xid : Xid} {b : UInt8} {rest t after : Bytes}

theorem claimed_isPrefix (b : UInt8) (rest : Bytes) : claimed b rest <+: rest := by
  rw [claimed]
  split
  · exact List.take_prefix _ _
  · exact List.nil_prefix

-- The cases of a character: an ASCII one by itself, or the bytes that a lead byte claims.
theorem nameCharacter_cases (found : nameCharacter ascii xid (b :: (t ++ after)) = (b :: t).length) :
    (ascii b = true ∧ t = []) ∨ (ascii b = false ∧ isAscii b = false ∧ accepts xid b (t ++ after) = true ∧ claimed b (t ++ after) = t) := by
  rw [nameCharacter,List.length_cons] at found
  by_cases is : ascii b = true
  · rw [if_pos is] at found
    exact .inl ⟨is,List.eq_nil_of_length_eq_zero (by omega)⟩
  · rw [if_neg is] at found
    by_cases low : isAscii b = true
    · rw [if_pos low] at found
      omega
    · rw [if_neg low] at found
      by_cases accepted : accepts xid b (t ++ after) = true
      · rw [if_pos accepted] at found
        have same : (claimed b (t ++ after)).length = t.length := by omega
        have front := List.prefix_iff_eq_take.mp (claimed_isPrefix b (t ++ after))
        rw [same,List.take_left] at front
        exact .inr ⟨Bool.eq_false_iff.mpr is,Bool.eq_false_iff.mpr low,accepted,front⟩
      · rw [if_neg accepted] at found
        omega

theorem nameCharacter_none (found : nameCharacter ascii xid (b :: rest) = 0) :
    ascii b = false ∧ (isAscii b = true ∨ isAscii b = false ∧ accepts xid b rest = false) := by
  rw [nameCharacter] at found
  by_cases is : ascii b = true
  · rw [if_pos is] at found
    cases found
  · rw [if_neg is] at found
    refine ⟨Bool.eq_false_iff.mpr is,?_⟩
    by_cases low : isAscii b = true
    · exact .inl low
    · rw [if_neg low] at found
      refine .inr ⟨Bool.eq_false_iff.mpr low,Bool.eq_false_iff.mpr fun accepted => ?_⟩
      rw [if_pos accepted] at found
      omega

theorem nameCharacter_within : nameCharacter ascii xid (b :: rest) ≤ (b :: rest).length := by
  have short := (claimed_isPrefix b rest).length_le
  rw [nameCharacter,List.length_cons]
  split
  · omega
  · split
    · omega
    · split <;> omega

-- Every text begins with a longest run.
theorem longestRun_exists (text : Bytes) : ∃ u after, text = u ++ after ∧ LongestRun u after := by
  induction size : text.length using Nat.strongRecOn generalizing text with
  | ind size ih =>
    by_cases none_ : identifierCharacter text = 0
    · exact ⟨[],text,rfl,.stop none_⟩
    · cases text with
      | nil => exact absurd rfl none_
      | cons b rest =>
        have within : identifierCharacter (b :: rest) ≤ (b :: rest).length := nameCharacter_within
        obtain ⟨u,after,same,run⟩ := ih ((b :: rest).drop (identifierCharacter (b :: rest))).length
          (by rw [List.length_drop]; omega) _ rfl
        have length : ((b :: rest).take (identifierCharacter (b :: rest))).length = identifierCharacter (b :: rest) := by
          rw [List.length_take,Nat.min_eq_left within]
        have whole : (b :: rest).take (identifierCharacter (b :: rest)) ++ (u ++ after) = b :: rest := by
          rw [← same,List.take_append_drop]
        refine ⟨_,after,by rw [List.append_assoc,whole],.more ?_ ?_ run⟩
        · exact List.ne_nil_of_length_pos (by rw [length]; omega)
        · rw [whole,length]
end Characters

section Runs
variable {x : Context} {o : Nat} {b : UInt8} {start u after rest : Bytes}

theorem high_notIdentifier (high : isAscii b = false) : b ≠ 0 ∧ ¬ isAsciiIdentifierChar b = true := by
  have table : ∀ n : Fin 256, isAscii ⟨⟨n⟩⟩ = false → (⟨⟨n⟩⟩ : UInt8) ≠ 0 ∧ ¬ isAsciiIdentifierChar ⟨⟨n⟩⟩ = true := by decide +kernel
  exact table b.toFin high

theorem identifier_notNull (is : isAsciiIdentifierChar b = true) : b ≠ 0 := by
  rintro rfl
  exact absurd is (by decide)

-- One round on a byte that is not ASCII.
theorem wordRound_high (high : isAscii b = false) (here : At x.source ⟨o,b :: rest⟩) : ∃ log,
    wordRound x () ⟨o,b :: rest⟩ = .ok ⟨.ok (if accepts .continue_ b rest = true then .inl () else .inr ()),
      ⟨o+1+(claimed b rest).length,rest.drop (claimed b rest).length⟩,log⟩ ∧
    tokensOf log = [] ∧ (reportsOf log).length = if accepts .continue_ b rest = true then 0 else 1 := by
  obtain ⟨log,ran,quiet,reported⟩ := consumeMultibyteUtf8Char_exact .continue_ here
  obtain ⟨notNull,plain⟩ := high_notIdentifier high
  have ascii : ¬ isAscii b = true := by rw [high]; exact Bool.false_ne_true
  refine ⟨log ++ [],?_,?_⟩
  · rw [wordRound,bind_ok peek_run,front_cons,if_neg notNull,if_neg plain,if_neg ascii,bind_ok getOffsetAndAdvance_run]
    rw [bind_ok (show consumeMultibyteUtf8Char x b o isUtf8XidContinueChar _ = _ from ran)]
    cases accepts .continue_ b rest <;> rfl
  · rw [List.append_nil]
    exact ⟨quiet,reported⟩

-- The loop passes over the run, and over the character that is rejected behind it.
theorem consumeWord_exact (run : LongestRun u after) (here : At x.source ⟨o,u ++ after⟩) : ∃ log,
    consumeWord x ⟨o,u ++ after⟩ = .ok ⟨.ok (),⟨o+u.length+(rejected after).length,after.drop (rejected after).length⟩,log⟩ ∧
    tokensOf log = [] ∧ (reportsOf log).length = if rejected after = [] then 0 else 1 := by
  induction run generalizing o with
  | @stop after none_ =>
    cases after with
    | nil => exact ⟨[],loop_leave rfl,rfl,rfl⟩
    | cons b rest =>
      obtain ⟨notIdentifier,low | ⟨high,refused⟩⟩ := nameCharacter_none none_
      · have nothing : rejected (b :: rest) = [] := if_pos low
        have round : wordRound x () ⟨o,b :: rest⟩ = .ok ⟨.ok (.inr ()),⟨o,b :: rest⟩,[]⟩ := by
          rw [wordRound,bind_ok peek_run,front_cons,notIdentifier,low]
          split <;> rfl
        rw [nothing]
        exact ⟨[],loop_leave round,rfl,rfl⟩
      · have whole : rejected (b :: rest) = b :: claimed b rest := if_neg (by rw [high]; exact Bool.false_ne_true)
        obtain ⟨log,ran,quiet,reported⟩ := wordRound_high high here
        rw [refused,if_neg Bool.false_ne_true] at ran reported
        have end_ : o + ([] : Bytes).length + (b :: claimed b rest).length = o + 1 + (claimed b rest).length := by
          rw [List.length_nil,List.length_cons]
          omega
        rw [whole,end_,if_neg (List.cons_ne_nil _ _)]
        exact ⟨log,loop_leave ran,quiet,reported⟩
  | @more c u after some_ found _ ih =>
    cases c with
    | nil => exact absurd rfl some_
    | cons b t =>
      rw [List.append_assoc,List.cons_append] at here
      have behind : At x.source ⟨o+(b :: t).length,u ++ after⟩ := here.moves ⟨rfl,rfl⟩
      obtain ⟨later,ranLater,quietLater,reportedLater⟩ := ih behind
      have shorter : (u ++ after).length < (b :: t ++ (u ++ after)).length := by
        rw [List.length_append,List.length_append,List.length_append,List.length_cons]
        omega
      have round : ∃ log, wordRound x () ⟨o,b :: (t ++ (u ++ after))⟩ = .ok ⟨.ok (.inl ()),⟨o+(b :: t).length,u ++ after⟩,log⟩ ∧
          tokensOf log = [] ∧ (reportsOf log).length = 0 := by
        rcases nameCharacter_cases found with ⟨is,rfl⟩ | ⟨_,high,accepted,all⟩
        · refine ⟨[],?_,rfl,rfl⟩
          rw [wordRound,bind_ok peek_run,front_cons,if_neg (identifier_notNull is),if_pos is,bind_ok advance_run]
          rfl
        · obtain ⟨log,ran,quiet,reported⟩ := wordRound_high high here
          rw [all,accepted,if_pos rfl,List.drop_left] at ran
          rw [accepted,if_pos rfl] at reported
          refine ⟨log,?_,quiet,reported⟩
          rw [List.length_cons,Nat.add_comm t.length,← Nat.add_assoc]
          exact ran
      obtain ⟨log,ran,quiet,reported⟩ := round
      have again := loop_again ran shorter ranLater
      refine ⟨log ++ later,?_,?_,?_⟩
      · rw [List.append_assoc,List.length_append,← Nat.add_assoc]
        exact again
      · rw [tokensOf_append,quiet,quietLater]
        rfl
      · rw [reportsOf_append,List.length_append,reported,reportedLater,Nat.zero_add]

theorem rejected_isPrefix (after : Bytes) : rejected after <+: after := by
  cases after with
  | nil => exact List.nil_prefix
  | cons c more =>
    rw [rejected]
    split
    · exact List.nil_prefix
    · exact List.cons_prefix_cons.mpr ⟨rfl,claimed_isPrefix _ _⟩

theorem moves_word : Moves ⟨o,u ++ after⟩ (u ++ rejected after)
    ⟨o+u.length+(rejected after).length,after.drop (rejected after).length⟩ := by
  have whole := List.prefix_iff_eq_append.mp (rejected_isPrefix after)
  refine ⟨?_,?_⟩
  · show u ++ after = u ++ rejected after ++ after.drop (rejected after).length
    rw [List.append_assoc,whole]
  · rw [List.length_append,← Nat.add_assoc]

theorem asciiStart_iff : isAsciiStart b = true ↔ (ch 'A' ≤ b ∧ b ≤ ch 'Z' ∨ b = ch '_') ∨ ch 'a' ≤ b ∧ b ≤ ch 'z' := by
  simp [isAsciiStart]

theorem high_notLower (high : isAscii b = false) : ¬ (ch 'a' ≤ b ∧ b ≤ ch 'z') := by
  have table : ∀ n : Fin 256, isAscii ⟨⟨n⟩⟩ = false → ¬ (ch 'a' ≤ (⟨⟨n⟩⟩ : UInt8) ∧ (⟨⟨n⟩⟩ : UInt8) ≤ ch 'z') := by decide +kernel
  exact table b.toFin high

-- The token that is put in front of a word reaches over the rejected character too.
theorem word_exact (word : Word start u after) (here : At x.source ⟨o,start ++ (u ++ after)⟩) :
    ∀ b rest, start ++ (u ++ after) = b :: rest → Holds (handleNextCharacter x b) ⟨o,b :: rest⟩ fun _ _ log =>
      tokensOf log = [wordToken o (start ++ (u ++ rejected after))] ∧ (reportsOf log).length = if rejected after = [] then 0 else 1 := by
  obtain ⟨some_,starts,run⟩ := word
  cases start with
  | nil => exact absurd rfl some_
  | cons b t =>
    intro b' rest same
    rw [List.cons_append] at here same
    obtain ⟨rfl,rfl⟩ := List.cons.inj same
    have begins : Moves ⟨o,b :: (t ++ (u ++ after))⟩ (b :: t) ⟨o+1+t.length,u ++ after⟩ :=
      ⟨rfl,by rw [List.length_cons]; exact Nat.add_right_comm _ _ _⟩
    have behindStart : At x.source ⟨o+1+t.length,u ++ after⟩ := here.moves begins
    obtain ⟨log,ran,quiet,reported⟩ := consumeWord_exact run behindStart
    have moved : Moves ⟨o+1+t.length,u ++ after⟩ (u ++ rejected after)
        ⟨o+1+t.length+u.length+(rejected after).length,after.drop (rejected after).length⟩ := moves_word
    rcases nameCharacter_cases starts with ⟨is,rfl⟩ | ⟨_,high,accepted,all⟩
    · have covered : NullsCovered (u ++ rejected after) := by
        obtain ⟨_,_,_,again,crossed,over_,covered,_⟩ := consumeWord_spec behindStart
        obtain ⟨⟩ := ran.symm.trans again
        rw [← moves_unique over_ moved]
        exact covered
      have put_ : tokensOf (log ++ [.token (wordToken o (b :: (u ++ rejected after)))]) = [wordToken o (b :: (u ++ rejected after))] ∧
          (reportsOf (log ++ [.token (wordToken o (b :: (u ++ rejected after)))])).length = if rejected after = [] then 0 else 1 := by
        rw [tokensOf_append,quiet,reportsOf_append,List.length_append,reported]
        exact ⟨rfl,rfl⟩
      exact ⟨_,_,_,onLetter_exact here (asciiStart_iff.mp is) ran moved covered,put_⟩
    · obtain ⟨early,ranStart,quietStart,reportedStart⟩ := consumeMultibyteUtf8Char_exact .start here
      rw [accepted,all,List.drop_left] at ranStart
      rw [accepted,if_pos rfl] at reportedStart
      have token : wordToken o (b :: t ++ (u ++ rejected after)) = .make .identifier o (b :: t ++ (u ++ rejected after)).length :=
        wordToken_other (upper_notKeyword (high_notLower high))
      have length : o + 1 + t.length + u.length + (rejected after).length - o = (b :: t ++ (u ++ rejected after)).length := by
        simp only [List.length_append,List.length_cons]
        omega
      refine ⟨(),⟨o+1+t.length+u.length+(rejected after).length,after.drop (rejected after).length⟩,early ++ (log ++ [.token (wordToken o (b :: t ++ (u ++ rejected after)))]),?_,?_,?_⟩
      · rw [handle_high high,onOtherChar,bind_ok getOffsetAndAdvance_run]
        rw [bind_ok (show consumeMultibyteUtf8Char x b o isUtf8XidStartChar _ = _ from ranStart),if_pos rfl,bind_ok ran,
          bind_ok currentOffset_run,put_run,length,token]
        rfl
      · rw [tokensOf_append,tokensOf_append,quietStart,quiet]
        rfl
      · rw [reportsOf_append,reportsOf_append,List.length_append,List.length_append,reportedStart,reported]
        exact Nat.zero_add _
end Runs

-- The run does not end in front of a byte that is not ASCII.
def AsciiNext (after : Bytes) : Prop := ∀ b rest, after = b :: rest → isAscii b = true

theorem rejected_nil {after : Bytes} : rejected after = [] ↔ AsciiNext after := by
  cases after with
  | nil => exact iff_of_true rfl fun _ _ same => by cases same
  | cons b rest =>
    rw [rejected]
    by_cases low : isAscii b = true
    · rw [if_pos low]
      refine iff_of_true rfl fun c more same => ?_
      rwa [← (List.cons.inj same).1]
    · rw [if_neg low]
      exact iff_of_false (List.cons_ne_nil _ _) fun ascii => low (ascii b rest rfl)

-- The token tells how long the word is.
theorem wordToken_length {o : Nat} {word other : Bytes} (some_ : word ≠ []) (some' : other ≠ [])
    (same : wordToken o word = wordToken o other) : word.length = other.length := by
  have positive := List.length_pos_iff.mpr some_
  have positive' := List.length_pos_iff.mpr some'
  rcases wordToken_cases o word with ⟨entry,member,rfl,token⟩ | token <;>
    rcases wordToken_cases o other with ⟨entry',member',rfl,token'⟩ | token' <;> rw [token,token'] at same
  · have kinds : entry.2 = entry'.2 := congrArg Token.kind same
    have texts : some entry.1 = some entry'.1 := by
      rw [← (keyword_sound member).1,← (keyword_sound member').1,kinds]
    rw [Option.some.inj texts]
  · have lengths : 0 = other.length := congrArg Token.variableLength same
    omega
  · have lengths : word.length = 0 := congrArg Token.variableLength same
    omega
  · exact congrArg Token.variableLength same

-- The token of a word is right just where no character is rejected behind the word.
theorem identifier_extent {x : Context} {o : Nat} {start u after : Bytes} (word : Word start u after)
    (here : At x.source ⟨o,start ++ (u ++ after)⟩) : Extent x o start u after ↔ AsciiNext after := by
  have ran := word_exact word here
  constructor
  · intro extent
    cases start with
    | nil => exact absurd rfl word.some_
    | cons b t =>
      obtain ⟨_,_,log,first,tokens,_⟩ := ran b _ rfl
      obtain ⟨_,_,_,second,expected,_⟩ := extent b _ rfl
      obtain ⟨⟩ := first.symm.trans second
      have same : (b :: t ++ (u ++ rejected after)).length = (b :: t ++ u).length :=
        wordToken_length (List.cons_ne_nil _ _) (List.cons_ne_nil _ _) (List.singleton_inj.mp (tokens.symm.trans expected))
      simp only [List.length_append] at same
      exact rejected_nil.mp (List.eq_nil_of_length_eq_zero (by omega))
  · intro ascii
    have none_ := rejected_nil.mpr ascii
    rw [none_,List.append_nil] at ran
    intro b rest same
    obtain ⟨_,c',log,ran,tokens,reported⟩ := ran b rest same
    rw [none_]
    exact ⟨_,c',log,ran,tokens,reported⟩

-- One letter in front of a byte that begins no character.
def letterAndByte : Context := ⟨⟨[ch 'a',0xff],""⟩,.none,4⟩

theorem letterAndByte_word : Word [ch 'a'] [] [0xff] := ⟨by decide,by decide,.stop (by decide)⟩

theorem identifier_extent_letterAndByte : ¬ ∀ (x : Context) (o : Nat) (start u after : Bytes), Word start u after →
    At x.source ⟨o,start ++ (u ++ after)⟩ → Extent x o start u after := by
  intro always
  have here : At letterAndByte.source ⟨0,[ch 'a'] ++ ([] ++ [0xff])⟩ := ⟨by decide,by decide,rfl⟩
  obtain ⟨_,_,_,first,tokens,_⟩ := word_exact letterAndByte_word here (ch 'a') [0xff] rfl
  obtain ⟨_,_,_,second,expected,_⟩ := always letterAndByte 0 _ _ _ letterAndByte_word here (ch 'a') [0xff] rfl
  obtain ⟨⟩ := first.symm.trans second
  exact absurd (tokens.symm.trans expected) (by decide)

-- A keyword in front of a space.
def keywordAndSpace : Context := ⟨⟨text "if ",""⟩,.none,4⟩

theorem identifier_extent_keywordAndSpace : Extent keywordAndSpace 0 (text "i") (text "f") (text " ") ↔ AsciiNext (text " ") := by
  have run : LongestRun (text "f") (text " ") := .more (c := text "f") (u := []) (by decide) (by decide) (.stop (by decide))
  exact identifier_extent ⟨by decide,by decide,run⟩ ⟨by decide,by decide,rfl⟩
end Cero.Lexer
