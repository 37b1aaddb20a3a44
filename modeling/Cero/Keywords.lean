import Cero.Token

namespace Cero

def keywords : List (Bytes × TokenKind) :=
  [(text "break",.kwBreak),(text "catch",.kwCatch),(text "const",.kwConst),(text "continue",.kwContinue),
    (text "do",.kwDo),(text "else",.kwElse),(text "enum",.kwEnum),(text "for",.kwFor),(text "if",.kwIf),
    (text "in",.kwIn),(text "interface",.kwInterface),(text "let",.kwLet),(text "mut",.kwMut),
    (text "private",.kwPrivate),(text "public",.kwPublic),(text "raise",.kwRaise),(text "return",.kwReturn),
    (text "static",.kwStatic),(text "struct",.kwStruct),(text "switch",.kwSwitch),(text "try",.kwTry),
    (text "unchecked",.kwUnchecked),(text "while",.kwWhile)]

def zeroPadded (width : Nat) (bytes : Bytes) : Bytes := bytes ++ List.replicate (width - bytes.length) 0

-- The eight bytes of the 64-bit word that a tail is copied into.
def encodeTail (tail : Bytes) : Bytes := zeroPadded 8 tail

def encodeKeywordTail (keyword : Bytes) : Bytes := encodeTail (keyword.drop 1)

structure KeywordTail where
  tail : Bytes
  kind : TokenKind
  deriving DecidableEq, Repr

def getKeywordTails (first : UInt8) : List KeywordTail :=
  (keywords.filter (fun keyword => keyword.1.head? = some first)).map
    (fun keyword => ⟨encodeKeywordTail keyword.1,keyword.2⟩)

theorem zeroPadded_cons {width : Nat} (b : UInt8) (bytes : Bytes) :
    zeroPadded (width+1) (b :: bytes) = b :: zeroPadded width bytes := by
  rw [zeroPadded,zeroPadded,List.cons_append,List.length_cons,Nat.add_sub_add_right]

theorem zeroPadded_nil {width : Nat} : zeroPadded (width+1) [] = 0 :: zeroPadded width [] := rfl

-- Behind a byte that is not ASCII a word may hold null bytes; before the first one
-- it holds none, and then its image determines it.
theorem zeroPadded_injective {width : Nat} {tail word : Bytes} (plain : ∀ b ∈ tail, b ≠ 0 ∧ b < 0x80)
    (short : tail.length ≤ width) (fits : word.length ≤ width) (early : 0 ∉ word.takeWhile (· < 0x80))
    (same : zeroPadded width tail = zeroPadded width word) : tail = word := by
  induction width generalizing tail word with
  | zero =>
    rw [List.length_eq_zero_iff.mp (Nat.le_zero.mp short),List.length_eq_zero_iff.mp (Nat.le_zero.mp fits)]
  | succ width ih =>
    cases tail with
    | nil =>
      cases word with
      | nil => rfl
      | cons b rest =>
        rw [zeroPadded_nil,zeroPadded_cons] at same
        obtain ⟨rfl,_⟩ := List.cons.inj same
        exact absurd List.mem_cons_self early
    | cons t tail =>
      obtain ⟨nonzero,ascii⟩ := plain t List.mem_cons_self
      cases word with
      | nil =>
        rw [zeroPadded_nil,zeroPadded_cons] at same
        exact absurd (List.cons.inj same).1 nonzero
      | cons b rest =>
        rw [zeroPadded_cons,zeroPadded_cons] at same
        obtain ⟨rfl,sameRest⟩ := List.cons.inj same
        rw [List.takeWhile_cons_of_pos (by simpa using ascii)] at early
        congr 1
        exact ih (fun b member => plain b (List.mem_cons_of_mem _ member)) (Nat.le_of_succ_le_succ short)
          (Nat.le_of_succ_le_succ fits) (fun member => early (List.mem_cons_of_mem _ member)) sameRest

theorem keyword_sound {keyword : Bytes} {kind : TokenKind} (member : (keyword,kind) ∈ keywords) :
    fixedText kind = some keyword ∧ (∀ b ∈ keyword.drop 1, b ≠ 0 ∧ b < 0x80) ∧ 1 < keyword.length ∧ keyword.length ≤ 9 := by
  have all : ∀ entry ∈ keywords, fixedText entry.2 = some entry.1 ∧ (∀ b ∈ entry.1.drop 1, b ≠ 0 ∧ b < 0x80) ∧
      1 < entry.1.length ∧ entry.1.length ≤ 9 := by decide +kernel
  exact all _ member

-- A tail that is found belongs to the keyword that is the whole word.
theorem keywordTail_keyword {first : UInt8} {tail : KeywordTail} {word : Bytes} (found : tail ∈ getKeywordTails first)
    (fits : word.length ≤ 8) (early : 0 ∉ word.takeWhile (· < 0x80)) (same : tail.tail = encodeTail word) :
    (first :: word,tail.kind) ∈ keywords := by
  obtain ⟨⟨keyword,kind⟩,member,rfl⟩ := List.mem_map.mp found
  obtain ⟨member,starts⟩ := List.mem_filter.mp member
  obtain ⟨_,plain,long,short⟩ := keyword_sound member
  cases keyword with
  | nil => simp at long
  | cons b rest =>
    have head : b = first := by simpa using starts
    have small : rest.length ≤ 8 := by
      rw [List.length_cons] at short
      omega
    have rest_word : rest = word := zeroPadded_injective plain small fits early same
    rw [← head,← rest_word]
    exact member
end Cero
