import Mathlib.Tactic.Common
import Mathlib.Data.List.Basic

-- Codes whose words show where they begin: the first symbol of a word is told apart
-- from all the others.
namespace Code

structure SelfSynchronizing {α β : Type} (enc : α → List β) (inner : β → Bool) : Prop where
  shape : ∀ a, ∃ b more, enc a = b :: more ∧ inner b = false ∧ ∀ d ∈ more, inner d = true

section Words
variable {α β : Type} {enc : α → List β} {inner : β → Bool} {u v : List β} {b : β}

-- Whole words only.
def Whole (enc : α → List β) (w : List β) : Prop := ∃ as : List α, w = as.flatMap enc

-- The text does not begin inside of a word.
def Fresh (inner : β → Bool) (w : List β) : Prop := ∀ b rest, w = b :: rest → inner b = false

theorem whole_nil : Whole enc [] := ⟨[],rfl⟩

theorem whole_append (first : Whole enc u) (second : Whole enc v) : Whole enc (u ++ v) := by
  obtain ⟨as,rfl⟩ := first
  obtain ⟨bs,rfl⟩ := second
  exact ⟨as ++ bs,by rw [List.flatMap_append]⟩

theorem fresh_nil : Fresh inner [] := by
  intro b rest impossible
  cases impossible

theorem fresh_cons (outer : inner b = false) (rest : List β) : Fresh inner (b :: rest) := by
  rintro _ _ ⟨⟩
  exact outer

variable (code : SelfSynchronizing enc inner)
include code

theorem whole_fresh (whole : Whole enc u) : Fresh inner u := by
  obtain ⟨as,rfl⟩ := whole
  cases as with
  | nil => exact fresh_nil
  | cons a as =>
    obtain ⟨b,more,shape,outer,_⟩ := code.shape a
    rw [List.flatMap_cons,shape]
    exact fresh_cons outer _

-- A text is cut between two words where the second part does not begin inside of one.
theorem whole_split (whole : Whole enc (u ++ v)) (fresh : Fresh inner v) : Whole enc u ∧ Whole enc v := by
  obtain ⟨as,same⟩ := whole
  induction as generalizing u with
  | nil =>
    obtain ⟨rfl,rfl⟩ := List.append_eq_nil_iff.mp same
    exact ⟨whole_nil,whole_nil⟩
  | cons a as ih =>
    rw [List.flatMap_cons] at same
    rcases List.append_eq_append_iff.mp same with ⟨w,crossed,rest⟩ | ⟨w,rfl,rest⟩
    · -- `v` begins in the word or right behind it.
      cases w with
      | nil =>
        rw [List.append_nil] at crossed
        exact ⟨⟨[a],by simp [crossed]⟩,⟨as,by simpa using rest⟩⟩
      | cons d w =>
        cases u with
        | nil => exact ⟨whole_nil,⟨a :: as,by rw [List.flatMap_cons,← same,List.nil_append]⟩⟩
        | cons c u =>
          obtain ⟨b,more,shape,_,inside⟩ := code.shape a
          rw [shape] at crossed
          obtain ⟨_,crossed⟩ := List.cons.inj crossed
          have within : inner d = true := inside d (by rw [crossed]; simp)
          have outer : inner d = false := fresh d (w ++ as.flatMap enc) (by rw [rest]; simp)
          rw [within] at outer
          cases outer
    · obtain ⟨first,second⟩ := ih rest.symm
      exact ⟨whole_append ⟨[a],by simp⟩ first,second⟩

-- Where a word begins it can be read.
theorem whole_word (whole : Whole enc (u ++ b :: v)) (outer : inner b = false) :
    ∃ a more rest, enc a = b :: more ∧ v = more ++ rest ∧ Fresh inner rest := by
  obtain ⟨_,as,same⟩ := whole_split code whole (fresh_cons outer v)
  cases as with
  | nil => cases same
  | cons a as =>
    obtain ⟨c,more,shape,_⟩ := code.shape a
    rw [List.flatMap_cons,shape,List.cons_append] at same
    obtain ⟨rfl,rest⟩ := List.cons.inj same
    exact ⟨a,more,_,shape,rest,whole_fresh code ⟨as,rfl⟩⟩

-- A symbol that begins no longer word is one.
theorem fresh_behind (whole : Whole enc (u ++ b :: v)) (outer : inner b = false)
    (single : ∀ a more, enc a = b :: more → more = []) : Fresh inner v := by
  obtain ⟨a,more,rest,shape,rfl,fresh⟩ := whole_word code whole outer
  obtain rfl := single a more shape
  exact fresh
end Words
end Code
