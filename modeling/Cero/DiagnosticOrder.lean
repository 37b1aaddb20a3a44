import Cero.LexerReports
import Cero.Locations
import Cero.SourceLayout

-- In which order the reports of a source come.
namespace Cero
open Cero.Parser Lexer Effect

section Order
variable {source : SourceView} {tabSize : UInt8} {tokens front : List Token} {lexical : List Report} {e : Token}

theorem locate_before (fits : source.text.length ≤ sourceSizeMax) (positive : tabSize ≠ 0) {a b : Nat} {first second : CodeLocation}
    (earlier : a < b) (inside : b ≤ source.text.length) (here : source.locate a tabSize = .ok first)
    (there : source.locate b tabSize = .ok second) : first.Before second := by
  obtain ⟨_,ran,located⟩ := locate_located tabSize fits a
  obtain ⟨⟩ := here.symm.trans ran
  obtain ⟨_,ran',located'⟩ := locate_located tabSize fits b
  obtain ⟨⟩ := there.symm.trans ran'
  have split_ : source.text.take b = source.text.take a ++ (source.text.drop a).take (b-a) := by
    rw [← List.take_add,Nat.add_sub_cancel' (Nat.le_of_lt earlier)]
  rw [split_] at located'
  refine located_before positive ?_ located located'
  apply List.ne_nil_of_length_pos
  rw [List.length_take,List.length_drop]
  omega

-- What points at one offset behind the other is located so.
theorem located_in_order (fits : source.text.length ≤ sourceSizeMax) (positive : tabSize ≠ 0) {reports : List Report} {os : List Nat}
    (located : List.Forall₂ (fun made o => source.locate o tabSize = .ok made.location) reports os) (increasing : os.Pairwise (· < ·))
    (inside : ∀ o ∈ os, o ≤ source.text.length) : reports.Pairwise (·.location.Before ·.location) := by
  induction located with
  | nil => exact .nil
  | @cons made o reports os here others ih =>
    obtain ⟨first,increasing⟩ := List.pairwise_cons.mp increasing
    refine .cons (fun other member => ?_) (ih increasing fun o member => inside o (List.mem_cons_of_mem _ member))
    obtain ⟨u,among,there⟩ := forall₂_member others member
    exact locate_before fits positive (first u among) (inside u (List.mem_cons_of_mem _ among)) here there

theorem lexical_in_order (lexed : runLexer source .none tabSize = .ok (tokens,lexical)) (positive : tabSize ≠ 0) :
    lexical.Pairwise (·.location.Before ·.location) := by
  by_cases fits : source.text.length ≤ sourceSizeMax
  · obtain ⟨_,c,log,ran,os,located,increasing,inside⟩ := run_rise (x := ⟨source,.none,tabSize⟩) fits
    rw [runLexer,ran] at lexed
    cases lexed
    exact located_in_order fits positive located increasing inside
  · rw [runLexer,Lexer.run,if_neg fits] at lexed
    cases lexed
    exact List.pairwise_singleton _ _

-- The reports about tokens, by the offsets of these.
theorem reports_located {log : List Expected} {reports : List Report}
    (delivered : List.Forall₂ (fun x made => x.report source tabSize = .ok made) log reports) :
    List.Forall₂ (fun made o => source.locate o tabSize = .ok made.location) reports ((blamed log).map (·.offset.toNat)) := by
  rw [blamed,List.map_map,List.forall₂_map_right_iff]
  refine delivered.flip.imp fun made x reported => ?_
  obtain ⟨_,_,located,_,rfl⟩ := report_parts reported
  exact located

-- The reports of a source come in its order, first those of the lexer. Only those at
-- the end of the file share their location.
theorem front_end_in_order (source : SourceView) (tabSize : UInt8) (positive : tabSize ≠ 0) : ∃ front e lexical early last ds,
    runLexer source .none tabSize = .ok (front ++ [e],lexical) ∧
      lexAndParse source tabSize = .ok (.ok ds,lexical ++ (early ++ last)) ∧
        lexical.Pairwise (·.location.Before ·.location) ∧ early.Pairwise (·.location.Before ·.location) ∧
          (∀ r ∈ early, ∀ s ∈ last, r.location.Before s.location) ∧
            (∀ s ∈ last, e.locateIn source tabSize = .ok s.location) ∧ last.length ≤ max 1 (braces front) := by
  obtain ⟨tokens,lexical,lexed,_⟩ := lexer_total source .none tabSize
  obtain ⟨ds,ts',log,syntactic,⟨front,e,rfl,atEnd,plain⟩,_,file,delivered,whole⟩ := parsed_file lexed
  obtain ⟨_,_,file'⟩ := file_whole plain atEnd
  obtain ⟨⟩ := (runParser_exact.mpr ⟨_,rfl,file⟩).symm.trans (runParser_exact.mpr ⟨_,rfl,file'⟩)
  obtain ⟨seg,same,none,us,es,split_,sub,others,few⟩ := file_blames file
  obtain ⟨rfl,_⟩ := List.append_inj' same rfl
  have located := reports_located (mapM_all delivered)
  rw [split_,List.map_append] at located
  have late := List.forall₂_drop_append _ _ _ located
  have soon := List.forall₂_take_append _ _ _ located
  rw [List.length_map] at late soon
  have increasing := List.pairwise_append.mp (lexed_increasing lexed)
  have rising : (us.map (·.offset.toNat)).Pairwise (· < ·) := List.pairwise_map.mpr (increasing.1.sublist sub)
  have inside : ∀ o ∈ us.map (·.offset.toNat), o ≤ source.text.length := List.forall_mem_map.mpr fun t member =>
    lexed_inside lexed t (List.mem_append_left _ (sub.subset member))
  have small : ¬ source.text.length ≤ sourceSizeMax → syntactic.take us.length = [] := by
    intro large
    have alone : front ++ [e] = [] ++ [.fixed .endOfFile 0] := lexed_large lexed large
    obtain ⟨rfl,_⟩ := List.append_inj' alone rfl
    rw [List.sublist_nil.mp sub]
    rfl
  have atLast : ∀ s ∈ syntactic.drop us.length, e.locateIn source tabSize = .ok s.location := by
    intro s among
    obtain ⟨_,listed,there⟩ := forall₂_member late among
    obtain ⟨t,member,rfl⟩ := List.mem_map.mp listed
    obtain rfl := Option.some.inj (others t member).2
    exact there
  refine ⟨front,e,lexical,syntactic.take us.length,syntactic.drop us.length,ds,lexed,by rw [List.take_append_drop]; exact whole,
    lexical_in_order lexed positive,?_,?_,atLast,?_⟩
  · by_cases fits : source.text.length ≤ sourceSizeMax
    · exact located_in_order fits positive soon rising inside
    · rw [small fits]
      exact .nil
  · intro r member s among
    by_cases fits : source.text.length ≤ sourceSizeMax
    · obtain ⟨_,listed,here⟩ := forall₂_member soon member
      obtain ⟨t,among_,rfl⟩ := List.mem_map.mp listed
      have order := increasing.2.2 t (sub.subset among_) e List.mem_cons_self
      exact locate_before fits positive order (lexed_inside lexed e (by simp)) here (atLast s among)
    · rw [small fits] at member
      cases member
  · rw [late.length_eq,List.length_map]
    exact few

-- A literal that is not closed, and two blocks that are not.
def unclosed : SourceView := ⟨text "f()\x7b'a" ++ ch '\n' :: text "\x7b",""⟩

theorem front_end_in_order_unclosed : ∃ front e lexical early last ds,
    runLexer unclosed .none 4 = .ok (front ++ [e],lexical) ∧ lexAndParse unclosed 4 = .ok (.ok ds,lexical ++ (early ++ last)) ∧
      lexical.Pairwise (·.location.Before ·.location) ∧ early.Pairwise (·.location.Before ·.location) ∧
        (∀ r ∈ early, ∀ s ∈ last, r.location.Before s.location) ∧ (∀ s ∈ last, e.locateIn unclosed 4 = .ok s.location) ∧
          last.length ≤ max 1 (braces front) := front_end_in_order unclosed 4 (by decide)
end Order
end Cero
