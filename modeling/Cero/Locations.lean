import Mathlib.Data.List.DropRight
import Cero.LexerRules

-- Where `locate` points, in the natural numbers.
namespace Cero

-- What stands before an offset gives its line and its column.
def lineOf (before : Bytes) : Nat := 1 + before.count (ch '\n')

def currentLine (before : Bytes) : Bytes := before.rtakeWhile (· ≠ ch '\n')

def width (tabSize b : UInt8) : Nat := if b = ch '\t' then tabSize.toNat else 1

def widths (tabSize : UInt8) (u : Bytes) : Nat := (u.map (width tabSize)).sum

def columnOf (tabSize : UInt8) (before : Bytes) : Nat := 1 + widths tabSize (currentLine before)

-- The location of what stands behind `before`, with neither counter wrapped.
structure Located (source : SourceView) (tabSize : UInt8) (before : Bytes) (location : CodeLocation) : Prop where
  path : location.path = source.path
  line : location.line.toNat = lineOf before
  column : location.column.toNat = columnOf tabSize before

def CodeLocation.Before (first second : CodeLocation) : Prop :=
  first.line < second.line ∨ first.line = second.line ∧ first.column < second.column

section Lines
variable {before u v rest : Bytes} {b : UInt8}

theorem lineOf_newline : lineOf (before ++ [ch '\n']) = lineOf before + 1 := by
  unfold lineOf
  rw [List.count_append,List.count_singleton_self,Nat.add_assoc]

theorem lineOf_other (other : b ≠ ch '\n') : lineOf (before ++ [b]) = lineOf before := by
  unfold lineOf
  rw [List.count_append,List.count_singleton,if_neg (by simpa using other),Nat.add_zero]

theorem currentLine_newline : currentLine (before ++ [ch '\n']) = [] :=
  List.rtakeWhile_concat_neg _ _ _ (by simp)

theorem currentLine_other (other : b ≠ ch '\n') : currentLine (before ++ [b]) = currentLine before ++ [b] :=
  List.rtakeWhile_concat_pos _ _ _ (by simpa using other)

theorem currentLine_suffix (before : Bytes) : currentLine before <:+ before := List.rtakeWhile_suffix _ _

-- Within a line the current line only grows.
theorem currentLine_append (same : ch '\n' ∉ v) : currentLine (u ++ v) = currentLine u ++ v := by
  induction v using List.reverseRecOn with
  | nil => rw [List.append_nil,List.append_nil]
  | append_singleton v b ih =>
      have other : b ≠ ch '\n' := fun newline => same (by simp [newline])
      have earlier : ch '\n' ∉ v := fun member => same (List.mem_append_left _ member)
      rw [← List.append_assoc,currentLine_other other,ih earlier,List.append_assoc]

theorem lineOf_append : lineOf (u ++ v) = lineOf u + v.count (ch '\n') := by
  unfold lineOf
  rw [List.count_append,Nat.add_assoc]

theorem lineOf_bound (before : Bytes) : lineOf before ≤ before.length + 1 := by
  have bound := List.count_le_length (a := ch '\n') (l := before)
  unfold lineOf
  omega

-- The loop, entered behind `before` with the index and the counters that belong to it.
theorem countLines_exact {i lastLine : UInt64} {line : UInt32} (room : before.length + rest.length + 1 < 2 ^ 32)
    (index : i.toNat = before.length) (counted : line.toNat = lineOf before)
    (last : (lastLine+1).toNat = before.length - (currentLine before).length) :
    (countLines rest i line lastLine).1.toNat = lineOf (before ++ rest) ∧
      ((countLines rest i line lastLine).2+1).toNat = (before ++ rest).length - (currentLine (before ++ rest)).length := by
  induction rest generalizing before i line lastLine with
  | nil =>
      rw [List.append_nil]
      exact ⟨counted,last⟩
  | cons b rest ih =>
      rw [List.length_cons] at room
      have size : (before ++ [b]).length = before.length + 1 := List.length_append
      have next : (i+1).toNat = (before ++ [b]).length := by
        rw [toNat_next (by omega),index,size]
      have whole : before ++ b :: rest = before ++ [b] ++ rest := by
        rw [List.append_assoc,List.singleton_append]
      have room' : (before ++ [b]).length + rest.length + 1 < 2 ^ 32 := by omega
      unfold countLines
      rw [whole]
      by_cases newline : b = ch '\n'
      · subst newline
        have bound := lineOf_bound before
        have counted' : (line+1).toNat = lineOf (before ++ [ch '\n']) := by
          rw [UInt32.toNat_add,counted,lineOf_newline]
          exact Nat.mod_eq_of_lt (show lineOf before + 1 < 2 ^ 32 by omega)
        rw [if_pos rfl]
        apply ih room' next counted'
        rw [currentLine_newline]
        exact next
      · have counted' : line.toNat = lineOf (before ++ [b]) := by rw [counted,lineOf_other newline]
        rw [if_neg newline]
        apply ih room' next counted'
        rw [last,currentLine_other newline,List.length_append,List.length_append]
        exact (Nat.add_sub_add_right _ 1 _).symm
end Lines

section Columns
variable {tabSize : UInt8} {u v before : Bytes}

theorem widths_append : widths tabSize (u ++ v) = widths tabSize u + widths tabSize v := by
  unfold widths
  rw [List.map_append,List.sum_append]

theorem widths_cons (b : UInt8) : widths tabSize (b :: u) = width tabSize b + widths tabSize u := rfl

theorem width_bound (tabSize b : UInt8) : width tabSize b ≤ 255 := by
  have small := tabSize.toNat_lt
  unfold width
  split <;> omega

theorem widths_bound (tabSize : UInt8) (u : Bytes) : widths tabSize u ≤ 255 * u.length := by
  induction u with
  | nil => exact Nat.zero_le _
  | cons b u ih =>
      have one := width_bound tabSize b
      rw [widths_cons,List.length_cons]
      omega

-- Every byte takes up at least one column.
theorem widths_positive (positive : tabSize ≠ 0) (some_ : u ≠ []) : 0 < widths tabSize u := by
  cases u with
  | nil => exact absurd rfl some_
  | cons b u =>
      have size : 0 < tabSize.toNat := Nat.pos_of_ne_zero fun none_ => positive (UInt8.toNat_inj.mp none_)
      have one : 0 < width tabSize b := by
        unfold width
        split <;> omega
      rw [widths_cons]
      omega

theorem countColumns_from {column : UInt32} (room : column.toNat + widths tabSize u < 2 ^ 32) :
    (u.foldl (fun column c => column + if c = ch '\t' then tabSize.toUInt32 else 1) column).toNat =
      column.toNat + widths tabSize u := by
  induction u generalizing column with
  | nil => rfl
  | cons b u ih =>
      have added : (if b = ch '\t' then tabSize.toUInt32 else 1 : UInt32).toNat = width tabSize b := by
        unfold width
        split
        · exact UInt8.toNat_toUInt32 tabSize
        · rfl
      rw [widths_cons] at room ⊢
      have next : (column + if b = ch '\t' then tabSize.toUInt32 else 1).toNat = column.toNat + width tabSize b := by
        rw [UInt32.toNat_add,added]
        exact Nat.mod_eq_of_lt (show column.toNat + width tabSize b < 2 ^ 32 by omega)
      rw [List.foldl_cons,ih (by rw [next]; omega),next,Nat.add_assoc]

-- 255 columns for each byte of the largest source stay just below the bound of the counter.
theorem countColumns_exact (tabSize : UInt8) (fits : u.length ≤ sourceSizeMax) :
    (countColumns tabSize u).toNat = 1 + widths tabSize u := by
  have bound := widths_bound tabSize u
  have largest : 1 + 255 * sourceSizeMax < 2 ^ 32 := by decide
  unfold countColumns
  apply countColumns_from
  show 1 + widths tabSize u < 2 ^ 32
  omega
end Columns

section Offsets
variable {source : SourceView} {tabSize : UInt8} {before u v : Bytes}

theorem countLines_front (fits : before.length ≤ sourceSizeMax) :
    (countLines before 0 1 npos).1.toNat = lineOf before ∧
      ((countLines before 0 1 npos).2+1).toNat = before.length - (currentLine before).length := by
  have room : sourceSizeMax + 1 < 2 ^ 32 := by decide
  exact @countLines_exact [] before 0 npos 1 (by rw [List.length_nil]; omega) rfl rfl rfl

-- `locate` computes the line and the column of what stands before the offset.
theorem locate_located (tabSize : UInt8) (fits : source.text.length ≤ sourceSizeMax) (offset : Nat) :
    ∃ location, source.locate offset tabSize = .ok location ∧ Located source tabSize (source.text.take offset) location := by
  have taken : substr source.text 0 offset = .ok (source.text.take offset) := substr_ok (Nat.zero_le _) offset
  have size : (source.text.take offset).length ≤ sourceSizeMax := Nat.le_trans (List.length_take_le' _ _) fits
  obtain ⟨lines,last⟩ := countLines_front size
  have suffix := currentLine_suffix (source.text.take offset)
  have cut : substr (source.text.take offset) ((countLines (source.text.take offset) 0 1 npos).2+1).toNat
      (source.text.take offset).length = .ok (currentLine (source.text.take offset)) := by
    rw [last,substr_ok (Nat.sub_le _ _),← List.suffix_iff_eq_drop.mp suffix]
    exact congrArg Except.ok (List.take_of_length_le suffix.length_le)
  refine ⟨⟨source.path,(countLines (source.text.take offset) 0 1 npos).1,
    countColumns tabSize (currentLine (source.text.take offset))⟩,?_,rfl,lines,?_⟩
  · unfold SourceView.locate
    rw [taken]
    simp only [bind,Except.bind]
    rw [cut]
    rfl
  · exact countColumns_exact tabSize (Nat.le_trans suffix.length_le size)

-- What comes later is on a later line, or behind on the same one.
theorem located_before (positive : tabSize ≠ 0) (some_ : v ≠ []) {first second : CodeLocation} (here : Located source tabSize u first)
    (there : Located source tabSize (u ++ v) second) : first.Before second := by
  by_cases newline : ch '\n' ∈ v
  · left
    have more := List.count_pos_iff.mpr newline
    rw [UInt32.lt_iff_toNat_lt,here.line,there.line,lineOf_append]
    omega
  · right
    have wider := widths_positive positive some_
    constructor
    · rw [← UInt32.toNat_inj,here.line,there.line,lineOf_append,List.count_eq_zero_of_not_mem newline,Nat.add_zero]
    · rw [UInt32.lt_iff_toNat_lt,here.column,there.column]
      unfold columnOf
      rw [currentLine_append newline,widths_append]
      omega
end Offsets

-- The counters agree with the natural numbers in front of every byte that they pass.
structure CountersExact (source : SourceView) (tabSize : UInt8) : Prop where
  lines : ∀ u, u <+: source.text → (countLines u 0 1 npos).1.toNat = lineOf u
  columns : ∀ u v, u <+: source.text → v <+: currentLine u → (countColumns tabSize v).toNat = 1 + widths tabSize v

theorem countersExact (source : SourceView) (tabSize : UInt8) (fits : source.text.length ≤ sourceSizeMax) : CountersExact source tabSize := by
  constructor
  · intro u inside
    exact (countLines_front (Nat.le_trans inside.length_le fits)).1
  · intro u v inside within
    have line := (currentLine_suffix u).length_le
    exact countColumns_exact tabSize (Nat.le_trans within.length_le (Nat.le_trans line (Nat.le_trans inside.length_le fits)))

theorem locations_ordered (source : SourceView) (tabSize : UInt8) (fits : source.text.length ≤ sourceSizeMax) (positive : tabSize ≠ 0) :
    (∀ offset, offset ≤ source.text.length → ∃ location, source.locate offset tabSize = .ok location ∧
      Located source tabSize (source.text.take offset) location) ∧
    (∀ a b, a < b → b ≤ source.text.length → ∃ first second, source.locate a tabSize = .ok first ∧
      source.locate b tabSize = .ok second ∧ first.Before second ∧ first ≠ second) ∧
    CountersExact source tabSize := by
  refine ⟨fun offset _ => locate_located tabSize fits offset,?_,countersExact source tabSize fits⟩
  intro a b earlier inside
  obtain ⟨first,ranFirst,here⟩ := locate_located tabSize fits a
  obtain ⟨second,ranSecond,there⟩ := locate_located tabSize fits b
  have split_ : source.text.take b = source.text.take a ++ (source.text.drop a).take (b-a) := by
    rw [← List.take_add,Nat.add_sub_cancel' (Nat.le_of_lt earlier)]
  have some_ : (source.text.drop a).take (b-a) ≠ [] := by
    apply List.ne_nil_of_length_pos
    rw [List.length_take,List.length_drop]
    omega
  rw [split_] at there
  have before := located_before positive some_ here there
  refine ⟨first,second,ranFirst,ranSecond,before,?_⟩
  rintro rfl
  rcases before with less | ⟨_,less⟩ <;> exact absurd less (UInt32.lt_irrefl _)

def tabbed : SourceView := ⟨text "\ta\n\tb","p"⟩

theorem locations_ordered_tabbed :
    (∀ offset, offset ≤ tabbed.text.length → ∃ location, tabbed.locate offset 255 = .ok location ∧
      Located tabbed 255 (tabbed.text.take offset) location) ∧
    (∀ a b, a < b → b ≤ tabbed.text.length → ∃ first second, tabbed.locate a 255 = .ok first ∧
      tabbed.locate b 255 = .ok second ∧ first.Before second ∧ first ≠ second) ∧
    CountersExact tabbed 255 := locations_ordered tabbed 255 (by decide) (by decide)

example : tabbed.locate 5 255 = .ok ⟨"p",2,257⟩ := by decide
end Cero
