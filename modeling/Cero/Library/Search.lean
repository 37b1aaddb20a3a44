import Mathlib.Tactic.Common

-- Searching a list for what is equal to a key, where `order e` compares an element
-- with the key.
namespace Search
variable {α : Type} {order : α → Ordering} {range : List α}

-- What is less than the key stands before what is equal to it, and that before what
-- is greater.
structure Partition (order : α → Ordering) (range less equal greater : List α) : Prop where
  whole : range = less ++ (equal ++ greater)
  less : ∀ e ∈ less, order e = .lt
  equal : ∀ e ∈ equal, order e = .eq
  greater : ∀ e ∈ greater, order e = .gt

def Partitioned (order : α → Ordering) (range : List α) : Prop :=
  ∃ less equal greater, Partition order range less equal greater

-- `std::lower_bound`: the range from the first element on that is not less.
def lowerBound (order : α → Ordering) (range : List α) : List α := range.dropWhile (fun e => order e = .lt)

-- `std::binary_search`
def binarySearch (order : α → Ordering) (range : List α) : Bool := match lowerBound order range with
  | [] => false
  | e :: _ => order e ≠ .gt

-- What a search promises of a range that the key partitions.
def FindsEqual (search : (α → Ordering) → List α → Bool) : Prop :=
  ∀ order range, Partitioned order range → (search order range = true ↔ ∃ e ∈ range, order e = .eq)

theorem Partition.nil : Partition order [] [] [] [] := ⟨rfl,by simp,by simp,by simp⟩

theorem Partition.cons {e : α} {less equal greater : List α} (head : order e = .lt) (rest : Partition order range less equal greater) :
    Partition order (e :: range) (e :: less) equal greater :=
  ⟨congrArg (e :: ·) rest.whole,List.forall_mem_cons.mpr ⟨head,rest.less⟩,rest.equal,rest.greater⟩

theorem Partition.lowerBound_eq {less equal greater : List α} (parts : Partition order range less equal greater) :
    lowerBound order range = equal ++ greater := by
  have start : ∀ e ∈ less, (fun e => decide (order e = .lt)) e = true := fun e member => decide_eq_true (parts.less e member)
  have stop : (equal ++ greater).dropWhile (fun e => order e = .lt) = equal ++ greater := by
    cases equal with
    | cons e equal =>
        have same := parts.equal e List.mem_cons_self
        exact List.dropWhile_cons_of_neg (by simp [same])
    | nil =>
        cases greater with
        | nil => rfl
        | cons e greater =>
            have above := parts.greater e List.mem_cons_self
            exact List.dropWhile_cons_of_neg (by simp [above])
  unfold lowerBound
  rw [parts.whole,List.dropWhile_append_of_pos start,stop]

theorem binarySearch_finds : FindsEqual (@binarySearch α) := by
  intro order range partitioned
  obtain ⟨less,equal,greater,parts⟩ := partitioned
  unfold binarySearch
  rw [parts.lowerBound_eq]
  cases equal with
  | cons e equal =>
      have same := parts.equal e List.mem_cons_self
      refine iff_of_true (by simp [same]) ⟨e,?_,same⟩
      rw [parts.whole]
      simp
  | nil =>
      have none_ : ¬ ∃ e ∈ range, order e = .eq := by
        rintro ⟨e,member,same⟩
        rw [parts.whole,List.nil_append] at member
        rcases List.mem_append.mp member with early | late
        · rw [parts.less e early] at same
          cases same
        · rw [parts.greater e late] at same
          cases same
      refine iff_of_false ?_ none_
      cases greater with
      | nil => exact Bool.false_ne_true
      | cons e greater => simp [parts.greater e List.mem_cons_self]
end Search
