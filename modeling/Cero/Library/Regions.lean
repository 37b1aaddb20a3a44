import Mathlib.Algebra.Ring.Nat
import Mathlib.Order.Interval.Finset.Nat
import Mathlib.Tactic.Common

-- Stretches of addresses.
structure Region where
  base : Nat
  size : Nat
  deriving DecidableEq, Repr

namespace Region
variable {r s t : Region}

def stop (r : Region) : Nat := r.base + r.size

def Inside (r s : Region) : Prop := s.base ≤ r.base ∧ r.stop ≤ s.stop

def Apart (r s : Region) : Prop := r.stop ≤ s.base ∨ s.stop ≤ r.base

instance (r s : Region) : Decidable (Inside r s) := inferInstanceAs (Decidable (_ ∧ _))
instance (r s : Region) : Decidable (Apart r s) := inferInstanceAs (Decidable (_ ∨ _))

theorem Inside.refl (r : Region) : Inside r r := ⟨Nat.le_refl _,Nat.le_refl _⟩

theorem Inside.trans (first : Inside r s) (second : Inside s t) : Inside r t :=
  ⟨Nat.le_trans second.1 first.1,Nat.le_trans first.2 second.2⟩

theorem Apart.symm (apart : Apart r s) : Apart s r := Or.symm apart

theorem Apart.inside (apart : Apart r s) (sub : Inside t s) : Apart r t := by
  rcases apart with before | behind
  · exact .inl (Nat.le_trans before sub.1)
  · exact .inr (Nat.le_trans sub.2 behind)

theorem Apart.both {r' s' : Region} (apart : Apart r s) (sub : Inside r' r) (sub' : Inside s' s) : Apart r' s' :=
  ((apart.inside sub').symm.inside sub).symm

-- A region that is not empty is apart from no region that it lies in.
theorem Inside.meets (sub : Inside r s) (some : 0 < r.size) : ¬ Apart r s := by
  obtain ⟨low,high⟩ := sub
  simp only [Apart,stop] at *
  omega

def cover : List Region → Finset Nat
  | [] => ∅
  | r :: rest => Finset.Ico r.base r.stop ∪ cover rest

theorem mem_cover {rs : List Region} {i : Nat} : i ∈ cover rs ↔ ∃ r ∈ rs, r.base ≤ i ∧ i < r.stop := by
  induction rs with
  | nil => simp [cover]
  | cons r rs ih => simp [cover,ih]

theorem card_cover {rs : List Region} (apart : rs.Pairwise Apart) : (cover rs).card = (rs.map size).sum := by
  induction apart with
  | nil => rfl
  | @cons r rs first _ ih =>
    have separate : Disjoint (Finset.Ico r.base r.stop) (cover rs) := by
      refine Finset.disjoint_left.mpr fun i here there => ?_
      obtain ⟨s,member,low,high⟩ := mem_cover.mp there
      have bounds := Finset.mem_Ico.mp here
      rcases first s member with before | behind
      · omega
      · omega
    rw [cover,Finset.card_union_of_disjoint separate,ih,Nat.card_Ico,List.map_cons,List.sum_cons,stop,Nat.add_sub_cancel_left]

-- Apart regions below a bound fit under it together.
theorem sizes_bounded {rs : List Region} {bound : Nat} (apart : rs.Pairwise Apart) (below : ∀ r ∈ rs, r.stop ≤ bound) :
    (rs.map size).sum ≤ bound := by
  have within : cover rs ⊆ Finset.range bound := by
    intro i member
    obtain ⟨r,among,_,high⟩ := mem_cover.mp member
    exact Finset.mem_range.mpr (Nat.lt_of_lt_of_le high (below r among))
  have counted := Finset.card_le_card within
  rwa [card_cover apart,Finset.card_range] at counted
end Region

-- The least multiple of `alignment` that is at least `address`.
def alignUp (alignment address : Nat) : Nat := (address + alignment - 1) / alignment * alignment

section Align
variable {alignment address : Nat}

theorem alignUp_dvd : alignment ∣ alignUp alignment address := Nat.dvd_mul_left _ _

theorem le_alignUp (positive : 0 < alignment) : address ≤ alignUp alignment address := by
  have split_ := Nat.div_add_mod (address + alignment - 1) alignment
  have small := Nat.mod_lt (address + alignment - 1) positive
  rw [Nat.mul_comm] at split_
  rw [alignUp]
  omega

theorem alignUp_least {multiple : Nat} (positive : 0 < alignment) (dvd : alignment ∣ multiple) (above : address ≤ multiple) :
    alignUp alignment address ≤ multiple := by
  obtain ⟨k,rfl⟩ := dvd
  rw [alignUp,Nat.mul_comm]
  refine Nat.mul_le_mul_left _ ?_
  have small : (address + alignment - 1) / alignment < k + 1 := by
    rw [Nat.div_lt_iff_lt_mul positive,Nat.add_mul,Nat.mul_comm k]
    omega
  omega

theorem alignUp_same (positive : 0 < alignment) (dvd : alignment ∣ address) : alignUp alignment address = address :=
  Nat.le_antisymm (alignUp_least positive dvd (Nat.le_refl _)) (le_alignUp positive)
end Align
