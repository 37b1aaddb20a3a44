import Mathlib.Algebra.BigOperators.Group.List.Basic
import Mathlib.Algebra.Ring.Int.Defs

-- Nesting depth along a sequence whose elements change it.
namespace Nesting
variable {α : Type} {change : α → Int} {depth : Int} {u v w : List α} {e : α}

def height (change : α → Int) (u : List α) : Int := (u.map change).sum

-- What opens in a balanced sequence is closed in it, and nothing else is.
structure Balanced (change : α → Int) (u : List α) : Prop where
  total : height change u = 0
  above : ∀ v, v <+: u → 0 ≤ height change v

-- Read from `depth` on, the depth is zero behind the whole sequence and not before.
structure FirstZero (change : α → Int) (depth : Int) (u : List α) : Prop where
  zero : depth + height change u = 0
  before : ∀ v, v <+: u → v ≠ u → depth + height change v ≠ 0

def NeverZero (change : α → Int) (depth : Int) (u : List α) : Prop := ∀ v, v <+: u → depth + height change v ≠ 0

@[simp] theorem height_nil : height change [] = 0 := rfl

@[simp] theorem height_cons : height change (e :: u) = change e + height change u := by
  unfold height
  rw [List.map_cons,List.sum_cons]

@[simp] theorem height_append : height change (u ++ v) = height change u + height change v := by
  unfold height
  rw [List.map_append,List.sum_append]

theorem Balanced.nil : Balanced change [] := by
  refine ⟨rfl,fun v pre => ?_⟩
  rw [List.prefix_nil.mp pre]
  exact Int.le_refl _

theorem Balanced.flat (none_ : change e = 0) (rest : Balanced change u) : Balanced change (e :: u) := by
  refine ⟨by rw [height_cons,none_,rest.total,Int.zero_add],fun v pre => ?_⟩
  rcases List.prefix_cons_iff.mp pre with rfl | ⟨v,rfl,behind⟩
  · exact Int.le_refl _
  · have above := rest.above v behind
    rw [height_cons,none_]
    omega

theorem Balanced.append (first : Balanced change u) (second : Balanced change v) : Balanced change (u ++ v) := by
  refine ⟨by rw [height_append,first.total,second.total,Int.zero_add],fun w pre => ?_⟩
  rcases List.prefix_or_prefix_of_prefix pre ( List.prefix_append u v) with within | ⟨more,rfl⟩
  · exact first.above w within
  · have above := second.above more ((List.prefix_append_right_inj u).mp pre)
    rw [height_append,first.total]
    omega

theorem Balanced.wrap {opening closing : α} (up : change opening = 1) (down : change closing = -1) (inner : Balanced change u) :
    Balanced change (opening :: (u ++ [closing])) := by
  refine ⟨by simp [up,down,inner.total],fun v pre => ?_⟩
  rcases List.prefix_cons_iff.mp pre with rfl | ⟨v,rfl,behind⟩
  · exact Int.le_refl _
  rcases List.prefix_concat_iff.mp behind with rfl | within
  · simp [up,down,inner.total]
  · have above := inner.above v within
    rw [height_cons,up]
    omega

-- The element that closes behind a balanced sequence is the first to reach zero.
theorem Balanced.closed {closing : α} (inner : Balanced change u) (down : change closing = -1) :
    FirstZero change 1 (u ++ [closing]) := by
  refine ⟨by simp [inner.total,down],fun v pre shorter => ?_⟩
  rcases List.prefix_concat_iff.mp pre with same | within
  · exact absurd same shorter
  · have above := inner.above v within
    omega

theorem FirstZero.cons (first : FirstZero change depth (e :: u)) : depth ≠ 0 ∧ FirstZero change (depth + change e) u := by
  have start := first.before [] List.nil_prefix (List.cons_ne_nil _ _).symm
  refine ⟨by simpa using start,?_,fun v pre shorter => ?_⟩
  · have zero := first.zero
    rwa [height_cons,← Int.add_assoc] at zero
  · have before := first.before (e :: v) (List.cons_prefix_cons.mpr ⟨rfl,pre⟩) (fun same => shorter (List.cons.inj same).2)
    rwa [height_cons,← Int.add_assoc] at before

theorem FirstZero.nil_of_zero (first : FirstZero change 0 u) : u = [] := by
  by_contra some_
  exact first.before [] List.nil_prefix (Ne.symm some_) rfl

theorem NeverZero.cons (never : NeverZero change depth (e :: u)) : depth ≠ 0 ∧ NeverZero change (depth + change e) u := by
  refine ⟨by simpa using never [] List.nil_prefix,fun v pre => ?_⟩
  have before := never (e :: v) (List.cons_prefix_cons.mpr ⟨rfl,pre⟩)
  rwa [height_cons,← Int.add_assoc] at before

theorem FirstZero.extend (start : depth ≠ 0) (first : FirstZero change (depth + change e) u) : FirstZero change depth (e :: u) := by
  refine ⟨by rw [height_cons,← Int.add_assoc]; exact first.zero,fun v pre shorter => ?_⟩
  rcases List.prefix_cons_iff.mp pre with rfl | ⟨v,rfl,behind⟩
  · simpa using start
  · rw [height_cons,← Int.add_assoc]
    exact first.before v behind fun same => shorter (by rw [same])

theorem NeverZero.extend (start : depth ≠ 0) (never : NeverZero change (depth + change e) u) : NeverZero change depth (e :: u) := by
  intro v pre
  rcases List.prefix_cons_iff.mp pre with rfl | ⟨v,rfl,behind⟩
  · simpa using start
  · rw [height_cons,← Int.add_assoc]
    exact never v behind

theorem NeverZero.nil (start : depth ≠ 0) : NeverZero change depth [] := by
  intro v pre
  rw [List.prefix_nil.mp pre]
  simpa using start

theorem FirstZero.nil : FirstZero change 0 [] := ⟨rfl,fun _ pre shorter => absurd (List.prefix_nil.mp pre) shorter⟩

-- Either the depth never is zero or a first part reaches it.
theorem firstZero_or_never (change : α → Int) (depth : Int) (u : List α) :
    NeverZero change depth u ∨ ∃ v, v <+: u ∧ FirstZero change depth v := by
  by_cases start : depth = 0
  · rw [start]
    exact .inr ⟨[],List.nil_prefix,.nil⟩
  induction u generalizing depth with
  | nil => exact .inl (.nil start)
  | cons e u ih =>
      by_cases next : depth + change e = 0
      · refine .inr ⟨[e],List.cons_prefix_cons.mpr ⟨rfl,List.nil_prefix⟩,.extend start ?_⟩
        rw [next]
        exact .nil
      · rcases ih (depth + change e) next with never | ⟨v,pre,first⟩
        · exact .inl (never.extend start)
        · exact .inr ⟨e :: v,List.cons_prefix_cons.mpr ⟨rfl,pre⟩,first.extend start⟩
end Nesting
