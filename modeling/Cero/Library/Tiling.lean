import Mathlib.Tactic.Common

-- Labelled pieces that lie end to end over a range of positions.
structure Tile (α : Type) where
  start : Nat
  size : Nat
  label : α

namespace Tile
variable {α : Type}

def stop (t : Tile α) : Nat := t.start + t.size

def Contains (t : Tile α) (i : Nat) : Prop := t.start ≤ i ∧ i < t.stop

inductive Tiled : Nat → List (Tile α) → Nat → Prop
  | nil {a : Nat} : Tiled a [] a
  | cons {t : Tile α} {rest : List (Tile α)} {b : Nat} :
    0 < t.size → Tiled t.stop rest b → Tiled t.start (t :: rest) b

theorem Tiled.single {a n : Nat} {label : α} (positive : 0 < n) : Tiled a [⟨a,n,label⟩] (a+n) :=
  .cons (t := ⟨a,n,label⟩) positive .nil

theorem Tiled.append {a b c : Nat} {first second : List (Tile α)} (left : Tiled a first b) (right : Tiled b second c) :
    Tiled a (first ++ second) c := by
  induction left with
  | nil => exact right
  | cons positive _ ih => exact .cons positive (ih right)

theorem Tiled.le {a b : Nat} {tiles : List (Tile α)} (tiled : Tiled a tiles b) : a ≤ b := by
  induction tiled with
  | nil => exact Nat.le_refl _
  | cons _ _ ih => exact Nat.le_trans (Nat.le_add_right _ _) ih

theorem Tiled.length {a b : Nat} {tiles : List (Tile α)} (tiled : Tiled a tiles b) : a + tiles.length ≤ b := by
  induction tiled with
  | nil => exact Nat.le_refl _
  | @cons t rest b positive _ ih =>
    rw [stop] at ih
    rw [List.length_cons]
    omega

theorem Tiled.inside {a b : Nat} {tiles : List (Tile α)} (tiled : Tiled a tiles b) :
    ∀ t ∈ tiles, 0 < t.size ∧ a ≤ t.start ∧ t.stop ≤ b := by
  induction tiled with
  | nil => intro _ member; cases member
  | @cons t rest b positive tail ih =>
    intro u member
    rcases List.mem_cons.mp member with rfl | later
    · exact ⟨positive,Nat.le_refl _,tail.le⟩
    · obtain ⟨size,after,before⟩ := ih u later
      exact ⟨size,Nat.le_trans (Nat.le_add_right _ _) after,before⟩

theorem Tiled.disjoint {a b : Nat} {tiles : List (Tile α)} (tiled : Tiled a tiles b) :
    tiles.Pairwise (fun s t => s.stop ≤ t.start) := by
  induction tiled with
  | nil => exact .nil
  | cons _ tail ih => exact .cons (fun t member => (tail.inside t member).2.1) ih

theorem Tiled.covers {a b i : Nat} {tiles : List (Tile α)} (tiled : Tiled a tiles b) (from_ : a ≤ i) (before : i < b) :
    ∃ t ∈ tiles, t.Contains i := by
  induction tiled with
  | nil => omega
  | @cons t rest b _ _ ih =>
    by_cases here : i < t.stop
    · exact ⟨t,List.mem_cons_self,from_,here⟩
    · obtain ⟨u,member,contains⟩ := ih (Nat.le_of_not_lt here) before
      exact ⟨u,List.mem_cons_of_mem _ member,contains⟩
end Tile
