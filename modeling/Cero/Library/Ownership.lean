import Mathlib.Data.List.Perm.Basic
import Mathlib.Data.List.Forall2
import Mathlib.Tactic.Common

-- Handles that objects come by, pass on to one another and give back.
namespace Ownership
variable {H V : Type}

-- The handles in use. `obtained` and `returned` keep count of every call.
structure Ledger (H : Type) where
  live : List H
  obtained : List H
  returned : List H

namespace Ledger
def start : Ledger H := ⟨[],[],[]⟩

def obtain (h : H) (l : Ledger H) : Ledger H := ⟨h :: l.live,h :: l.obtained,l.returned⟩

-- Only what is in use can be given back.
def giveBack [DecidableEq H] (h : H) (l : Ledger H) : Option (Ledger H) :=
  if h ∈ l.live then some ⟨l.live.erase h,l.obtained,h :: l.returned⟩ else none

-- In use are just the handles of the list, each obtained once more than given back.
structure Has (l : Ledger H) (hs : List H) : Prop where
  counted : l.obtained.Perm (l.live ++ l.returned)
  held : l.live.Perm hs
  once : l.live.Nodup

section Has
variable {l : Ledger H} {h : H} {hs hs' : List H}

theorem Has.start : (start : Ledger H).Has [] := ⟨.refl _,.refl _,.nil⟩

theorem Has.perm (has : l.Has hs) (same : hs.Perm hs') : l.Has hs' := ⟨has.counted,has.held.trans same,has.once⟩

theorem Has.obtain (has : l.Has hs) (fresh : h ∉ l.live) : (l.obtain h).Has (h :: hs) :=
  ⟨has.counted.cons h,has.held.cons h,List.nodup_cons.mpr ⟨fresh,has.once⟩⟩

theorem Has.giveBack [DecidableEq H] (has : l.Has (h :: hs)) : ∃ l', l.giveBack h = some l' ∧ l'.Has hs := by
  have here : h ∈ l.live := has.held.mem_iff.mpr List.mem_cons_self
  have split_ := List.perm_cons_erase here
  refine ⟨_,if_pos here,?_,(split_.symm.trans has.held).cons_inv,has.once.erase h⟩
  exact has.counted.trans ((split_.append_right _).trans List.perm_middle.symm)
end Has
end Ledger

section Cells
variable {held : V → List H} {cells cells' : List (Option V)} {i j : Nat} {c : Option V} {v w blank : V}

-- What the object of a cell holds. A cell is empty when its object was destroyed.
def ofCell (held : V → List H) : Option V → List H
  | some v => held v
  | none => []

def heldBy (held : V → List H) (cells : List (Option V)) : List H := cells.flatMap (ofCell held)

theorem heldBy_push : (heldBy held (cells ++ [c])).Perm (ofCell held c ++ heldBy held cells) := by
  rw [heldBy,List.flatMap_append,List.flatMap_singleton]
  exact List.perm_append_comm

-- To change one cell exchanges what it holds.
theorem heldBy_set (held : V → List H) (here : cells[i]? = some c) (c' : Option V) :
    (ofCell held c ++ heldBy held (cells.set i c')).Perm (ofCell held c' ++ heldBy held cells) := by
  induction cells generalizing i with
  | nil => cases here
  | cons first cells ih =>
    cases i with
    | zero =>
      obtain rfl := Option.some.inj here
      exact (List.perm_append_comm_assoc _ _ _)
    | succ i =>
      have others := (ih here).append_left (ofCell held first)
      exact (List.perm_append_comm_assoc _ _ _).trans (others.trans (List.perm_append_comm_assoc _ _ _))

theorem heldBy_part (here : cells[i]? = some c) : (heldBy held cells).Perm (ofCell held c ++ heldBy held (cells.set i none)) :=
  (heldBy_set held here none).symm

theorem heldBy_fill (here : cells[i]? = some none) : (heldBy held (cells.set i c)).Perm (ofCell held c ++ heldBy held cells) :=
  heldBy_set held here c

-- A move leaves an object behind that holds nothing.
theorem heldBy_blank (nothing : held blank = []) (here : cells[j]? = some (some v)) :
    (heldBy held cells).Perm (held v ++ heldBy held (cells.set j (some blank))) := by
  have exchanged := heldBy_set held here (some blank)
  rw [show ofCell held (some blank) = [] from nothing] at exchanged
  exact exchanged.symm
end Cells
end Ownership
