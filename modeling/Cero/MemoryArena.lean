import Cero.Library.Regions
import Cero.Library.Runs

namespace Cero

-- `size_t` and the addresses are below this; the arithmetic wraps there.
def sizeLimit : Nat := 2 ^ 64

def addSize (a b : Nat) : Nat := (a + b) % sizeLimit
def subSize (a b : Nat) : Nat := (a + sizeLimit - b) % sizeLimit

def nullptr : Nat := 0

-- `std::align`: the address and the space that are left where the request fits.
def align (alignment size ptr space : Nat) : Option (Nat × Nat) :=
  let adjust := alignUp alignment ptr - ptr
  if size + adjust ≤ space then some (ptr + adjust,space - adjust) else none

-- The header that is put in front of a block: the pointer to the next one.
def sizeofBlock : Nat := 8

-- The list that is linked from `head_block_` on is kept as the list of its blocks,
-- each with the size that operator new was called with.
structure MemoryArena where
  nextPtr : Nat
  remainingSize : Nat
  nextBlockSize : Nat
  headBlock : List Region
  totalSize : Nat
  deriving DecidableEq, Repr

namespace MemoryArena

def initialBlockSize : Nat := 1024

def ofSize (initialSize : Nat) : MemoryArena := ⟨nullptr,0,initialSize,[],0⟩
def empty : MemoryArena := ofSize initialBlockSize

-- `fresh` is the address that operator new returns for the block.
def newBlock (a : MemoryArena) (size fresh : Nat) : Region := ⟨fresh,max a.nextBlockSize (addSize size sizeofBlock)⟩

def createBlock (a : MemoryArena) (size alignment fresh : Nat) : MemoryArena :=
  let block := a.newBlock size fresh
  let space := subSize block.size sizeofBlock
  let (ptr,space) := (align alignment size (block.base + sizeofBlock) space).getD (nullptr,space)
  ⟨ptr,space,addSize a.nextBlockSize (a.nextBlockSize / 2),block :: a.headBlock,addSize a.totalSize block.size⟩

-- The call of `std::align` on the window of the arena, which it moves.
def alignWindow (a : MemoryArena) (size alignment : Nat) : Nat × MemoryArena :=
  match align alignment size a.nextPtr a.remainingSize with
  | some (ptr,space) => (ptr,{a with nextPtr := ptr, remainingSize := space})
  | none => (nullptr,a)

def needsBlock (a : MemoryArena) (size alignment : Nat) : Prop := (a.alignWindow size alignment).1 = nullptr

instance (a : MemoryArena) (size alignment : Nat) : Decidable (a.needsBlock size alignment) :=
  inferInstanceAs (Decidable (_ = _))

-- The arena whose window starts with the memory that is handed out.
def opened (a : MemoryArena) (size alignment fresh : Nat) : MemoryArena :=
  if a.needsBlock size alignment then (a.alignWindow size alignment).2.createBlock size alignment fresh
  else (a.alignWindow size alignment).2

def allocate (a : MemoryArena) (size alignment fresh : Nat) : Nat × MemoryArena :=
  let a := a.opened size alignment fresh
  (a.nextPtr,{a with nextPtr := addSize a.nextPtr size, remainingSize := subSize a.remainingSize size})

-- The loop of `release` over the blocks. Deleting what is not live is a fault.
def deleteBlocks : List Region → (live : List Region) → Option (List Region)
  | [],live => some live
  | block :: next,live => if block ∈ live then deleteBlocks next (live.erase block) else none

def release (a : MemoryArena) (live : List Region) : Option (MemoryArena × List Region) :=
  (deleteBlocks a.headBlock live).map fun live => ({a with headBlock := [], totalSize := 0},live)

def getTotalSize (a : MemoryArena) : Nat := a.totalSize

-- What the move operations leave in the arena that they take the fields of.
def movedFrom : MemoryArena := ⟨nullptr,0,initialBlockSize,[],0⟩

def window (a : MemoryArena) : Region := ⟨a.nextPtr,a.remainingSize⟩
end MemoryArena

-- The part of a block behind its header.
def usable (block : Region) : Region := ⟨block.base + sizeofBlock,block.size - sizeofBlock⟩

-- What operator new promises of the region that it returns.
structure Fresh (live : List Region) (block : Region) : Prop where
  aligned : 16 ∣ block.base
  notNull : 0 < block.base
  addressable : block.stop < sizeLimit
  apart : ∀ other ∈ live, block.Apart other

section Arithmetic
variable {a b : Nat}

theorem addSize_exact (fits : a + b < sizeLimit) : addSize a b = a + b := Nat.mod_eq_of_lt fits

theorem subSize_exact (fits : a < sizeLimit) (le : b ≤ a) : subSize a b = a - b := by
  rw [subSize,show a + sizeLimit - b = (a - b) + sizeLimit by omega,Nat.add_mod_right,Nat.mod_eq_of_lt (by omega)]
end Arithmetic

section Align
variable {alignment size ptr space address rest : Nat}

theorem align_some (positive : 0 < alignment) (found : align alignment size ptr space = some (address,rest)) :
    alignment ∣ address ∧ ptr ≤ address ∧ address + rest = ptr + space ∧ size ≤ rest := by
  have above : ptr ≤ alignUp alignment ptr := le_alignUp positive
  simp only [align] at found
  split at found
  · obtain ⟨rfl,rfl⟩ := Prod.mk.inj (Option.some.inj found)
    rw [Nat.add_sub_cancel' above]
    exact ⟨alignUp_dvd,above,by omega,by omega⟩
  · cases found

theorem align_none (positive : 0 < alignment) :
    align alignment size ptr space = none ↔ ¬ alignUp alignment ptr + size ≤ ptr + space := by
  have above : ptr ≤ alignUp alignment ptr := le_alignUp positive
  simp only [align,ite_eq_right_iff,reduceCtorEq,imp_false]
  omega
end Align

namespace MemoryArena
section Allocate
variable {a : MemoryArena} {size alignment fresh : Nat}

-- The window that a request is served from: the one there is, or the usable part
-- of the block that is created for it.
def source (a : MemoryArena) (size alignment fresh : Nat) : Region :=
  if a.needsBlock size alignment then usable (a.newBlock size fresh) else a.window

def blocksAfter (a : MemoryArena) (size alignment fresh : Nat) : List Region :=
  if a.needsBlock size alignment then a.newBlock size fresh :: a.headBlock else a.headBlock

-- Whether the aligned request fits into the block that would be created for it.
def Roomy (a : MemoryArena) (size alignment fresh : Nat) : Prop := a.needsBlock size alignment →
  alignUp alignment (fresh + sizeofBlock) + size ≤ fresh + max a.nextBlockSize (size + sizeofBlock)

instance (a : MemoryArena) (size alignment fresh : Nat) : Decidable (a.Roomy size alignment fresh) :=
  inferInstanceAs (Decidable (_ → _))

theorem alignWindow_blocks (a : MemoryArena) (size alignment : Nat) : (a.alignWindow size alignment).2.headBlock = a.headBlock ∧
    (a.alignWindow size alignment).2.nextBlockSize = a.nextBlockSize ∧
    (a.alignWindow size alignment).2.totalSize = a.totalSize := by
  rw [alignWindow]
  split <;> exact ⟨rfl,rfl,rfl⟩

theorem opened_blocks : (a.opened size alignment fresh).headBlock = a.blocksAfter size alignment fresh := by
  have same := alignWindow_blocks a size alignment
  rw [opened,blocksAfter]
  split
  · rw [createBlock,newBlock,newBlock,same.1,same.2.1]
  · exact same.1

theorem opened_old (fresh : Nat) (positive : 0 < alignment) (old : ¬ a.needsBlock size alignment) :
    alignment ∣ (a.opened size alignment fresh).nextPtr ∧ a.nextPtr ≤ (a.opened size alignment fresh).nextPtr ∧
      (a.opened size alignment fresh).window.stop = a.window.stop ∧ size ≤ (a.opened size alignment fresh).remainingSize ∧
      (a.opened size alignment fresh).nextPtr ≠ nullptr := by
  have same : a.opened size alignment fresh = (a.alignWindow size alignment).2 := if_neg old
  rw [needsBlock] at old
  rw [same]
  cases found : align alignment size a.nextPtr a.remainingSize with
  | none =>
    simp only [alignWindow,found] at old
    exact absurd trivial old
  | some window =>
    simp only [alignWindow,found] at old ⊢
    obtain ⟨dvd,above,stop,inside⟩ := align_some positive found
    exact ⟨dvd,above,stop,inside,old⟩

theorem opened_new (fresh : Nat) (new : a.needsBlock size alignment) : (a.opened size alignment fresh).window =
    match align alignment size (fresh + sizeofBlock) (subSize (a.newBlock size fresh).size sizeofBlock) with
    | some (ptr,space) => ⟨ptr,space⟩
    | none => ⟨nullptr,subSize (a.newBlock size fresh).size sizeofBlock⟩ := by
  have same := (alignWindow_blocks a size alignment).2.1
  rw [opened,if_pos new]
  simp only [createBlock,newBlock,same,window]
  split <;> simp_all

-- The arena after a request that was served, with the address it was given.
structure Served (a : MemoryArena) (size alignment fresh : Nat) : Prop where
  notNull : (a.allocate size alignment fresh).1 ≠ nullptr
  aligned : alignment ∣ (a.allocate size alignment fresh).1
  inside : Region.Inside ⟨(a.allocate size alignment fresh).1,size⟩ (a.source size alignment fresh)
  covered : size ≤ (a.opened size alignment fresh).remainingSize
  next : (a.allocate size alignment fresh).2.nextPtr = (a.allocate size alignment fresh).1 + size
  stop : (a.allocate size alignment fresh).2.window.stop = (a.source size alignment fresh).stop

theorem Served.window_inside (served : a.Served size alignment fresh) :
    (a.allocate size alignment fresh).2.window.Inside (a.source size alignment fresh) := by
  refine ⟨?_,Nat.le_of_eq served.stop⟩
  have low := served.inside.1
  simp only [window,served.next]
  exact Nat.le_trans low (Nat.le_add_right _ _)

theorem Served.window_apart (served : a.Served size alignment fresh) :
    Region.Apart ⟨(a.allocate size alignment fresh).1,size⟩ (a.allocate size alignment fresh).2.window := by
  refine .inl (Nat.le_of_eq ?_)
  exact served.next.symm

theorem allocate_blocks : (a.allocate size alignment fresh).2.headBlock = a.blocksAfter size alignment fresh := opened_blocks

theorem newBlock_size (a : MemoryArena) (fresh : Nat) (fits : size + sizeofBlock < sizeLimit) :
    (a.newBlock size fresh).size = max a.nextBlockSize (size + sizeofBlock) := by
  rw [newBlock,addSize_exact fits]

theorem usable_stop {block : Region} (header : sizeofBlock ≤ block.size) : (usable block).stop = block.stop := by
  simp only [usable,Region.stop]
  omega

theorem newBlock_header (a : MemoryArena) (fresh : Nat) (fits : size + sizeofBlock < sizeLimit) : sizeofBlock ≤ (a.newBlock size fresh).size := by
  rw [newBlock_size a fresh fits]
  omega

theorem opened_served (bounded : a.window.stop < sizeLimit) (fits : size + sizeofBlock < sizeLimit)
    (addressable : a.needsBlock size alignment → (a.newBlock size fresh).stop < sizeLimit)
    (opens : alignment ∣ (a.opened size alignment fresh).nextPtr ∧
      (a.source size alignment fresh).base ≤ (a.opened size alignment fresh).nextPtr ∧
      (a.opened size alignment fresh).window.stop = (a.source size alignment fresh).stop ∧
      size ≤ (a.opened size alignment fresh).remainingSize ∧ (a.opened size alignment fresh).nextPtr ≠ nullptr) :
    a.Served size alignment fresh := by
  obtain ⟨dvd,above,stop,covered,notNull⟩ := opens
  have below : (a.source size alignment fresh).stop < sizeLimit := by
    rw [source]
    split
    · rw [usable_stop (newBlock_header a fresh fits)]
      exact addressable ‹_›
    · exact bounded
  have whole : (a.opened size alignment fresh).nextPtr + (a.opened size alignment fresh).remainingSize =
      (a.source size alignment fresh).stop := stop
  have next : (a.allocate size alignment fresh).2.nextPtr = (a.opened size alignment fresh).nextPtr + size :=
    addSize_exact (by omega)
  have remaining : (a.allocate size alignment fresh).2.remainingSize = (a.opened size alignment fresh).remainingSize - size :=
    subSize_exact (by omega) covered
  refine ⟨notNull,dvd,⟨above,?_⟩,covered,next,?_⟩
  · rw [← whole]
    exact Nat.add_le_add_left covered _
  · show (a.allocate size alignment fresh).2.nextPtr + (a.allocate size alignment fresh).2.remainingSize = _
    rw [next,remaining,← whole]
    omega

theorem served_old (positive : 0 < alignment) (bounded : a.window.stop < sizeLimit) (fits : size + sizeofBlock < sizeLimit)
    (old : ¬ a.needsBlock size alignment) : a.Served size alignment fresh := by
  have opens := opened_old fresh positive old
  refine opened_served bounded fits (fun new => absurd new old) ?_
  rw [source,if_neg old]
  exact opens

theorem served_new (positive : 0 < alignment) (bounded : a.window.stop < sizeLimit) (fits : size + sizeofBlock < sizeLimit)
    (new : a.needsBlock size alignment) (addressable : (a.newBlock size fresh).stop < sizeLimit)
    (room : a.Roomy size alignment fresh) : a.Served size alignment fresh := by
  have header := newBlock_header a fresh fits
  have small : (a.newBlock size fresh).size < sizeLimit := Nat.lt_of_le_of_lt (Nat.le_add_left _ fresh) addressable
  have space : subSize (a.newBlock size fresh).size sizeofBlock = (usable (a.newBlock size fresh)).size :=
    subSize_exact small header
  have opens := opened_new fresh new
  have fitting := room new
  rw [← newBlock_size a fresh fits] at fitting
  cases found : align alignment size (fresh + sizeofBlock) (subSize (a.newBlock size fresh).size sizeofBlock) with
  | none =>
    refine absurd ?_ ((align_none positive).mp found)
    have rest : (usable (a.newBlock size fresh)).size = (a.newBlock size fresh).size - sizeofBlock := rfl
    rw [space,rest]
    omega
  | some start =>
    obtain ⟨dvd,above,stop,inside⟩ := align_some positive found
    rw [found] at opens
    have next : (a.opened size alignment fresh).nextPtr = start.1 := congrArg Region.base opens
    have rest : (a.opened size alignment fresh).remainingSize = start.2 := congrArg Region.size opens
    refine opened_served bounded fits (fun _ => addressable) ?_
    rw [source,if_pos new,next,rest,window,next,rest]
    refine ⟨dvd,above,?_,inside,fun null => ?_⟩
    · rw [space] at stop
      exact stop
    · have : 0 < sizeofBlock := by decide
      rw [null] at above
      exact absurd above (by simp only [nullptr]; omega)

theorem served_roomy (positive : 0 < alignment) (bounded : a.window.stop < sizeLimit) (fits : size + sizeofBlock < sizeLimit)
    (addressable : a.needsBlock size alignment → (a.newBlock size fresh).stop < sizeLimit)
    (room : a.Roomy size alignment fresh) : a.Served size alignment fresh := by
  by_cases new : a.needsBlock size alignment
  · exact served_new positive bounded fits new (addressable new) room
  · exact served_old positive bounded fits new

-- Where the new block is too small for the aligned request, null is handed out.
theorem allocate_null (positive : 0 < alignment) (fits : size + sizeofBlock < sizeLimit)
    (addressable : a.needsBlock size alignment → (a.newBlock size fresh).stop < sizeLimit)
    (cramped : ¬ a.Roomy size alignment fresh) : (a.allocate size alignment fresh).1 = nullptr := by
  obtain ⟨new,tight⟩ := Classical.not_imp.mp cramped
  have header := newBlock_header a fresh fits
  have small : (a.newBlock size fresh).size < sizeLimit := Nat.lt_of_le_of_lt (Nat.le_add_left _ fresh) (addressable new)
  have space := subSize_exact small header
  have none_ : align alignment size (fresh + sizeofBlock) (subSize (a.newBlock size fresh).size sizeofBlock) = none := by
    rw [align_none positive,space]
    rw [← newBlock_size a fresh fits] at tight
    omega
  have opens := opened_new fresh new
  rw [none_] at opens
  exact congrArg Region.base opens

-- An alignment that operator new keeps for the header too never lacks room.
theorem roomy_small (positive : 0 < alignment) (dvd : alignment ∣ fresh + sizeofBlock) : a.Roomy size alignment fresh := by
  intro _
  rw [alignUp_same positive dvd]
  omega

theorem roomy_power (power : ∃ k ≤ 3, alignment = 2 ^ k) (aligned : a.needsBlock size alignment → 16 ∣ fresh) :
    a.Roomy size alignment fresh := by
  obtain ⟨k,small,rfl⟩ := power
  have header : 2 ^ k ∣ sizeofBlock := Nat.pow_dvd_pow 2 small
  intro new
  have base : 2 ^ k ∣ fresh := Nat.dvd_trans (Nat.dvd_trans header (by decide : sizeofBlock ∣ 16)) (aligned new)
  exact roomy_small (Nat.pow_pos (by decide)) (Nat.dvd_add base header) new
end Allocate
end MemoryArena
end Cero
