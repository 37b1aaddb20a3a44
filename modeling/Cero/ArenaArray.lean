import Cero.ArenaGeometry
import Cero.Library.ByteMemory

-- Arrays of elements in an arena, and the memory that they lie in.
namespace Cero
open MemoryArena

def mulSize (a b : Nat) : Nat := a * b % sizeLimit

-- `uint32_t`, the type of the counts and the capacities.
def wordLimit : Nat := 2 ^ 32

def pointer : Layout UInt64 where
  size := 8
  alignment := 8
  encode address := toBytes 8 address.toNat
  decode bytes := UInt64.ofNat (ofBytes bytes)
  sized := by decide
  encoded _ := toBytes_length
  decoded address := by rw [ofBytes_toBytes address.toNat_lt,UInt64.ofNat_toNat]

structure Storage where
  arena : MemoryArena
  memory : ByteMemory

namespace Storage
def start (initialSize : Nat) (memory : ByteMemory) : Storage := ⟨ofSize initialSize,memory⟩

def headPointer (a : MemoryArena) : UInt64 := UInt64.ofNat ((a.headBlock.map Region.base).headD nullptr)

-- A block that is created starts with its header.
def allocate (s : Storage) (q : Request) : Nat × Storage :=
  let (ptr,arena) := s.arena.allocate q.size q.alignment q.fresh
  let memory := if s.arena.needsBlock q.size q.alignment then s.memory.write q.fresh (pointer.encode (headPointer s.arena))
    else s.memory
  (ptr,⟨arena,memory⟩)

-- An object is created from its bytes.
def create (s : Storage) (contents : List UInt8) (alignment fresh : Nat) : Nat × Storage :=
  let (storage,s) := s.allocate ⟨contents.length,alignment,fresh⟩
  (storage,{s with memory := s.memory.write storage contents})
end Storage

structure ArenaArray where
  data : Nat
  count : Nat
  capacity : Nat
  deriving DecidableEq, Repr

namespace ArenaArray
variable {α : Type}

def empty : ArenaArray := ⟨nullptr,0,0⟩

def initialCapacity : Nat := 4

def newCap (array : ArenaArray) : Nat := max (addSize array.capacity (array.capacity / 2)) initialCapacity

def request (layout : Layout α) (array : ArenaArray) (fresh : Nat) : Request :=
  ⟨mulSize array.newCap layout.size,layout.alignment,fresh⟩

-- The branch of `put` for a full array.
def grow (layout : Layout α) (array : ArenaArray) (fresh : Nat) (s : Storage) : ArenaArray × Storage :=
  let (storage,s) := s.allocate (array.request layout fresh)
  let memory := s.memory.copy storage array.data (mulSize array.count layout.size)
  ({array with data := storage, capacity := array.newCap % wordLimit},{s with memory := memory})

def append (layout : Layout α) (value : α) (array : ArenaArray) (s : Storage) : ArenaArray × Storage :=
  let memory := s.memory.write (array.data + array.count * layout.size) (layout.encode value)
  ({array with count := (array.count + 1) % wordLimit},{s with memory := memory})

def put (layout : Layout α) (value : α) (array : ArenaArray) (fresh : Nat) (s : Storage) : ArenaArray × Storage :=
  let (array,s) := if array.count = array.capacity then array.grow layout fresh s else (array,s)
  array.append layout value s

def begin_ (array : ArenaArray) : Nat := array.data
def end_ (layout : Layout α) (array : ArenaArray) : Nat := array.data + array.count * layout.size

-- What an iteration from begin to end comes by.
def elements (layout : Layout α) (memory : ByteMemory) (array : ArenaArray) : List α :=
  layout.readAll memory array.begin_ ((array.end_ layout - array.begin_) / layout.size)

def extent (layout : Layout α) (array : ArenaArray) : Region := ⟨array.data,array.capacity * layout.size⟩
end ArenaArray

namespace Storage
section Allocate
variable {s : Storage} {q : Request}

-- What an allocation does for the storage that is in use.
structure Granted (s : Storage) (q : Request) : Prop where
  sound : Sound ⟨(s.allocate q).2.arena,[⟨(s.allocate q).1,q.size⟩]⟩
  apart : ∀ used, Sound ⟨s.arena,[used]⟩ → Region.Apart ⟨(s.allocate q).1,q.size⟩ used
  kept : ∀ used, Sound ⟨s.arena,[used]⟩ → Sound ⟨(s.allocate q).2.arena,[used]⟩
  frame : ∀ used, Sound ⟨s.arena,[used]⟩ → (s.allocate q).2.memory.read used.base used.size = s.memory.read used.base used.size

theorem sound_subset {a : MemoryArena} {rs more : List Region} (sound : Sound ⟨a,more⟩) (subset : rs ⊆ more) : Sound ⟨a,rs⟩ :=
  ⟨sound.window,sound.blocks,fun r member => sound.regions r (subset member)⟩

theorem admissible_regions {a : MemoryArena} (rs : List Region) (admissible : Admissible ⟨a,[]⟩ q) : Admissible ⟨a,rs⟩ q :=
  ⟨admissible.positive,admissible.power,admissible.fits,admissible.fresh⟩

-- The header of a new block lies apart from what is in use in the others.
theorem header_frame (admissible : Admissible ⟨s.arena,[]⟩ q) {used : Region} (sound : Sound ⟨s.arena,[used]⟩) :
    (s.allocate q).2.memory.read used.base used.size = s.memory.read used.base used.size := by
  by_cases new : s.arena.needsBlock q.size q.alignment
  · have written : (s.allocate q).2.memory = s.memory.write q.fresh (pointer.encode (headPointer s.arena)) := if_pos new
    have fresh := admissible.fresh new
    have size := newBlock_size s.arena q.fresh admissible.fits
    obtain ⟨_,block,member,inside⟩ := sound.regions used List.mem_cons_self
    have within := inside.trans (usable_inside (sound.blocks block member).1)
    have header : Region.Inside ⟨q.fresh,(pointer.encode (headPointer s.arena)).length⟩ (s.arena.newBlock q.size q.fresh) := by
      refine ⟨Nat.le_refl _,?_⟩
      rw [pointer.encoded]
      have small := newBlock_header s.arena q.fresh admissible.fits
      exact Nat.add_le_add_left small q.fresh
    rw [written]
    exact ByteMemory.read_apart ((fresh.apart block member).both header within)
  · have same : (s.allocate q).2.memory = s.memory := if_neg new
    rw [same]

theorem allocate_granted (sound : Sound ⟨s.arena,[]⟩) (admissible : Admissible ⟨s.arena,[]⟩ q)
    (power : ∃ k ≤ 3, q.alignment = 2 ^ k) : Granted s q := by
  have room : s.arena.Roomy q.size q.alignment q.fresh := roomy_power power fun new => (admissible.fresh new).aligned
  have served := fun used sound => step_served (s := ⟨s.arena,[used]⟩) sound (admissible_regions _ admissible)
    (room_served sound (admissible_regions _ admissible) room)
  have first := step_served sound admissible (room_served sound admissible room)
  refine ⟨first.2,?_,?_,fun used => header_frame admissible⟩
  · intro used sound
    exact (served used sound).1.apart used List.mem_cons_self
  · intro used sound
    exact sound_subset (served used sound).2 (List.subset_cons_self _ _)
end Allocate
end Storage
end Cero
