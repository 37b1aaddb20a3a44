import Cero.MemoryArena

-- Where the memory lies that one arena hands out.
namespace Cero.MemoryArena
open Run

structure Request where
  size : Nat
  alignment : Nat
  fresh : Nat
  deriving DecidableEq, Repr

-- An arena and the regions that it has returned so far.
structure Lent where
  arena : MemoryArena
  regions : List Region

def Lent.start (initialSize : Nat) : Lent := ⟨ofSize initialSize,[]⟩

def Lent.region (s : Lent) (q : Request) : Region := ⟨(s.arena.allocate q.size q.alignment q.fresh).1,q.size⟩

def Lent.step (s : Lent) (q : Request) : Lent :=
  ⟨(s.arena.allocate q.size q.alignment q.fresh).2,s.region q :: s.regions⟩

-- What a caller and operator new promise.
structure Admissible (s : Lent) (q : Request) : Prop where
  positive : 0 < q.size
  power : ∃ k, q.alignment = 2 ^ k
  fits : q.size + sizeofBlock < sizeLimit
  fresh : s.arena.needsBlock q.size q.alignment → Fresh s.arena.headBlock (s.arena.newBlock q.size q.fresh)

-- What is expected of one call.
structure Correct (s : Lent) (q : Request) : Prop where
  notNull : (s.region q).base ≠ nullptr
  aligned : q.alignment ∣ (s.region q).base
  owned : ∃ block ∈ (s.step q).arena.headBlock, (s.region q).Inside (usable block)
  apart : ∀ earlier ∈ s.regions, (s.region q).Apart earlier
  noUnderflow : q.size ≤ (s.arena.opened q.size q.alignment q.fresh).remainingSize
  remaining : ∃ head rest, (s.step q).arena.headBlock = head :: rest ∧
    (s.step q).arena.nextPtr + (s.step q).arena.remainingSize = head.stop

def RoomFor (s : Lent) (q : Request) : Prop := s.arena.Roomy q.size q.alignment q.fresh

-- The window is what is left of the head block; what was returned lies in the
-- blocks and apart from it.
structure Sound (s : Lent) : Prop where
  window : s.arena.headBlock = [] ∧ s.arena.window = ⟨nullptr,0⟩ ∨ ∃ head rest, s.arena.headBlock = head :: rest ∧
    s.arena.window.Inside (usable head) ∧ s.arena.window.stop = head.stop
  blocks : ∀ block ∈ s.arena.headBlock, sizeofBlock ≤ block.size ∧ block.stop < sizeLimit
  regions : ∀ region ∈ s.regions, region.Apart s.arena.window ∧ ∃ block ∈ s.arena.headBlock, region.Inside (usable block)

theorem start_sound (initialSize : Nat) : Sound (.start initialSize) :=
  ⟨.inl ⟨rfl,rfl⟩,fun _ member => (by cases member),fun _ member => (by cases member)⟩

theorem usable_inside {block : Region} (header : sizeofBlock ≤ block.size) : (usable block).Inside block :=
  ⟨Nat.le_add_right _ _,Nat.le_of_eq (usable_stop header)⟩

section Step
variable {s : Lent} {q : Request}

theorem Admissible.alignment (admissible : Admissible s q) : 0 < q.alignment := by
  obtain ⟨k,same⟩ := admissible.power
  rw [same]
  exact Nat.pow_pos (by decide)

theorem Sound.bounded (sound : Sound s) : s.arena.window.stop < sizeLimit := by
  rcases sound.window with ⟨_,none⟩ | ⟨head,rest,blocks,_,stop⟩
  · rw [none]
    decide
  · rw [stop]
    exact (sound.blocks head (by rw [blocks]; exact List.mem_cons_self)).2

-- A window without a block is empty: nothing fits.
theorem Sound.owns (sound : Sound s) (old : ¬ s.arena.needsBlock q.size q.alignment) :
    ∃ head rest, s.arena.headBlock = head :: rest ∧ s.arena.window.Inside (usable head) ∧ s.arena.window.stop = head.stop := by
  rcases sound.window with ⟨_,none⟩ | some
  · have next : s.arena.nextPtr = 0 := congrArg Region.base none
    have remaining : s.arena.remainingSize = 0 := congrArg Region.size none
    refine absurd ?_ old
    rw [needsBlock,alignWindow,next,remaining]
    cases found : align q.alignment q.size 0 0 with
    | none => rfl
    | some window =>
      simp only [align] at found
      split at found
      · have same := congrArg Prod.fst (Option.some.inj found)
        rw [← same]
        simp only [nullptr]
        omega
      · cases found
  · exact some

theorem step_served (sound : Sound s) (admissible : Admissible s q)
    (served : s.arena.Served q.size q.alignment q.fresh) : Correct s q ∧ Sound (s.step q) := by
  have blocks : (s.step q).arena.headBlock = s.arena.blocksAfter q.size q.alignment q.fresh := allocate_blocks
  have inside : (s.region q).Inside (s.arena.source q.size q.alignment q.fresh) := served.inside
  have windowInside : (s.step q).arena.window.Inside (s.arena.source q.size q.alignment q.fresh) := served.window_inside
  by_cases new : s.arena.needsBlock q.size q.alignment
  · have source : s.arena.source q.size q.alignment q.fresh = usable (s.arena.newBlock q.size q.fresh) := if_pos new
    have fresh := admissible.fresh new
    have header := newBlock_header s.arena q.fresh admissible.fits
    rw [blocksAfter,if_pos new] at blocks
    rw [source] at inside windowInside
    have stop : (s.step q).arena.window.stop = (s.arena.newBlock q.size q.fresh).stop := by
      rw [← usable_stop header,← source]
      exact served.stop
    -- whatever lies in the new block is apart from what was returned earlier
    have away : ∀ {r : Region}, r.Inside (usable (s.arena.newBlock q.size q.fresh)) → ∀ earlier ∈ s.regions, r.Apart earlier := by
      intro r within earlier member
      obtain ⟨_,block,among,place⟩ := sound.regions earlier member
      have place := place.trans (usable_inside (sound.blocks block among).1)
      exact (fresh.apart block among).both (within.trans (usable_inside header)) place
    refine ⟨⟨served.notNull,served.aligned,⟨_,by rw [blocks]; exact List.mem_cons_self,inside⟩,away inside,served.covered,
      _,_,blocks,stop⟩,.inr ⟨_,_,blocks,windowInside,stop⟩,?_,?_⟩
    · intro block member
      rw [blocks] at member
      rcases List.mem_cons.mp member with rfl | older
      · exact ⟨header,fresh.addressable⟩
      · exact sound.blocks block older
    · intro region member
      rw [blocks]
      rcases List.mem_cons.mp member with rfl | earlier
      · exact ⟨served.window_apart,_,List.mem_cons_self,inside⟩
      · obtain ⟨_,block,among,place⟩ := sound.regions region earlier
        exact ⟨(away windowInside region earlier).symm,block,List.mem_cons_of_mem _ among,place⟩
  · have source : s.arena.source q.size q.alignment q.fresh = s.arena.window := if_neg new
    obtain ⟨head,rest,owned,within,stop⟩ := sound.owns new
    rw [blocksAfter,if_neg new] at blocks
    rw [source] at inside windowInside
    have stop' : (s.step q).arena.window.stop = head.stop := by
      rw [← stop,← source]
      exact served.stop
    have headMember : head ∈ s.arena.headBlock := by rw [owned]; exact List.mem_cons_self
    refine ⟨⟨served.notNull,served.aligned,⟨head,by rw [blocks]; exact headMember,inside.trans within⟩,?_,served.covered,
      head,rest,by rw [blocks,owned],stop'⟩,.inr ⟨head,rest,by rw [blocks,owned],windowInside.trans within,stop'⟩,?_,?_⟩
    · intro earlier member
      exact ((sound.regions earlier member).1.inside inside).symm
    · intro block member
      rw [blocks] at member
      exact sound.blocks block member
    · intro region member
      rw [blocks]
      rcases List.mem_cons.mp member with rfl | earlier
      · exact ⟨served.window_apart,head,headMember,inside.trans within⟩
      · obtain ⟨apart,place⟩ := sound.regions region earlier
        exact ⟨apart.inside windowInside,place⟩

theorem room_served (sound : Sound s) (admissible : Admissible s q) (room : RoomFor s q) :
    s.arena.Served q.size q.alignment q.fresh :=
  served_roomy admissible.alignment sound.bounded admissible.fits (fun new => (admissible.fresh new).addressable) room

theorem correct_iff_room (sound : Sound s) (admissible : Admissible s q) : Correct s q ↔ RoomFor s q := by
  constructor
  · intro correct
    by_contra cramped
    exact correct.notNull (allocate_null admissible.alignment admissible.fits
      (fun new => (admissible.fresh new).addressable) cramped)
  · exact fun room => (step_served sound admissible (room_served sound admissible room)).1
end Step

-- Every call of a run is right just when every block that is created has room for
-- the padding behind its header.
theorem arena_geometry (initialSize : Nat) (requests : List Request)
    (admissible : Along Lent.step Admissible (.start initialSize) requests) :
    Along Lent.step Correct (.start initialSize) requests ↔ Along Lent.step RoomFor (.start initialSize) requests :=
  along_iff admissible (fun _ _ sound proper => correct_iff_room sound proper)
    (fun _ _ sound proper room => (step_served sound proper (room_served sound proper room)).2) (start_sound initialSize)

-- 1016 bytes fill a first block of 1024 but for its header.
def fullBlock : Request := ⟨1016,16,4096⟩

theorem fullBlock_admissible : Along Lent.step Admissible (.start initialBlockSize) [fullBlock] :=
  ⟨⟨by decide,⟨4,rfl⟩,by decide,fun _ => ⟨by decide,by decide,by decide,by simp [Lent.start,ofSize]⟩⟩,trivial⟩

theorem arena_geometry_full : ¬ ∀ initialSize requests, Along Lent.step Admissible (.start initialSize) requests →
    Along Lent.step Correct (.start initialSize) requests := by
  intro always
  obtain ⟨correct,_⟩ := always _ _ fullBlock_admissible
  exact correct.notNull (by decide)

theorem arena_geometry_fullBlock : Along Lent.step Correct (.start initialBlockSize) [fullBlock] ↔
    Along Lent.step RoomFor (.start initialBlockSize) [fullBlock] :=
  arena_geometry initialBlockSize [fullBlock] fullBlock_admissible
end Cero.MemoryArena
