import Cero.ArenaGeometry
import Mathlib.Data.List.Perm.Subperm
import Mathlib.Logic.Function.Basic

-- Any number of arenas over the blocks that operator new has handed out.
namespace Cero.MemoryArena
open Run

-- `obtained` and `deleted` keep count of the calls of operator new and delete.
structure World where
  live : List Region
  obtained : List Region
  deleted : List Region
  arenas : Nat → Option MemoryArena

def World.start : World := ⟨[],[],[],fun _ => none⟩

inductive Op where
  | construct (i initialSize : Nat)
  | allocate (i : Nat) (q : Request)
  | release (i : Nat)
  | moveConstruct (i j : Nat)
  | moveAssign (i j : Nat)
  | destroy (i : Nat)

def World.put (w : World) (i : Nat) (a : Option MemoryArena) : World := {w with arenas := Function.update w.arenas i a}

def World.allocate (w : World) (i : Nat) (a : MemoryArena) (q : Request) : World :=
  let grown : World := if a.needsBlock q.size q.alignment then
      {w with live := a.newBlock q.size q.fresh :: w.live, obtained := a.newBlock q.size q.fresh :: w.obtained}
    else w
  grown.put i (a.allocate q.size q.alignment q.fresh).2

-- The arena without its blocks, and the world in which they are deleted. A block
-- that is not live cannot be deleted.
def World.release (w : World) (a : MemoryArena) : Option (MemoryArena × World) :=
  (a.release w.live).map fun (a',live) => (a',{w with live := live, deleted := a.headBlock ++ w.deleted})

def World.step (w : World) : Op → Option World
  | .construct i initialSize => some (w.put i (some (ofSize initialSize)))
  | .allocate i q => (w.arenas i).map (w.allocate i · q)
  | .release i => do
    let a ← w.arenas i
    let (a',w) ← w.release a
    return w.put i (some a')
  | .moveConstruct i j => do
    let other ← w.arenas j
    return (w.put j (some movedFrom)).put i (some other)
  | .moveAssign i j => do
    let a ← w.arenas i
    if i ≠ j then
      let (_,w) ← w.release a
      let other ← w.arenas j
      return (w.put j (some movedFrom)).put i (some other)
    else return w
  | .destroy i => do
    let a ← w.arenas i
    let (_,w) ← w.release a
    return w.put i none

-- What a program has to keep to: operations on arenas that there are, alignments up
-- to that of a pointer, and what operator new promises.
def Allowed (w : World) : Op → Prop
  | .construct i _ => w.arenas i = none
  | .allocate i q => ∃ a, w.arenas i = some a ∧ (∃ k ≤ 3, q.alignment = 2 ^ k) ∧
      (a.needsBlock q.size q.alignment → Fresh w.live (a.newBlock q.size q.fresh))
  | .release i | .destroy i => ∃ a, w.arenas i = some a
  | .moveConstruct i j => w.arenas i = none ∧ ∃ a, w.arenas j = some a
  | .moveAssign i j => (∃ a, w.arenas i = some a) ∧ ∃ a, w.arenas j = some a

def blocksOf : Option MemoryArena → List Region
  | some a => a.headBlock
  | none => []

def World.owned (w : World) (i : Nat) : List Region := blocksOf (w.arenas i)

-- What is expected of every state: each live block is owned by exactly one arena,
-- each block was deleted just once or is live, the total sizes are right and every
-- window is empty or lies in a block of its arena.
structure Kept (w : World) : Prop where
  counted : w.obtained.Perm (w.live ++ w.deleted)
  live : ∀ i, ∀ block ∈ w.owned i, block ∈ w.live
  owned : ∀ block ∈ w.live, ∃ i, block ∈ w.owned i ∧ ∀ j, block ∈ w.owned j → j = i
  total : ∀ i a, w.arenas i = some a → a.getTotalSize = (a.headBlock.map Region.size).sum
  window : ∀ i a, w.arenas i = some a → a.remainingSize = 0 ∨ ∃ block ∈ a.headBlock, a.window.Inside (usable block)

-- What is expected of every allocation: its bytes lie in a block of the arena.
def Returned (w : World) : Op → Prop
  | .allocate i q => ∀ a, w.arenas i = some a → q.size = 0 ∨ ∃ block ∈ (a.allocate q.size q.alignment q.fresh).2.headBlock,
      Region.Inside ⟨(a.allocate q.size q.alignment q.fresh).1,q.size⟩ (usable block)
  | _ => True

-- The sizes of requests do not wrap, and an arena is released only when its window
-- is empty.
def Harmless (w : World) : Op → Prop
  | .allocate _ q => q.size + sizeofBlock < sizeLimit
  | .release i => ∀ a, w.arenas i = some a → a.remainingSize = 0
  | _ => True

-- One arena by itself.
structure Healthy (a : MemoryArena) : Prop where
  apart : a.headBlock.Pairwise Region.Apart
  blocks : ∀ block ∈ a.headBlock, sizeofBlock ≤ block.size ∧ block.stop < sizeLimit
  total : a.totalSize = (a.headBlock.map Region.size).sum
  window : a.remainingSize = 0 ∨ ∃ block ∈ a.headBlock, a.window.Inside (usable block)
  bounded : a.window.stop < sizeLimit

structure Governed (w : World) : Prop where
  counted : w.obtained.Perm (w.live ++ w.deleted)
  apart : w.live.Pairwise Region.Apart
  sizes : ∀ block ∈ w.live, 0 < block.size
  live : ∀ block, block ∈ w.live ↔ ∃ i, block ∈ w.owned i
  alone : ∀ i j block, block ∈ w.owned i → block ∈ w.owned j → i = j
  healthy : ∀ i a, w.arenas i = some a → Healthy a

section Arenas
variable {a : MemoryArena} {q : Request} {live : List Region}

theorem ofSize_healthy (initialSize : Nat) : Healthy (ofSize initialSize) := by
  have null : (ofSize initialSize).window.stop = 0 := rfl
  exact ⟨.nil,fun _ member => (by cases member),rfl,.inl rfl,by rw [null]; decide⟩

-- Without its blocks an arena is in order when there is nothing left of its window.
theorem released_healthy (healthy : Healthy a) (spent : a.remainingSize = 0) :
    Healthy {a with headBlock := [], totalSize := 0} :=
  ⟨.nil,fun _ member => (by cases member),rfl,.inl spent,healthy.bounded⟩

theorem allocate_totalSize : (a.allocate q.size q.alignment q.fresh).2.totalSize =
    if a.needsBlock q.size q.alignment then addSize a.totalSize (a.newBlock q.size q.fresh).size else a.totalSize := by
  have same := alignWindow_blocks a q.size q.alignment
  show (a.opened q.size q.alignment q.fresh).totalSize = _
  rw [opened]
  split
  · rw [createBlock,newBlock,newBlock,same.2.1,same.2.2]
  · exact same.2.2

theorem small_served (healthy : Healthy a) (power : ∃ k ≤ 3, q.alignment = 2 ^ k) (fits : q.size + sizeofBlock < sizeLimit)
    (fresh : a.needsBlock q.size q.alignment → Fresh live (a.newBlock q.size q.fresh)) :
    a.Served q.size q.alignment q.fresh := by
  have positive : 0 < q.alignment := by
    obtain ⟨k,_,same⟩ := power
    exact same ▸ Nat.pow_pos (by decide)
  exact served_roomy positive healthy.bounded fits (fun new => (fresh new).addressable)
    (roomy_power power fun new => (fresh new).aligned)

-- What a request is served from lies in a block of the arena.
theorem source_inside (healthy : Healthy a) {r : Region} (inside : r.Inside (a.source q.size q.alignment q.fresh)) :
    r.size = 0 ∨ ∃ block ∈ (a.allocate q.size q.alignment q.fresh).2.headBlock, r.Inside (usable block) := by
  rw [allocate_blocks,blocksAfter]
  by_cases new : a.needsBlock q.size q.alignment
  · rw [if_pos new]
    rw [source,if_pos new] at inside
    exact .inr ⟨_,List.mem_cons_self,inside⟩
  · rw [if_neg new]
    rw [source,if_neg new] at inside
    rcases healthy.window with spent | ⟨block,member,within⟩
    · refine .inl ?_
      obtain ⟨low,high⟩ := inside
      simp only [window,Region.stop,spent] at low high
      omega
    · exact .inr ⟨block,member,inside.trans within⟩

theorem allocate_healthy (healthy : Healthy a) (served : a.Served q.size q.alignment q.fresh)
    (fits : q.size + sizeofBlock < sizeLimit) (ours : ∀ block ∈ a.headBlock, block ∈ live)
    (fresh : a.needsBlock q.size q.alignment → Fresh live (a.newBlock q.size q.fresh)) :
    Healthy (a.allocate q.size q.alignment q.fresh).2 := by
  have window := source_inside healthy served.window_inside
  have header := newBlock_header a q.fresh fits
  by_cases new : a.needsBlock q.size q.alignment
  · have blocks : (a.allocate q.size q.alignment q.fresh).2.headBlock = a.newBlock q.size q.fresh :: a.headBlock := by
      rw [allocate_blocks,blocksAfter,if_pos new]
    have apart : (a.newBlock q.size q.fresh :: a.headBlock).Pairwise Region.Apart :=
      .cons (fun block member => (fresh new).apart block (ours block member)) healthy.apart
    have bounds : ∀ block ∈ a.newBlock q.size q.fresh :: a.headBlock, sizeofBlock ≤ block.size ∧ block.stop < sizeLimit :=
      List.forall_mem_cons.mpr ⟨⟨header,(fresh new).addressable⟩,healthy.blocks⟩
    have together : ((a.newBlock q.size q.fresh :: a.headBlock).map Region.size).sum ≤ sizeLimit - 1 :=
      Region.sizes_bounded apart fun block member => Nat.le_sub_one_of_lt (bounds block member).2
    refine ⟨blocks ▸ apart,blocks ▸ bounds,?_,window,?_⟩
    · rw [allocate_totalSize,if_pos new,blocks,healthy.total,List.map_cons,List.sum_cons]
      rw [List.map_cons,List.sum_cons] at together
      have some_ : 0 < sizeLimit := by decide
      exact (addSize_exact (by omega)).trans (Nat.add_comm _ _)
    · rw [served.stop,source,if_pos new,usable_stop header]
      exact (fresh new).addressable
  · have blocks : (a.allocate q.size q.alignment q.fresh).2.headBlock = a.headBlock := by
      rw [allocate_blocks,blocksAfter,if_neg new]
    refine ⟨blocks ▸ healthy.apart,blocks ▸ healthy.blocks,?_,window,?_⟩
    · rw [allocate_totalSize,if_neg new,blocks]
      exact healthy.total
    · rw [served.stop,source,if_neg new]
      exact healthy.bounded
end Arenas

theorem deleteBlocks_live {blocks live : List Region} (ours : ∀ block ∈ blocks, block ∈ live) (once : blocks.Nodup) :
    ∃ live', deleteBlocks blocks live = some live' ∧ live.Perm (blocks ++ live') := by
  induction blocks generalizing live with
  | nil => exact ⟨live,rfl,.refl _⟩
  | cons block rest ih =>
    obtain ⟨absent,once⟩ := List.nodup_cons.mp once
    have here := ours block List.mem_cons_self
    have later : ∀ other ∈ rest, other ∈ live.erase block := by
      intro other member
      refine (List.mem_erase_of_ne ?_).mpr (ours other (List.mem_cons_of_mem _ member))
      rintro rfl
      exact absent member
    obtain ⟨live',deleted,split_⟩ := ih later once
    exact ⟨live',by rw [deleteBlocks,if_pos here,deleted],(List.perm_cons_erase here).trans (.cons block split_)⟩

section Worlds
variable {w w' : World} {i j : Nat} {a a' : MemoryArena}

@[simp] theorem put_same (w : World) (i : Nat) (new : Option MemoryArena) : (w.put i new).arenas i = new := by
  simp [World.put]

theorem put_other (w : World) {i k : Nat} (new : Option MemoryArena) (other : k ≠ i) : (w.put i new).arenas k = w.arenas k := by
  simp [World.put,Function.update_of_ne other]

theorem owned_put (w : World) (i : Nat) (a : Option MemoryArena) (k : Nat) :
    (w.put i a).owned k = if k = i then blocksOf a else w.owned k := by
  rw [World.owned]
  by_cases same : k = i
  · rw [same,if_pos rfl,put_same]
  · rw [if_neg same,put_other w a same]
    rfl

theorem Governed.nodup (governed : Governed w) : w.live.Nodup := by
  refine governed.apart.imp_of_mem ?_
  rintro r s member _ apart rfl
  exact (Region.Inside.refl r).meets (governed.sizes r member) apart

theorem Healthy.nodup (healthy : Healthy a) : a.headBlock.Nodup := by
  refine healthy.apart.imp_of_mem ?_
  rintro r s member _ apart rfl
  have positive : 0 < r.size := Nat.lt_of_lt_of_le (by decide) (healthy.blocks r member).1
  exact (Region.Inside.refl r).meets positive apart

theorem start_governed : Governed .start :=
  ⟨.refl _,.nil,fun _ member => (by cases member),fun block => by simp [World.start,World.owned,blocksOf],
    fun i j block owns => by simp [World.start,World.owned,blocksOf] at owns,fun i a here => by simp [World.start] at here⟩

theorem Governed.kept (governed : Governed w) : Kept w := by
  refine ⟨governed.counted,fun i block owns => (governed.live block).mpr ⟨i,owns⟩,?_,
    fun i a here => (governed.healthy i a here).total,fun i a here => (governed.healthy i a here).window⟩
  intro block member
  obtain ⟨i,owns⟩ := (governed.live block).mp member
  exact ⟨i,owns,fun j others => governed.alone j i block others owns⟩

theorem put_healthy {new : Option MemoryArena} (healthy : ∀ k a, w.arenas k = some a → Healthy a)
    (ours : ∀ b, new = some b → Healthy b) (k : Nat) (b : MemoryArena) (here : (w.put i new).arenas k = some b) : Healthy b := by
  by_cases same : k = i
  · rw [same,put_same] at here
    exact ours b here
  · rw [put_other w new same] at here
    exact healthy k b here

-- An arena that comes, goes or changes without a change of its blocks.
theorem governed_put {new : Option MemoryArena} (governed : Governed w) (same : blocksOf new = w.owned i)
    (ours : ∀ b, new = some b → Healthy b) : Governed (w.put i new) := by
  have owned : ∀ k, (w.put i new).owned k = w.owned k := by
    intro k
    rw [owned_put]
    split
    · rename_i here
      rw [same,here]
    · rfl
  refine ⟨governed.counted,governed.apart,governed.sizes,fun block => ?_,fun k l block => ?_,put_healthy governed.healthy ours⟩
  · simp only [owned]
    exact governed.live block
  · rw [owned,owned]
    exact governed.alone k l block

theorem governed_grow {block : Region} (governed : Governed w) (here : w.arenas i = some a) (fresh : Fresh w.live block)
    (some_ : 0 < block.size) (blocks : a'.headBlock = block :: a.headBlock) (ours : Healthy a') :
    Governed (World.put {w with live := block :: w.live, obtained := block :: w.obtained} i (some a')) := by
  have before : w.owned i = a.headBlock := by rw [World.owned,here,blocksOf]
  have owned : ∀ k, (World.put {w with live := block :: w.live, obtained := block :: w.obtained} i (some a')).owned k =
      if k = i then block :: w.owned i else w.owned k := by
    intro k
    rw [owned_put,blocksOf,blocks,before]
    rfl
  have absent : ∀ k, block ∉ w.owned k := fun k owns =>
    (Region.Inside.refl block).meets some_ (fresh.apart block ((governed.live block).mpr ⟨k,owns⟩))
  refine ⟨governed.counted.cons block,.cons fresh.apart governed.apart,List.forall_mem_cons.mpr ⟨some_,governed.sizes⟩,?_,?_,
    put_healthy governed.healthy fun b same => Option.some.inj same ▸ ours⟩
  · intro other
    simp only [owned]
    constructor
    · intro member
      rcases List.mem_cons.mp member with rfl | older
      · exact ⟨i,by rw [if_pos rfl]; exact List.mem_cons_self⟩
      · obtain ⟨k,owns⟩ := (governed.live other).mp older
        refine ⟨k,?_⟩
        split
        · rename_i same
          exact List.mem_cons_of_mem _ (same ▸ owns)
        · exact owns
    · rintro ⟨k,owns⟩
      split at owns
      · rcases List.mem_cons.mp owns with rfl | older
        · exact List.mem_cons_self
        · exact List.mem_cons_of_mem _ ((governed.live other).mpr ⟨i,older⟩)
      · exact List.mem_cons_of_mem _ ((governed.live other).mpr ⟨k,owns⟩)
  · intro k l other first second
    rw [owned] at first second
    split at first <;> split at second
    · exact Eq.trans ‹_› (Eq.symm ‹_›)
    · rcases List.mem_cons.mp first with rfl | older
      · exact absurd second (absent l)
      · exact Eq.trans ‹_› (governed.alone i l other older second)
    · rcases List.mem_cons.mp second with rfl | older
      · exact absurd first (absent k)
      · exact (governed.alone k i other first older).trans (Eq.symm ‹_›)
    · exact governed.alone k l other first second

-- A release deletes the blocks of the arena and no others.
theorem governed_release (governed : Governed w) (here : w.arenas i = some a) :
    ∃ w', w.release a = some ({a with headBlock := [], totalSize := 0},w') ∧ w'.arenas = w.arenas ∧
      ∀ new, blocksOf new = [] → (∀ b, new = some b → Healthy b) → Governed (w'.put i new) := by
  have before : w.owned i = a.headBlock := by rw [World.owned,here,blocksOf]
  have ours : ∀ block ∈ a.headBlock, block ∈ w.live := fun block member =>
    (governed.live block).mpr ⟨i,by rw [before]; exact member⟩
  obtain ⟨live',deleted,split_⟩ := deleteBlocks_live ours (governed.healthy i a here).nodup
  have whole : (a.headBlock ++ live').Nodup := split_.nodup_iff.mp governed.nodup
  have left : ∀ block, block ∈ live' ↔ block ∈ w.live ∧ block ∉ a.headBlock := by
    intro block
    rw [split_.mem_iff,List.mem_append]
    constructor
    · exact fun member => ⟨.inr member,fun ours => (List.nodup_append.mp whole).2.2 block ours block member rfl⟩
    · exact fun ⟨either,others⟩ => either.resolve_left others
  refine ⟨{w with live := live', deleted := a.headBlock ++ w.deleted},by rw [World.release,release,deleted]; rfl,rfl,?_⟩
  intro new none_ healthy
  have owned : ∀ k, (World.put {w with live := live', deleted := a.headBlock ++ w.deleted} i new).owned k =
      if k = i then [] else w.owned k := by
    intro k
    rw [owned_put,none_]
    rfl
  refine ⟨?_,?_,fun block member => governed.sizes block ((left block).mp member).1,?_,?_,put_healthy governed.healthy healthy⟩
  · refine governed.counted.trans ((split_.append_right _).trans ?_)
    show (a.headBlock ++ live' ++ w.deleted).Perm (live' ++ (a.headBlock ++ w.deleted))
    rw [← List.append_assoc]
    exact List.perm_append_comm.append_right _
  · have rest : (a.headBlock ++ live').Pairwise Region.Apart :=
      (split_.pairwise_iff fun apart => apart.symm).mp governed.apart
    exact (List.pairwise_append.mp rest).2.1
  · intro block
    simp only [owned]
    refine (left block).trans ?_
    constructor
    · rintro ⟨member,others⟩
      obtain ⟨k,owns⟩ := (governed.live block).mp member
      refine ⟨k,?_⟩
      rw [if_neg]
      · exact owns
      · rintro rfl
        exact others (before ▸ owns)
    · rintro ⟨k,owns⟩
      split at owns
      · cases owns
      · rename_i different
        refine ⟨(governed.live block).mpr ⟨k,owns⟩,fun ours => ?_⟩
        exact different (governed.alone k i block owns (before ▸ ours))
  · intro k l block first second
    rw [owned] at first second
    split at first
    · cases first
    split at second
    · cases second
    · exact governed.alone k l block first second

-- The fields of one arena are moved to a place that owns nothing.
theorem governed_move (governed : Governed w) (there : w.arenas j = some a) (different : i ≠ j) (nothing : w.owned i = []) :
    Governed ((w.put j (some movedFrom)).put i (some a)) := by
  have before : w.owned j = a.headBlock := by rw [World.owned,there,blocksOf]
  have owned : ∀ k, ((w.put j (some movedFrom)).put i (some a)).owned k =
      if k = i then w.owned j else if k = j then [] else w.owned k := by
    intro k
    rw [owned_put,owned_put,before]
    rfl
  refine ⟨governed.counted,governed.apart,governed.sizes,?_,?_,?_⟩
  · intro block
    refine (governed.live block).trans ?_
    simp only [owned]
    constructor
    · rintro ⟨k,owns⟩
      by_cases source : k = j
      · exact ⟨i,by rw [if_pos rfl,← source]; exact owns⟩
      · refine ⟨k,?_⟩
        rw [if_neg,if_neg source]
        · exact owns
        · rintro rfl
          rw [nothing] at owns
          cases owns
    · rintro ⟨k,owns⟩
      split at owns
      · exact ⟨j,owns⟩
      split at owns
      · cases owns
      · exact ⟨k,owns⟩
  · intro k l block first second
    rw [owned] at first second
    split at first <;> split at second
    · exact Eq.trans ‹_› (Eq.symm ‹_›)
    · split at second
      · cases second
      · exact absurd (governed.alone l j block second first) ‹_›
    · split at first
      · cases first
      · exact absurd (governed.alone k j block first second) ‹_›
    · split at first
      · cases first
      split at second
      · cases second
      · exact governed.alone k l block first second
  · have moved : ∀ k b, (w.put j (some movedFrom)).arenas k = some b → Healthy b :=
      put_healthy governed.healthy fun b same => Option.some.inj same ▸ ofSize_healthy initialBlockSize
    exact put_healthy moved fun b same => Option.some.inj same ▸ governed.healthy j a there
end Worlds

theorem step_governed {w : World} {op : Op} (governed : Governed w) (allowed : Allowed w op) (harmless : Harmless w op) :
    ∃ w', w.step op = some w' ∧ Governed w' ∧ Returned w op := by
  cases op with
  | construct i initialSize =>
    have none_ : w.arenas i = none := allowed
    refine ⟨_,rfl,governed_put governed ?_ fun b same => Option.some.inj same ▸ ofSize_healthy initialSize,trivial⟩
    rw [World.owned,none_]
    rfl
  | allocate i q =>
    obtain ⟨a,here,power,fresh⟩ := allowed
    have fits : q.size + sizeofBlock < sizeLimit := harmless
    have healthy := governed.healthy i a here
    have served := small_served healthy power fits fresh
    have ours : ∀ block ∈ a.headBlock, block ∈ w.live := fun block member =>
      (governed.live block).mpr ⟨i,by rw [World.owned,here]; exact member⟩
    have after := allocate_healthy healthy served fits ours fresh
    refine ⟨w.allocate i a q,by rw [World.step,here]; rfl,?_,?_⟩
    · rw [World.allocate]
      split
      · rename_i new
        have blocks : (a.allocate q.size q.alignment q.fresh).2.headBlock = a.newBlock q.size q.fresh :: a.headBlock := by
          rw [allocate_blocks,blocksAfter,if_pos new]
        exact governed_grow governed here (fresh new) (Nat.lt_of_lt_of_le (by decide) (newBlock_header a q.fresh fits)) blocks after
      · rename_i old
        refine governed_put governed ?_ fun b same => Option.some.inj same ▸ after
        rw [World.owned,here,blocksOf,blocksOf,allocate_blocks,blocksAfter,if_neg old]
    · intro b same
      rw [here] at same
      obtain rfl := Option.some.inj same
      exact source_inside healthy served.inside
  | release i =>
    obtain ⟨a,here⟩ := allowed
    obtain ⟨w',released,_,after⟩ := governed_release governed here
    refine ⟨w'.put i (some {a with headBlock := [], totalSize := 0}),by simp [World.step,here,released],?_,trivial⟩
    exact after _ rfl fun b same => Option.some.inj same ▸ released_healthy (governed.healthy i a here) (harmless a here)
  | moveConstruct i j =>
    obtain ⟨none_,other,there⟩ := allowed
    refine ⟨_,by simp [World.step,there]; rfl,governed_move governed there ?_ ?_,trivial⟩
    · rintro rfl
      rw [none_] at there
      cases there
    · rw [World.owned,none_]
      rfl
  | moveAssign i j =>
    obtain ⟨⟨a,here⟩,other,there⟩ := allowed
    by_cases self : i = j
    · subst self
      exact ⟨w,by simp [World.step,here],governed,trivial⟩
    · obtain ⟨w',released,same,after⟩ := governed_release governed here
      have emptied := after none rfl (fun b impossible => by cases impossible)
      have there' : (w'.put i none).arenas j = some other := by
        rw [put_other w' none (Ne.symm self),same,there]
      have moved := governed_move emptied there' self (by rw [owned_put,if_pos rfl]; rfl)
      have whole : ((w'.put i none).put j (some movedFrom)).put i (some other) = (w'.put j (some movedFrom)).put i (some other) := by
        simp only [World.put,Function.update_comm self,Function.update_idem]
      rw [whole] at moved
      exact ⟨_,by simp [World.step,here,self,released,same,there],moved,trivial⟩
  | destroy i =>
    obtain ⟨a,here⟩ := allowed
    obtain ⟨w',released,_,after⟩ := governed_release governed here
    exact ⟨_,by simp [World.step,here,released],after none rfl (fun b impossible => by cases impossible),trivial⟩

-- A run ends when something is deleted that is not live.
def World.next (w : Option World) (op : Op) : Option World := w.bind (·.step op)

def AllowedAt (w : Option World) (op : Op) : Prop := ∀ w', w = some w' → Allowed w' op
def HarmlessAt (w : Option World) (op : Op) : Prop := ∀ w', w = some w' → Harmless w' op
def ExpectedAt (w : Option World) (op : Op) : Prop :=
  ∃ before after, w = some before ∧ before.step op = some after ∧ Kept after ∧ Returned before op

-- As long as no request wraps and no arena is released in front of an unused
-- window, no interleaving deletes a block twice or lends memory that is not owned.
theorem arena_ownership (ops : List Op) (allowed : Along World.next AllowedAt (some .start) ops)
    (harmless : Along World.next HarmlessAt (some .start) ops) : Along World.next ExpectedAt (some .start) ops := by
  have both : Along World.next (fun w op => AllowedAt w op ∧ HarmlessAt w op) (some .start) ops := by
    generalize some World.start = w at allowed harmless
    induction ops generalizing w with
    | nil => trivial
    | cons op rest ih => exact ⟨⟨allowed.1,harmless.1⟩,ih _ allowed.2 harmless.2⟩
  have each : ∀ w op, (∃ w', w = some w' ∧ Governed w') → AllowedAt w op ∧ HarmlessAt w op →
      ExpectedAt w op ∧ ∃ w', World.next w op = some w' ∧ Governed w' := by
    rintro _ op ⟨w,rfl,governed⟩ ⟨allowed,harmless⟩
    obtain ⟨w',stepped,governed',returned⟩ := step_governed governed (allowed w rfl) (harmless w rfl)
    exact ⟨⟨w,w',rfl,stepped,governed'.kept,returned⟩,w',stepped,governed'⟩
  exact along_of both each ⟨_,rfl,start_governed⟩

-- Eight bytes, a release, and eight bytes of the block that was deleted.
def reuse : List Op := [.construct 0 1024,.allocate 0 ⟨8,8,4096⟩,.release 0,.allocate 0 ⟨8,8,8192⟩]

theorem arena_ownership_reuse : ¬ ∀ ops, Along World.next AllowedAt (some .start) ops →
    Along World.next ExpectedAt (some .start) ops := by
  intro always
  have allowed : Along World.next AllowedAt (some .start) reuse := by
    refine ⟨?_,?_,?_,?_,trivial⟩
    · rintro _ ⟨rfl⟩
      rfl
    · rintro _ ⟨rfl⟩
      exact ⟨_,rfl,⟨3,by decide,rfl⟩,fun _ => ⟨by decide,by decide,by decide,fun _ member => by cases member⟩⟩
    · rintro _ ⟨rfl⟩
      exact ⟨_,rfl⟩
    · rintro _ ⟨rfl⟩
      exact ⟨_,rfl,⟨3,by decide,rfl⟩,fun new => absurd new (by decide)⟩
  obtain ⟨_,_,_,⟨_,_,⟨rfl⟩,_,_,returned⟩,_⟩ := always _ allowed
  rcases returned _ rfl with none_ | ⟨block,member,_⟩
  · exact absurd none_ (by decide)
  · exact absurd (show block ∈ ([] : List Region) from member) List.not_mem_nil

-- A block that is filled to its end before the release.
def refill : List Op := [.construct 0 1024,.allocate 0 ⟨1016,8,4096⟩,.release 0,.moveConstruct 1 0,.allocate 1 ⟨8,8,8192⟩]

theorem arena_ownership_refill : Along World.next ExpectedAt (some .start) refill := by
  have spent : ((ofSize 1024).allocate 1016 8 4096).2.remainingSize = 0 := by decide +kernel
  refine arena_ownership refill ⟨?_,?_,?_,?_,?_,trivial⟩ ⟨?_,?_,?_,?_,?_,trivial⟩ <;> rintro w ⟨rfl⟩
  · rfl
  · exact ⟨_,rfl,⟨3,by decide,rfl⟩,fun _ => ⟨by decide,by decide,by decide,fun _ member => by cases member⟩⟩
  · exact ⟨_,rfl⟩
  · exact ⟨rfl,_,rfl⟩
  · exact ⟨_,rfl,⟨3,by decide,rfl⟩,fun _ => ⟨by decide,by decide,by decide,fun _ member => by cases member⟩⟩
  · trivial
  · show 1016 + sizeofBlock < sizeLimit
    decide
  · intro a found
    have same : a = ((ofSize 1024).allocate 1016 8 4096).2 := (Option.some.inj found).symm
    rw [same]
    exact spent
  · trivial
  · show 8 + sizeofBlock < sizeLimit
    decide
end Cero.MemoryArena
