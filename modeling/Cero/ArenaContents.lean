import Cero.ArenaArray
import Mathlib.Logic.Function.Basic

-- Any number of arrays in one arena, with other objects created between them.
namespace Cero.ArenaArray
open MemoryArena Run

structure World (ι : Type) where
  storage : Storage
  arrays : ι → ArenaArray

inductive Op (ι α : Type) where
  | put (i : ι) (value : α) (fresh : Nat)
  | create (contents : List UInt8) (alignment fresh : Nat)

section Worlds
variable {ι α : Type} [DecidableEq ι]

def World.start (initialSize : Nat) (memory : ByteMemory) : World ι := ⟨.start initialSize memory,fun _ => empty⟩

def World.set (w : World ι) (i : ι) (next : ArenaArray × Storage) : World ι := ⟨next.2,Function.update w.arrays i next.1⟩

def World.step (layout : Layout α) (w : World ι) : Op ι α → World ι
  | .put i value fresh => w.set i ((w.arrays i).put layout value fresh w.storage)
  | .create contents alignment fresh => {w with storage := (w.storage.create contents alignment fresh).2}

def World.elements (layout : Layout α) (w : World ι) (i : ι) : List α := (w.arrays i).elements layout w.storage.memory

-- What operator new promises of the block that a request needs.
def Obtains (s : Storage) (q : Request) : Prop :=
  s.arena.needsBlock q.size q.alignment → Fresh s.arena.headBlock (s.arena.newBlock q.size q.fresh)

-- Capacities stay below the limit of their type. Objects are not empty and their
-- alignment is at most that of a pointer.
def Allowed (layout : Layout α) (w : World ι) : Op ι α → Prop
  | .put i _ fresh => (w.arrays i).count = (w.arrays i).capacity →
      (w.arrays i).newCap < wordLimit ∧ Obtains w.storage ((w.arrays i).request layout fresh)
  | .create contents alignment fresh => 0 < contents.length ∧ contents.length + sizeofBlock < sizeLimit ∧
      (∃ k ≤ 3, alignment = 2 ^ k) ∧ Obtains w.storage ⟨contents.length,alignment,fresh⟩

-- What the arrays are for: lists that are appended to.
def Op.putOn (i : ι) : Op ι α → List α
  | .put j value _ => if j = i then [value] else []
  | .create _ _ _ => []

def appended (lists : ι → List α) (op : Op ι α) : ι → List α := fun i => lists i ++ op.putOn i

def Reallocates (w : World ι) (op : Op ι α) (i : ι) : Prop :=
  op.putOn i ≠ [] ∧ (w.arrays i).count = (w.arrays i).capacity

-- What is expected of every step.
structure Expected (layout : Layout α) (w : World ι) (op : Op ι α) : Prop where
  contents : ∀ i, (w.step layout op).elements layout i = w.elements layout i ++ op.putOn i
  bounded : ∀ i, ((w.step layout op).arrays i).count ≤ ((w.step layout op).arrays i).capacity
  grows : ∀ i, Reallocates w op i → (w.arrays i).capacity < ((w.step layout op).arrays i).capacity
  stays : ∀ i, ¬ Reallocates w op i → ((w.step layout op).arrays i).capacity = (w.arrays i).capacity ∧
    ((w.step layout op).arrays i).data = (w.arrays i).data

-- One array that holds a list.
structure Stored (layout : Layout α) (s : Storage) (array : ArenaArray) (values : List α) : Prop where
  count : array.count = values.length
  room : array.count ≤ array.capacity
  small : array.capacity < wordLimit
  place : array.capacity = 0 ∨ Sound ⟨s.arena,[array.extent layout]⟩
  contents : s.memory.read array.data (values.length * layout.size) = layout.encodeAll values

structure Represents (layout : Layout α) (w : World ι) (lists : ι → List α) : Prop where
  sound : Sound ⟨w.storage.arena,[]⟩
  stored : ∀ i, Stored layout w.storage (w.arrays i) (lists i)
  apart : ∀ i j, i ≠ j → (w.arrays i).capacity ≠ 0 → (w.arrays j).capacity ≠ 0 →
    ((w.arrays i).extent layout).Apart ((w.arrays j).extent layout)
end Worlds

section Arrays
variable {α : Type} {layout : Layout α} {s s' : Storage} {array : ArenaArray} {values : List α}

theorem Stored.elements (stored : Stored layout s array values) : array.elements layout s.memory = values := by
  have steps : (array.end_ layout - array.begin_) / layout.size = values.length := by
    rw [end_,begin_,Nat.add_sub_cancel_left,Nat.mul_div_cancel _ layout.sized,stored.count]
  rw [ArenaArray.elements,steps]
  exact layout.readAll_stored stored.contents

theorem empty_stored : Stored layout s empty [] := ⟨rfl,Nat.le_refl _,by decide,.inl rfl,by rw [List.length_nil,Nat.zero_mul]; rfl⟩

theorem filled_le (stored : Stored layout s array values) : values.length * layout.size ≤ (array.extent layout).size :=
  Nat.mul_le_mul_right _ (stored.count ▸ stored.room)

-- An array keeps its list where its extent keeps its bytes.
theorem Stored.keeps (stored : Stored layout s array values)
    (kept : ∀ used, Sound ⟨s.arena,[used]⟩ → Sound ⟨s'.arena,[used]⟩)
    (frame : array.capacity ≠ 0 → s'.memory.read array.data (array.extent layout).size = s.memory.read array.data (array.extent layout).size) :
    Stored layout s' array values := by
  refine ⟨stored.count,stored.room,stored.small,stored.place.imp_right (kept _),?_⟩
  by_cases none_ : array.capacity = 0
  · have nil : values = [] := by
      have room := stored.room
      rw [stored.count,none_] at room
      exact List.eq_nil_of_length_eq_zero (Nat.le_zero.mp room)
    rw [nil,List.length_nil,Nat.zero_mul]
    rfl
  · rw [← stored.contents]
    exact ByteMemory.read_shorter (filled_le stored) (frame none_)

theorem newCap_exact (small : array.capacity < wordLimit) : array.newCap = max (array.capacity + array.capacity / 2) initialCapacity := by
  have limits : wordLimit + wordLimit < sizeLimit := by decide
  rw [newCap,addSize_exact (by omega)]

theorem newCap_grows (small : array.capacity < wordLimit) : array.capacity < array.newCap := by
  rw [newCap_exact small,initialCapacity]
  omega

-- What a change of one array and of the storage does for the storage that is in use.
structure Updated (layout : Layout α) (s : Storage) (next : ArenaArray × Storage) (values : List α) : Prop where
  sound : Sound ⟨next.2.arena,[]⟩
  stored : Stored layout next.2 next.1 values
  kept : ∀ used, Sound ⟨s.arena,[used]⟩ → Sound ⟨next.2.arena,[used]⟩

theorem mulSize_exact {n : Nat} (narrow : wordLimit * layout.size + sizeofBlock ≤ sizeLimit) (small : n < wordLimit) :
    mulSize n layout.size = n * layout.size ∧ n * layout.size + sizeofBlock < sizeLimit := by
  have below : n * layout.size < wordLimit * layout.size := Nat.mul_lt_mul_of_pos_right small layout.sized
  exact ⟨Nat.mod_eq_of_lt (by omega),by omega⟩

theorem request_admissible {fresh : Nat} (aligned : ∃ k ≤ 3, layout.alignment = 2 ^ k)
    (narrow : wordLimit * layout.size + sizeofBlock ≤ sizeLimit) (small : array.capacity < wordLimit) (fits : array.newCap < wordLimit)
    (obtains : Obtains s (array.request layout fresh)) : Admissible ⟨s.arena,[]⟩ (array.request layout fresh) := by
  obtain ⟨k,_,power⟩ := aligned
  obtain ⟨exact_,bounded⟩ : mulSize array.newCap layout.size = array.newCap * layout.size ∧
      array.newCap * layout.size + sizeofBlock < sizeLimit := mulSize_exact narrow fits
  have size : (array.request layout fresh).size = array.newCap * layout.size := exact_
  have some_ : 0 < array.newCap := Nat.lt_of_le_of_lt (Nat.zero_le _) (newCap_grows small)
  refine ⟨?_,⟨k,power⟩,?_,obtains⟩
  · rw [size]
    exact Nat.mul_pos some_ layout.sized
  · rw [size]
    exact bounded

-- Growing moves the elements to storage that is apart from all that is in use.
theorem grow_updated {fresh : Nat} (aligned : ∃ k ≤ 3, layout.alignment = 2 ^ k)
    (narrow : wordLimit * layout.size + sizeofBlock ≤ sizeLimit) (sound : Sound ⟨s.arena,[]⟩) (stored : Stored layout s array values)
    (fits : array.newCap < wordLimit) (obtains : Obtains s (array.request layout fresh)) :
    Updated layout s (array.grow layout fresh s) values ∧
      (array.grow layout fresh s).1.count = array.count ∧ (array.grow layout fresh s).1.capacity = array.newCap ∧
      ∀ used, Sound ⟨s.arena,[used]⟩ → ((array.grow layout fresh s).1.extent layout).Apart used ∧
        (array.grow layout fresh s).2.memory.read used.base used.size = s.memory.read used.base used.size := by
  have admissible := request_admissible aligned narrow stored.small fits obtains
  have granted := Storage.allocate_granted sound admissible aligned
  have grows := newCap_grows stored.small
  have capacity : (array.grow layout fresh s).1.capacity = array.newCap := Nat.mod_eq_of_lt fits
  have extent : (array.grow layout fresh s).1.extent layout =
      ⟨(s.allocate (array.request layout fresh)).1,(array.request layout fresh).size⟩ := by
    have size : (array.request layout fresh).size = array.newCap * layout.size := (mulSize_exact narrow fits).1
    rw [ArenaArray.extent,capacity,size]
    rfl
  -- what the array held is still there when it is copied
  have before : Stored layout (s.allocate (array.request layout fresh)).2 array values :=
    stored.keeps granted.kept fun some_ => granted.frame _ (stored.place.resolve_left some_)
  have copied : mulSize array.count layout.size = values.length * layout.size := by
    rw [(mulSize_exact narrow (Nat.lt_of_le_of_lt stored.room stored.small)).1,stored.count]
  have memory : (array.grow layout fresh s).2.memory = (s.allocate (array.request layout fresh)).2.memory.write
      (s.allocate (array.request layout fresh)).1 (layout.encodeAll values) := by
    rw [← before.contents,← copied]
    rfl
  have written : Region.Inside ⟨(s.allocate (array.request layout fresh)).1,(layout.encodeAll values).length⟩
      ((array.grow layout fresh s).1.extent layout) := by
    rw [ArenaArray.extent,capacity,layout.encodeAll_length,← stored.count]
    exact ⟨Nat.le_refl _,Nat.add_le_add_left (Nat.mul_le_mul_right _ (Nat.le_trans stored.room (Nat.le_of_lt grows))) _⟩
  have place : Sound ⟨(array.grow layout fresh s).2.arena,[(array.grow layout fresh s).1.extent layout]⟩ := by
    rw [extent]
    exact granted.sound
  have apart : ∀ used, Sound ⟨s.arena,[used]⟩ → ((array.grow layout fresh s).1.extent layout).Apart used := by
    rw [extent]
    exact granted.apart
  refine ⟨⟨Storage.sound_subset place (List.nil_subset _),⟨stored.count,?_,?_,.inr place,?_⟩,granted.kept⟩,rfl,capacity,?_⟩
  · rw [capacity]
    exact Nat.le_trans stored.room (Nat.le_of_lt grows)
  · rw [capacity]
    exact fits
  · rw [memory,← layout.encodeAll_length]
    exact ByteMemory.read_write
  · intro used sound
    refine ⟨apart used sound,?_⟩
    rw [memory,ByteMemory.read_apart ((apart used sound).both written (.refl used))]
    exact granted.frame used sound

theorem append_updated {value : α} (sound : Sound ⟨s.arena,[]⟩) (stored : Stored layout s array values)
    (room : array.count < array.capacity) :
    Updated layout s (array.append layout value s) (values ++ [value]) ∧
      (array.append layout value s).1.count = array.count + 1 ∧
      ∀ used, (array.extent layout).Apart used →
        (array.append layout value s).2.memory.read used.base used.size = s.memory.read used.base used.size := by
  have count : (array.append layout value s).1.count = array.count + 1 :=
    Nat.mod_eq_of_lt (Nat.lt_of_le_of_lt room stored.small)
  have filled : array.data + array.count * layout.size = array.data + values.length * layout.size := by rw [stored.count]
  have memory : (array.append layout value s).2.memory =
      s.memory.write (array.data + values.length * layout.size) (layout.encode value) := by
    rw [← filled]
    rfl
  have written : Region.Inside ⟨array.data + values.length * layout.size,(layout.encode value).length⟩ (array.extent layout) := by
    have next : (array.count + 1) * layout.size ≤ array.capacity * layout.size := Nat.mul_le_mul_right _ room
    rw [stored.count,Nat.succ_mul] at next
    refine ⟨Nat.le_add_right _ _,?_⟩
    rw [layout.encoded]
    simp only [Region.stop,ArenaArray.extent]
    omega
  refine ⟨⟨sound,⟨?_,?_,stored.small,stored.place,?_⟩,fun _ used => used⟩,count,?_⟩
  · rw [count,stored.count,List.length_append,List.length_singleton]
  · rw [count]
    exact room
  · have first : s.memory.read array.data (values.length * layout.size) = layout.encodeAll values := stored.contents
    have old : (s.memory.write (array.data + values.length * layout.size) (layout.encode value)).read array.data
        (values.length * layout.size) = layout.encodeAll values := by
      rw [ByteMemory.read_apart (.inr (Nat.le_refl _)),first]
    have new : (s.memory.write (array.data + values.length * layout.size) (layout.encode value)).read
        (array.data + values.length * layout.size) layout.size = layout.encode value := by
      rw [← layout.encoded value]
      exact ByteMemory.read_write
    rw [memory,List.length_append,List.length_singleton,Nat.succ_mul,ByteMemory.read_add,layout.encodeAll_snoc]
    exact congrArg₂ (· ++ ·) old new
  · intro used apart
    rw [memory]
    exact ByteMemory.read_apart (apart.both written (.refl used))
end Arrays

section Steps
variable {ι α : Type} [DecidableEq ι] {layout : Layout α} {w : World ι} {lists : ι → List α}

omit [DecidableEq ι] in
theorem start_represents (initialSize : Nat) (memory : ByteMemory) :
    Represents layout (World.start initialSize memory : World ι) fun _ => [] :=
  ⟨start_sound initialSize,fun _ => empty_stored,fun _ _ _ some_ => absurd rfl some_⟩

theorem set_represents {i : ι} {next : ArenaArray × Storage} {values : List α} (represents : Represents layout w lists)
    (updated : Updated layout w.storage next values)
    (others : ∀ j, j ≠ i → (w.arrays j).capacity ≠ 0 → (next.1.extent layout).Apart ((w.arrays j).extent layout) ∧
      next.2.memory.read (w.arrays j).data ((w.arrays j).extent layout).size =
        w.storage.memory.read (w.arrays j).data ((w.arrays j).extent layout).size) :
    Represents layout (w.set i next) (Function.update lists i values) := by
  have here : (w.set i next).arrays i = next.1 := Function.update_self _ _ _
  have there : ∀ j, j ≠ i → (w.set i next).arrays j = w.arrays j := fun j other => Function.update_of_ne other _ _
  refine ⟨updated.sound,?_,?_⟩
  · intro j
    by_cases same : j = i
    · rw [same,here,Function.update_self]
      exact updated.stored
    · rw [there j same,Function.update_of_ne same]
      exact (represents.stored j).keeps updated.kept fun some_ => (others j same some_).2
  · intro j k distinct someJ someK
    by_cases first : j = i
    · have second : k ≠ i := fun same => distinct (first.trans same.symm)
      rw [first,here,there k second]
      rw [there k second] at someK
      exact (others k second someK).1
    · rw [there j first] at someJ ⊢
      by_cases second : k = i
      · rw [second,here]
        exact (others j first someJ).1.symm
      · rw [there k second] at someK ⊢
        exact represents.apart j k distinct someJ someK

theorem append_represents {i : ι} {value : α} (represents : Represents layout w lists)
    (room : (w.arrays i).count < (w.arrays i).capacity) :
    Represents layout (w.set i ((w.arrays i).append layout value w.storage)) (Function.update lists i (lists i ++ [value])) := by
  obtain ⟨updated,_,frame⟩ := append_updated represents.sound (represents.stored i) room
  refine set_represents represents updated fun j other some_ => ?_
  have apart := represents.apart i j (Ne.symm other) (Nat.ne_of_gt (Nat.lt_of_le_of_lt (Nat.zero_le _) room)) some_
  exact ⟨apart,frame _ apart⟩

theorem appended_put (lists : ι → List α) (i : ι) (value : α) (fresh : Nat) :
    appended lists (.put i value fresh) = Function.update lists i (lists i ++ [value]) := by
  funext j
  by_cases same : j = i
  · rw [same,Function.update_self,appended,Op.putOn,if_pos rfl]
  · rw [Function.update_of_ne same,appended,Op.putOn,if_neg (Ne.symm same),List.append_nil]

theorem set_arrays {i : ι} {next : ArenaArray × Storage} : (w.set i next).arrays i = next.1 := Function.update_self _ _ _

theorem put_represents {i : ι} {value : α} {fresh : Nat} (aligned : ∃ k ≤ 3, layout.alignment = 2 ^ k)
    (narrow : wordLimit * layout.size + sizeofBlock ≤ sizeLimit) (represents : Represents layout w lists)
    (allowed : Allowed layout w (.put i value fresh)) :
    Represents layout (w.step layout (.put i value fresh)) (appended lists (.put i value fresh)) := by
  rw [appended_put]
  by_cases full : (w.arrays i).count = (w.arrays i).capacity
  · obtain ⟨fits,obtains⟩ := allowed full
    have stored := represents.stored i
    obtain ⟨updated,count,capacity,frame⟩ := grow_updated aligned narrow represents.sound stored fits obtains
    have grown : Represents layout (w.set i ((w.arrays i).grow layout fresh w.storage)) (Function.update lists i (lists i)) :=
      set_represents represents updated fun j _ some_ => frame _ ((represents.stored j).place.resolve_left some_)
    rw [Function.update_eq_self] at grown
    have room : ((w.set i ((w.arrays i).grow layout fresh w.storage)).arrays i).count <
        ((w.set i ((w.arrays i).grow layout fresh w.storage)).arrays i).capacity := by
      rw [set_arrays,count,capacity,full]
      exact newCap_grows stored.small
    have after : Represents layout _ (Function.update lists i (lists i ++ [value])) := append_represents grown room
    have same : w.step layout (.put i value fresh) = (w.set i ((w.arrays i).grow layout fresh w.storage)).set i
        (((w.arrays i).grow layout fresh w.storage).1.append layout value ((w.arrays i).grow layout fresh w.storage).2) := by
      rw [World.step,put,if_pos full,World.set,World.set,World.set,Function.update_idem]
    rw [same]
    rw [set_arrays] at after
    exact after
  · have room : (w.arrays i).count < (w.arrays i).capacity := Nat.lt_of_le_of_ne (represents.stored i).room full
    have same : w.step layout (.put i value fresh) = w.set i ((w.arrays i).append layout value w.storage) := by
      rw [World.step,put,if_neg full]
    rw [same]
    exact append_represents represents room

theorem create_represents {contents : List UInt8} {alignment fresh : Nat} (represents : Represents layout w lists)
    (allowed : Allowed layout w (.create contents alignment fresh)) :
    Represents layout (w.step layout (.create contents alignment fresh)) lists := by
  obtain ⟨positive,fits,⟨k,small,power⟩,obtains⟩ := allowed
  have granted := Storage.allocate_granted represents.sound ⟨positive,⟨k,power⟩,fits,obtains⟩ ⟨k,small,power⟩
  refine ⟨Storage.sound_subset granted.sound (List.nil_subset _),fun i => ?_,represents.apart⟩
  refine (represents.stored i).keeps granted.kept fun some_ => ?_
  have used := (represents.stored i).place.resolve_left some_
  have kept := ByteMemory.read_apart (m := (w.storage.allocate ⟨contents.length,alignment,fresh⟩).2.memory) (granted.apart _ used)
  exact kept.trans (granted.frame _ used)

theorem step_represents {op : Op ι α} (aligned : ∃ k ≤ 3, layout.alignment = 2 ^ k)
    (narrow : wordLimit * layout.size + sizeofBlock ≤ sizeLimit) (represents : Represents layout w lists)
    (allowed : Allowed layout w op) : Represents layout (w.step layout op) (appended lists op) := by
  cases op with
  | put i value fresh => exact put_represents aligned narrow represents allowed
  | create contents alignment fresh =>
    have same : appended lists (.create contents alignment fresh : Op ι α) = lists := funext fun i => List.append_nil _
    rw [same]
    exact create_represents represents allowed

omit [DecidableEq ι] in
theorem Represents.elements (represents : Represents layout w lists) (i : ι) : w.elements layout i = lists i :=
  (represents.stored i).elements

theorem step_grows {op : Op ι α} {i : ι} (represents : Represents layout w lists) (allowed : Allowed layout w op)
    (reallocates : Reallocates w op i) : (w.arrays i).capacity < ((w.step layout op).arrays i).capacity := by
  obtain ⟨some_,full⟩ := reallocates
  cases op with
  | create => exact absurd rfl some_
  | put j value fresh =>
    obtain rfl : j = i := by
      by_contra other
      exact some_ (if_neg other)
    have capacity : ((w.step layout (.put j value fresh)).arrays j).capacity = (w.arrays j).newCap % wordLimit := by
      rw [World.step,set_arrays,put,if_pos full]
      rfl
    rw [capacity,Nat.mod_eq_of_lt (allowed full).1]
    exact newCap_grows (represents.stored j).small

theorem step_stays {op : Op ι α} {i : ι} (stays : ¬ Reallocates w op i) :
    ((w.step layout op).arrays i).capacity = (w.arrays i).capacity ∧ ((w.step layout op).arrays i).data = (w.arrays i).data := by
  cases op with
  | create => exact ⟨rfl,rfl⟩
  | put j value fresh =>
    by_cases same : j = i
    · have open_ : (w.arrays j).count ≠ (w.arrays j).capacity := by
        refine fun full => stays ⟨?_,same ▸ full⟩
        rw [Op.putOn,if_pos same]
        exact List.cons_ne_nil _ _
      rw [← same,World.step,set_arrays,put,if_neg open_]
      exact ⟨rfl,rfl⟩
    · have there : (w.step layout (.put j value fresh)).arrays i = w.arrays i := Function.update_of_ne (Ne.symm same) _ _
      rw [there]
      exact ⟨rfl,rfl⟩

theorem step_expected {op : Op ι α} (aligned : ∃ k ≤ 3, layout.alignment = 2 ^ k)
    (narrow : wordLimit * layout.size + sizeofBlock ≤ sizeLimit) (represents : Represents layout w lists)
    (allowed : Allowed layout w op) : Expected layout w op := by
  have after := step_represents aligned narrow represents allowed
  refine ⟨fun i => ?_,fun i => (after.stored i).room,fun i => step_grows represents allowed,fun i => step_stays⟩
  rw [after.elements,represents.elements]
  rfl

theorem final_appended (ops : List (Op ι α)) (i : ι) : final appended lists ops i = lists i ++ ops.flatMap (Op.putOn i) := by
  induction ops generalizing lists with
  | nil => exact (List.append_nil _).symm
  | cons op rest ih =>
    have next : final appended lists (op :: rest) = final appended (appended lists op) rest := rfl
    rw [next,ih,appended,List.append_assoc,List.flatMap_cons]
end Steps

theorem pointer_narrow : wordLimit * pointer.size + sizeofBlock ≤ sizeLimit := by decide

-- In every run each array holds what was put into it, in order.
theorem arena_array_refines {ι : Type} [DecidableEq ι] (initialSize : Nat) (memory : ByteMemory) (ops : List (Op ι UInt64))
    (allowed : Along (World.step pointer) (Allowed pointer) (.start initialSize memory) ops) :
    (∀ i, (final (World.step pointer) (.start initialSize memory) ops).elements pointer i = ops.flatMap (Op.putOn i)) ∧
      Along (World.step pointer) (Expected pointer) (.start initialSize memory) ops := by
  have aligned : ∃ k ≤ 3, pointer.alignment = 2 ^ k := ⟨3,Nat.le_refl _,rfl⟩
  have start : Represents pointer (World.start initialSize memory : World ι) fun _ => [] := start_represents initialSize memory
  constructor
  · intro i
    have end_ := final_simulates allowed (fun _ _ _ represents => step_represents aligned pointer_narrow represents) start
    rw [end_.elements,final_appended]
    rfl
  · have each : ∀ (w : World ι) (op : Op ι UInt64), (∃ lists, Represents pointer w lists) → Allowed pointer w op →
        Expected pointer w op ∧ ∃ lists, Represents pointer (w.step pointer op) lists := by
      rintro w op ⟨lists,represents⟩ permitted
      exact ⟨step_expected aligned pointer_narrow represents permitted,_,step_represents aligned pointer_narrow represents permitted⟩
    exact along_of allowed each ⟨_,start⟩

-- Two arrays in turn, the first of which outgrows its storage.
def turns : List (Op Bool UInt64) := [.put true 1 4096,.put false 2 0,.put true 3 0,.put true 4 0,.create [7] 1 0,.put true 5 0,.put true 6 0]

theorem turns_allowed : Along (World.step pointer) (Allowed pointer) (.start 1024 fun _ => 0) turns := by
  have fresh : Fresh [] ⟨4096,1024⟩ := ⟨by decide,by decide,by decide,fun _ none => by cases none⟩
  refine ⟨fun _ => ⟨by decide,fun _ => fresh⟩,fun _ => ⟨by decide,fun new => absurd new (by decide +kernel)⟩,
    fun full => absurd full (by decide +kernel),fun full => absurd full (by decide +kernel),
    ⟨by decide,by decide,⟨0,by decide,rfl⟩,fun new => absurd new (by decide +kernel)⟩,
    fun full => absurd full (by decide +kernel),fun _ => ⟨by decide +kernel,fun new => absurd new (by decide +kernel)⟩,trivial⟩

theorem arena_array_refines_turns : (∀ i, (final (World.step pointer) (.start 1024 fun _ => 0) turns).elements pointer i =
      turns.flatMap (Op.putOn i)) ∧ Along (World.step pointer) (Expected pointer) (.start 1024 fun _ => 0) turns :=
  arena_array_refines 1024 _ turns turns_allowed
end Cero.ArenaArray
