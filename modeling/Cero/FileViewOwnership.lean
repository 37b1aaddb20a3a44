import Cero.FileViewSystems
import Cero.Library.Runs

-- What any number of views have open, over any run of their operations.
namespace Cero
open Ownership Run

namespace FileView
-- The views in the order in which they were made, with `none` for those that are
-- destroyed.
structure World (platform : Platform) where
  views : List (Option platform.Impl)
  process : Process

inductive Op (Answers : Type) where
  | «from» (a : Answers)
  | moveConstruct (other : Nat)
  | moveAssign (i other : Nat)
  | destroy (i : Nat)

namespace World
variable {platform : Platform}

def start : World platform := ⟨[],.start⟩

def viewAt (w : World platform) (i : Nat) : Option platform.Impl := w.views[i]?.join

-- A view that is returned is the last one.
def «from» (w : World platform) (a : platform.Answers) : Option (Except Nat Nat × World platform) := do
  let (result,process) ← platform.from a w.process
  match result with
  | .ok view => return (.ok w.views.length,⟨w.views ++ [some view],process⟩)
  | .error error => return (.error error,⟨w.views,process⟩)

def step (w : World platform) : Op platform.Answers → Option (World platform)
  | .from a => (w.from a).map (·.2)
  | .moveConstruct other => do
    let view ← w.viewAt other
    return {w with views := w.views.set other (some platform.initial) ++ [some view]}
  | .moveAssign i other => do
    let view ← w.viewAt i
    if i ≠ other then
      let process ← platform.destroy view w.process
      let view ← w.viewAt other
      return ⟨(w.views.set other (some platform.initial)).set i (some view),process⟩
    else return w
  | .destroy i => do
    let view ← w.viewAt i
    let process ← platform.destroy view w.process
    return ⟨w.views.set i none,process⟩
end World

-- What the views are for: each has a text, that of the file when it was opened, and
-- a move takes it along.
def texts (text : α → Except Nat Bytes) (ts : List (Option Bytes)) : Op α → List (Option Bytes)
  | .from a => match text a with
    | .ok bytes => ts ++ [some bytes]
    | .error _ => ts
  | .moveConstruct other => ts.set other (some []) ++ [ts[other]?.join]
  | .moveAssign i other => if i ≠ other then (ts.set other (some [])).set i ts[other]?.join else ts
  | .destroy i => ts.set i none

section Runs
variable {platform : Platform} {lawful : Lawful platform} {w w' : World platform} {p p' : Process}
  {views views' : List (Option platform.Impl)} {view : platform.Impl} {ts : List (Option Bytes)} {text : Bytes} {i j : Nat}

-- Operations are on views that there are.
def Allowed (lawful : Lawful platform) (w : World platform) : Op platform.Answers → Prop
  | .from a => lawful.Promised a w.process
  | .moveConstruct i | .destroy i => ∃ view, w.viewAt i = some view
  | .moveAssign i other => (∃ view, w.viewAt i = some view) ∧ ∃ view, w.viewAt other = some view

def Shows (held : platform.Impl → List Handle) (p : Process) : Option platform.Impl → Option Bytes → Prop
  | some view,some text => Sound held p view text
  | none,none => True
  | _,_ => False

structure Governed (lawful : Lawful platform) (w : World platform) (ts : List (Option Bytes)) : Prop where
  has : w.process.handles.Has (heldBy lawful.held w.views)
  shows : List.Forall₂ (Shows lawful.held w.process) w.views ts

section Lists
variable {α β : Type} {R S : α → β → Prop} {as : List α} {bs : List β} {a : α} {b : β}

theorem forall₂_set (all : List.Forall₂ R as bs) (i : Nat) (new : R a b) : List.Forall₂ R (as.set i a) (bs.set i b) := by
  induction all generalizing i with
  | nil => exact .nil
  | cons first others ih =>
    cases i with
    | zero => exact .cons new others
    | succ i => exact .cons first (ih i)

theorem forall₂_at (all : List.Forall₂ R as bs) (here : as[i]? = some a) : ∃ b, bs[i]? = some b ∧ R a b := by
  induction all generalizing i with
  | nil => cases here
  | cons first others ih =>
    cases i with
    | zero => exact ⟨_,rfl,Option.some.inj here ▸ first⟩
    | succ i => exact ih here
end Lists

theorem viewAt_some (here : w.viewAt i = some view) : w.views[i]? = some (some view) := by
  simpa [World.viewAt,Option.join_eq_some_iff] using here

-- A view that is shown is shown wherever the memory that it holds is the same.
theorem shows_frame (same : ∀ addr, .view addr ∈ heldBy lawful.held views → p'.memory addr = p.memory addr)
    (shows : List.Forall₂ (Shows lawful.held p) views ts) : List.Forall₂ (Shows lawful.held p') views ts := by
  induction shows with
  | nil => exact .nil
  | @cons c t views ts first others ih =>
    refine .cons ?_ (ih fun addr member => same addr (List.mem_append_right _ member))
    match c,t,first with
    | some _,some _,sound => exact Sound.frame sound fun addr member => same addr (List.mem_append_left _ member)
    | none,none,_ => trivial

theorem shown_at (governed : Governed lawful w ts) (here : w.viewAt i = some view) :
    ∃ text, ts[i]?.join = some text ∧ Sound lawful.held w.process view text := by
  obtain ⟨t,there,shown⟩ := forall₂_at governed.shows (viewAt_some here)
  match t,shown with
  | some text,sound => exact ⟨text,by rw [there]; rfl,sound⟩

theorem governed_opened {a : platform.Answers} {bytes : Bytes} (governed : Governed lawful w ts)
    (promised : lawful.Promised a w.process) (opened : lawful.text a = .ok bytes) : ∃ view process,
    w.from a = some (.ok w.views.length,⟨w.views ++ [some view],process⟩) ∧
      Governed lawful ⟨w.views ++ [some view],process⟩ (ts ++ [some bytes]) := by
  obtain ⟨result,process,called,opens,memory⟩ := lawful.from_opens promised governed.has
  rw [opened] at opens
  match result,opens with
  | .ok view,⟨has,sound⟩ =>
    refine ⟨view,process,by rw [World.from,called]; rfl,has.perm (heldBy_push (c := some view)).symm,?_⟩
    exact List.rel_append (shows_frame memory governed.shows) (.cons sound .nil)

theorem governed_refused {a : platform.Answers} {error : Nat} (governed : Governed lawful w ts)
    (promised : lawful.Promised a w.process) (refused : lawful.text a = .error error) : ∃ process,
    w.from a = some (.error error,⟨w.views,process⟩) ∧ Governed lawful ⟨w.views,process⟩ ts := by
  obtain ⟨result,process,called,opens,memory⟩ := lawful.from_opens promised governed.has
  rw [refused] at opens
  match result,opens with
  | .error _,⟨rfl,has⟩ => exact ⟨process,by rw [World.from,called]; rfl,has,shows_frame memory governed.shows⟩

-- A view is taken out of its place, and the place is free.
theorem governed_destroy (governed : Governed lawful w ts) (here : w.viewAt i = some view) :
    ∃ process, platform.destroy view w.process = some process ∧ Governed lawful ⟨w.views.set i none,process⟩ (ts.set i none) := by
  obtain ⟨text,_,sound⟩ := shown_at governed here
  have parted := governed.has.perm (heldBy_part (viewAt_some here))
  obtain ⟨process,destroyed,has,memory⟩ := lawful.destroy_gives sound parted
  refine ⟨process,destroyed,has,shows_frame (fun addr member => memory addr fun ours => ?_) ?_⟩
  · have apart := List.nodup_append.mp (parted.held.nodup_iff.mp parted.once)
    exact apart.2.2 _ ours _ member rfl
  · exact forall₂_set governed.shows i trivial

theorem shows_moved (governed : Governed lawful w ts) (j : Nat) :
    List.Forall₂ (Shows lawful.held w.process) (w.views.set j (some platform.initial)) (ts.set j (some [])) :=
  forall₂_set (a := some platform.initial) (b := some []) governed.shows j (lawful.initial_sound w.process)

theorem governed_construct (governed : Governed lawful w ts) (there : w.viewAt j = some view) :
    Governed lawful ⟨w.views.set j (some platform.initial) ++ [some view],w.process⟩ (ts.set j (some []) ++ [ts[j]?.join]) := by
  obtain ⟨text,same,sound⟩ := shown_at governed there
  have left := heldBy_blank lawful.initial_held (viewAt_some there)
  refine ⟨governed.has.perm (left.trans (heldBy_push (c := some view)).symm),?_⟩
  rw [same]
  exact List.rel_append (shows_moved governed j) (.cons sound .nil)

-- A view goes from its place to a free one.
theorem governed_move (governed : Governed lawful w ts) (there : w.viewAt j = some view) (free : w.views[i]? = some none) :
    Governed lawful ⟨(w.views.set j (some platform.initial)).set i (some view),w.process⟩
      ((ts.set j (some [])).set i ts[j]?.join) := by
  obtain ⟨text,same,sound⟩ := shown_at governed there
  have different : j ≠ i := by
    rintro rfl
    rw [viewAt_some there] at free
    cases free
  have free' : (w.views.set j (some platform.initial))[i]? = some none := by rw [List.getElem?_set_ne different,free]
  have left := heldBy_blank lawful.initial_held (viewAt_some there)
  refine ⟨governed.has.perm (left.trans (heldBy_fill (c := some view) free').symm),?_⟩
  rw [same]
  exact forall₂_set (a := some view) (b := some text) (shows_moved governed j) i sound

theorem step_governed {op : Op platform.Answers} (governed : Governed lawful w ts) (allowed : Allowed lawful w op) :
    ∃ w', w.step op = some w' ∧ Governed lawful w' (texts lawful.text ts op) := by
  cases op with
  | «from» a =>
    rw [World.step,texts]
    cases text : lawful.text a with
    | ok bytes =>
      obtain ⟨view,process,called,after⟩ := governed_opened governed allowed text
      exact ⟨_,by rw [called]; rfl,after⟩
    | error error =>
      obtain ⟨process,called,after⟩ := governed_refused governed allowed text
      exact ⟨_,by rw [called]; rfl,after⟩
  | moveConstruct other =>
    obtain ⟨view,there⟩ := allowed
    exact ⟨_,by rw [World.step,there]; rfl,governed_construct governed there⟩
  | moveAssign i other =>
    obtain ⟨⟨view,here⟩,moved,there⟩ := allowed
    rw [World.step,here,texts,Option.bind_eq_bind,Option.bind_some]
    by_cases self : i = other
    · rw [if_neg (fun different => different self),if_neg (fun different => different self)]
      exact ⟨w,rfl,governed⟩
    · obtain ⟨process,destroyed,emptied⟩ := governed_destroy governed here
      have there' : World.viewAt ⟨w.views.set i none,process⟩ other = some moved := by
        rw [World.viewAt,List.getElem?_set_ne self]
        exact there
      have free : (w.views.set i none)[i]? = some none := by
        have within := (List.getElem?_eq_some_iff.mp (viewAt_some here)).1
        rw [List.getElem?_set_self within]
      have after := governed_move emptied there' free
      rw [List.getElem?_set_ne self] at after
      simp only [List.set_comm _ _ self,List.set_set] at after
      rw [if_pos self,if_pos self]
      refine ⟨_,by rw [destroyed,Option.bind_eq_bind,Option.bind_some,there]; rfl,after⟩
  | destroy i =>
    obtain ⟨view,here⟩ := allowed
    obtain ⟨process,destroyed,after⟩ := governed_destroy governed here
    exact ⟨_,by rw [World.step,here,Option.bind_eq_bind,Option.bind_some,destroyed]; rfl,after⟩

-- What is expected of every state: each open handle is held by one view, was obtained
-- once more than it was given back, and each view reads the text that it is for.
structure Kept (lawful : Lawful platform) (w : World platform) (ts : List (Option Bytes)) : Prop where
  counted : w.process.handles.obtained.Perm (w.process.handles.live ++ w.process.handles.returned)
  owned : w.process.handles.live.Perm (heldBy lawful.held w.views)
  once : w.process.handles.live.Nodup
  reads : List.Forall₂ (fun view text => view.map (getText · w.process) = text.map some) w.views ts
  emptied : (∀ view ∈ w.views, view = none) → w.process.handles.live = []

theorem Governed.kept (governed : Governed lawful w ts) : Kept lawful w ts := by
  obtain ⟨has,shows⟩ := governed
  refine ⟨has.counted,has.held,has.once,shows.imp fun view text shown => ?_,fun empty => ?_⟩
  · match view,text,shown with
    | some view,some text,sound => exact congrArg some (Sound.getText sound)
    | none,none,_ => rfl
  · have nothing : heldBy lawful.held w.views = [] := List.flatMap_eq_nil_iff.mpr fun view member => by rw [empty view member]; rfl
    exact List.Perm.eq_nil (nothing ▸ has.held)

-- A run ends when a handle is given back that is not open.
def World.next (w : Option (World platform)) (op : Op platform.Answers) : Option (World platform) := w.bind (·.step op)

def AllowedAt (lawful : Lawful platform) (w : Option (World platform)) (op : Op platform.Answers) : Prop :=
  ∀ w', w = some w' → Allowed lawful w' op

end Runs

inductive System where
  | posix | windows

def System.platform : System → Platform
  | .posix => Posix.platform
  | .windows => Windows.platform

def System.lawful : (system : System) → Lawful system.platform
  | .posix => Posix.lawful
  | .windows => Windows.lawful

end FileView
end Cero
