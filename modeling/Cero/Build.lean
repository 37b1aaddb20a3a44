import Cero.FileViewOwnership
import Cero.FrontEnd

-- From a source to what its reporter is handed.
namespace Cero
open FileView Ownership

-- The text is null for a source that is a file.
structure Source where
  text : Option Bytes
  path : String

def Source.fromString (text : Bytes) (name : String) : Source := ⟨some text,name⟩

-- A string ends in front of its first null character.
def cString (memory : Bytes) : Bytes := memory.takeWhile (· ≠ 0)

-- A `SourceView` with the view of its file that it owns.
structure SourceLock where
  fileView : Option Nat
  text : Bytes
  path : String

section Lock
variable {platform : Platform}

def SourceLock.getText (lock : SourceLock) (w : World platform) : Option Bytes := match lock.fileView with
  | some i => (w.viewAt i).bind (FileView.getText · w.process)
  | none => some (cString lock.text)

def SourceLock.destroy (lock : SourceLock) (w : World platform) : Option (World platform) := match lock.fileView with
  | some i => w.step (.destroy i)
  | none => some w

-- `transform` moves the view out of the result of `from`, which is destroyed then.
def Source.lock (source : Source) (a : platform.Answers) (w : World platform) : Option (Except Nat SourceLock × World platform) :=
  match source.text with
  | none => do
    let (opened,w) ← w.from a
    match opened with
    | .error error => return (.error error,w)
    | .ok result =>
      let fileView := w.views.length
      let w ← w.step (.moveConstruct result)
      let w ← w.step (.destroy result)
      return (.ok ⟨some fileView,[],source.path⟩,w)
  | some text => some (.ok ⟨none,text,source.path⟩,w)

def noSuchFileOrDirectory : Nat := 2
def defaultTabSize : UInt8 := 4

end Lock

section Build
variable {platform : Platform} {lawful : Lawful platform} {w w' : World platform} {ts : List (Option Bytes)}

-- What a source has to say: its text, or why there is none.
def Source.contents (source : Source) (file : Except Nat Bytes) : Except Nat Bytes := match source.text with
  | some text => .ok (cString text)
  | none => file

-- A failure to open a file is the only report there is.
def unopened (message : Nat → Bytes) (path : String) (error : Nat) : Report :=
  if error = noSuchFileOrDirectory then ⟨⟨path,0,0⟩,.error,.fileNotFound,[]⟩
  else ⟨⟨path,0,0⟩,.error,.couldNotOpenFile,[.text (message error)]⟩

-- Only views that are destroyed have come, and nothing else has changed.
def Settled (lawful : Lawful platform) (w : World platform) (ts : List (Option Bytes)) (w' : World platform) : Prop :=
  ∃ n, w'.views = w.views ++ List.replicate n none ∧ Governed lawful w' (ts ++ List.replicate n none)

theorem heldBy_none {V H : Type} (held : V → List H) (views : List (Option V)) (n : Nat) :
    heldBy held (views ++ List.replicate n none) = heldBy held views := by
  have nothing : (List.replicate n none).flatMap (ofCell held) = [] :=
    List.flatMap_eq_nil_iff.mpr fun c member => by rw [List.eq_of_mem_replicate member]; rfl
  rw [heldBy,List.flatMap_append,nothing,List.append_nil]
  rfl

theorem Settled.live (settled : Settled lawful w ts w') (governed : Governed lawful w ts) :
    w'.process.handles.live.Perm w.process.handles.live := by
  obtain ⟨n,views,after⟩ := settled
  have held := after.has.held
  rw [views,heldBy_none] at held
  exact held.trans governed.has.held.symm

-- What the reporter of a build is handed.
def Reported (message : Nat → Bytes) (source : Source) (file : Except Nat Bytes) (reports : List Report) : Prop :=
  match source.contents file with
  | .ok text => ∃ ds, lexAndParse ⟨text,source.path⟩ defaultTabSize = .ok (.ok ds,reports)
  | .error error => reports = [unopened message source.path error]

end Build
end Cero
