import Cero.Source
import Cero.Library.Ownership
import Mathlib.Logic.Function.Basic

-- Views of files that are mapped to memory, over the calls of two operating systems.
namespace Cero
open Ownership

-- File descriptors, or what `CloseHandle` takes, and views of mapped files.
inductive Handle where
  | file (handle : Int)
  | view (addr : Nat)
  deriving DecidableEq, Repr

-- The handles of the process, and what is mapped at an address: the file as it was
-- when it was mapped.
structure Process where
  handles : Ledger Handle
  memory : Nat → Option Bytes

namespace Process
def start : Process := ⟨.start,fun _ => none⟩

def opened (p : Process) (handle : Int) : Process := {p with handles := p.handles.obtain (.file handle)}

def mapped (p : Process) (addr : Nat) (contents : Bytes) : Process :=
  ⟨p.handles.obtain (.view addr),Function.update p.memory addr (some contents)⟩

-- Nothing is closed that is not open, and nothing unmapped that is not mapped.
def close (p : Process) (handle : Int) : Option Process :=
  (p.handles.giveBack (.file handle)).map fun handles => {p with handles}

def unmap (p : Process) (addr : Nat) : Option Process :=
  (p.handles.giveBack (.view addr)).map fun handles => ⟨handles,Function.update p.memory addr none⟩

def read (p : Process) (addr size : Nat) : Option Bytes := do
  let contents ← p.memory addr
  if size ≤ contents.length then some (contents.take size) else none

section Calls
variable {p : Process} {handle : Int} {addr : Nat} {hs : List Handle} {P : Prop} [Decidable P]

theorem close_some (has : p.handles.Has (.file handle :: hs)) :
    ∃ p', p.close handle = some p' ∧ p'.handles.Has hs ∧ p'.memory = p.memory := by
  obtain ⟨handles,given,left⟩ := has.giveBack
  exact ⟨{p with handles},by rw [close,given]; rfl,left,rfl⟩

theorem unmap_some (has : p.handles.Has (.view addr :: hs)) :
    ∃ p', p.unmap addr = some p' ∧ p'.handles.Has hs ∧ p'.memory = Function.update p.memory addr none := by
  obtain ⟨handles,given,left⟩ := has.giveBack
  exact ⟨_,by rw [unmap,given]; rfl,left,rfl⟩

theorem close_held (has : p.handles.Has ((if P then [.file handle] else []) ++ hs)) :
    ∃ p', (if P then p.close handle else some p) = some p' ∧ p'.handles.Has hs ∧ p'.memory = p.memory := by
  split at has
  · rename_i holds
    rw [if_pos holds]
    exact close_some has
  · rename_i fails
    exact ⟨p,if_neg fails,has,rfl⟩
end Calls
end Process

namespace FileView
-- What `FileView::Impl` is on a system, and how it is made and given up.
structure Platform where
  Impl : Type
  Answers : Type
  initial : Impl
  size : Impl → Nat
  addr : Impl → Nat
  destroy : Impl → Process → Option Process
  «from» : Answers → Process → Option (Except Nat Impl × Process)

variable {platform : Platform}

def getText (view : platform.Impl) (p : Process) : Option Bytes :=
  if platform.size view = 0 then some [] else p.read (platform.addr view) (platform.size view)
end FileView

namespace Posix
def mapFailed : Nat := 2 ^ 64 - 1

structure Impl where
  fd : Int := -1
  size : Nat := 0
  addr : Nat := mapFailed

def munmap (p : Process) (addr size : Nat) : Option Process :=
  if (p.memory addr).map List.length = some size then p.unmap addr else none

def Impl.destroy (impl : Impl) (p : Process) : Option Process := do
  let p ← (if impl.addr ≠ mapFailed then munmap p impl.addr impl.size else some p)
  if impl.fd ≠ -1 then p.close impl.fd else some p

-- What `open`, `fstat` and `mmap` answer: a descriptor, the size of the file, an
-- address and what is found there, or an error number.
structure Answers where
  opened : Except Nat Int
  stats : Except Nat Nat
  mapped : Except Nat (Nat × Bytes)

-- The local object is destroyed on every way out. It is empty where it was moved.
def leave (f : Impl) (result : Except Nat Impl) (p : Process) : Option (Except Nat Impl × Process) :=
  (f.destroy p).map (result,·)

def «from» (a : Answers) (p : Process) : Option (Except Nat Impl × Process) :=
  let f : Impl := {}
  match a.opened with
  | .error error => leave f (.error error) p
  | .ok fd =>
    let f := {f with fd}
    let p := p.opened fd
    match a.stats with
    | .error error => leave f (.error error) p
    | .ok size =>
      let f := {f with size}
      -- mapping zero-sized files is not allowed
      if 0 < size then
        match a.mapped with
        | .error error => leave {f with addr := mapFailed} (.error error) p
        | .ok (addr,contents) => leave {} (.ok {f with addr}) (p.mapped addr contents)
      else leave {} (.ok f) p

def platform : FileView.Platform := ⟨Impl,Answers,{},Impl.size,Impl.addr,Impl.destroy,«from»⟩
end Posix

namespace Windows
def invalidHandleValue : Int := -1

structure Impl where
  file : Int := invalidHandleValue
  size : Nat := 0
  mapping : Int := 0
  addr : Nat := 0

def Impl.destroy (impl : Impl) (p : Process) : Option Process := do
  let p ← (if impl.addr ≠ 0 then p.unmap impl.addr else some p)
  let p ← (if impl.mapping ≠ 0 then p.close impl.mapping else some p)
  if impl.file ≠ invalidHandleValue then p.close impl.file else some p

-- The answers of `CreateFileW`, `GetFileSizeEx`, `CreateFileMappingW` and
-- `MapViewOfFile`.
structure Answers where
  created : Except Nat Int
  fileSize : Except Nat Nat
  mapping : Except Nat Int
  view : Except Nat (Nat × Bytes)

def leave (f : Impl) (result : Except Nat Impl) (p : Process) : Option (Except Nat Impl × Process) :=
  (f.destroy p).map (result,·)

def «from» (a : Answers) (p : Process) : Option (Except Nat Impl × Process) :=
  let f : Impl := {}
  match a.created with
  | .error error => leave f (.error error) p
  | .ok file =>
    let f := {f with file}
    let p := p.opened file
    match a.fileSize with
    | .error error => leave f (.error error) p
    | .ok size =>
      let f := {f with size}
      -- mapping zero-sized files is not allowed
      if 0 < size then
        match a.mapping with
        | .error error => leave f (.error error) p
        | .ok mapping =>
          let f := {f with mapping}
          let p := p.opened mapping
          match a.view with
          | .error error => leave f (.error error) p
          | .ok (addr,contents) => leave {} (.ok {f with addr}) (p.mapped addr contents)
      else leave {} (.ok f) p

def platform : FileView.Platform := ⟨Impl,Answers,{},Impl.size,Impl.addr,Impl.destroy,«from»⟩
end Windows
end Cero
