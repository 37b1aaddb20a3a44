import Cero.FileView

-- What a system has to promise for the functions of a view of a file, and that both do.
namespace Cero
open Ownership

namespace FileView
section Views
variable {platform : Platform}

-- A view of a text: it is mapped unless it is empty.
structure Sound (held : platform.Impl → List Handle) (p : Process) (view : platform.Impl) (text : Bytes) : Prop where
  size : platform.size view = text.length
  mapped : ∀ addr, .view addr ∈ held view ↔ addr = platform.addr view ∧ text ≠ []
  memory : text ≠ [] → p.memory (platform.addr view) = some text

variable {held : platform.Impl → List Handle} {p p' : Process} {view : platform.Impl} {text : Bytes}

theorem Sound.getText (sound : Sound held p view text) : getText view p = some text := by
  rw [FileView.getText,sound.size]
  split
  · rename_i empty
    rw [List.eq_nil_of_length_eq_zero empty]
  · rename_i some_
    rw [Process.read,sound.memory (by rintro rfl; exact some_ rfl)]
    simp

theorem Sound.frame (sound : Sound held p view text) (same : ∀ addr, .view addr ∈ held view → p'.memory addr = p.memory addr) :
    Sound held p' view text :=
  ⟨sound.size,sound.mapped,fun some_ => (same _ ((sound.mapped _).mpr ⟨rfl,some_⟩)).trans (sound.memory some_)⟩

-- What becomes of a call of `from` by what the file is to the system: its text, or
-- the error.
def Opens (held : platform.Impl → List Handle) (hs : List Handle) (p : Process) : Except Nat Bytes → Except Nat platform.Impl → Prop
  | .ok text,.ok view => p.handles.Has (held view ++ hs) ∧ Sound held p view text
  | .error error,.error error' => error = error' ∧ p.handles.Has hs
  | _,_ => False
end Views

-- What a view holds on a system, what the system promises of its answers, and what
-- the functions of the views then do.
structure Lawful (platform : Platform) where
  held : platform.Impl → List Handle
  text : platform.Answers → Except Nat Bytes
  Promised : platform.Answers → Process → Prop
  initial_held : held platform.initial = []
  initial_size : platform.size platform.initial = 0
  destroy_gives : ∀ {p : Process} {view : platform.Impl} {text : Bytes} {hs : List Handle}, Sound held p view text →
    p.handles.Has (held view ++ hs) → ∃ p', platform.destroy view p = some p' ∧ p'.handles.Has hs ∧
      ∀ addr, .view addr ∉ held view → p'.memory addr = p.memory addr
  from_opens : ∀ {p : Process} {a : platform.Answers} {hs : List Handle}, Promised a p → p.handles.Has hs →
    ∃ result p', platform.from a p = some (result,p') ∧ Opens held hs p' (text a) result ∧
      ∀ addr, .view addr ∈ hs → p'.memory addr = p.memory addr

theorem Lawful.initial_sound {platform : Platform} (lawful : Lawful platform) (p : Process) : Sound lawful.held p platform.initial [] :=
  ⟨lawful.initial_size,fun addr => by simp [lawful.initial_held],fun impossible => absurd rfl impossible⟩
end FileView

namespace Posix
open FileView
variable {p : Process} {hs : List Handle} {a : Answers} {fd : Int} {size addr : Nat} {contents : Bytes}

def Impl.held (impl : Impl) : List Handle :=
  (if impl.addr ≠ mapFailed then [.view impl.addr] else []) ++ if impl.fd ≠ -1 then [.file impl.fd] else []

def Answers.text (a : Answers) : Except Nat Bytes := do
  let _ ← a.opened
  let size ← a.stats
  if 0 < size then a.mapped.map (·.2) else .ok []

-- Descriptors and addresses that are handed out are not in use, and all of a file is
-- mapped.
structure Answers.Promised (a : Answers) (p : Process) : Prop where
  opened : ∀ fd, a.opened = .ok fd → fd ≠ -1 ∧ .file fd ∉ p.handles.live
  mapped : ∀ size addr contents, a.stats = .ok size → 0 < size → a.mapped = .ok (addr,contents) →
    addr ≠ mapFailed ∧ .view addr ∉ p.handles.live ∧ contents.length = size

theorem destroy_held {impl : Impl} (sized : impl.addr ≠ mapFailed → (p.memory impl.addr).map List.length = some impl.size)
    (has : p.handles.Has (impl.held ++ hs)) : ∃ p', impl.destroy p = some p' ∧ p'.handles.Has hs ∧
      ∀ addr, .view addr ∉ impl.held → p'.memory addr = p.memory addr := by
  rw [Impl.held,List.append_assoc] at has
  by_cases mapped : impl.addr ≠ mapFailed
  · rw [if_pos mapped] at has
    obtain ⟨p₁,unmapped,has₁,memory₁⟩ := Process.unmap_some has
    obtain ⟨p₂,closed,has₂,memory₂⟩ := Process.close_held has₁
    refine ⟨p₂,?_,has₂,fun addr other => ?_⟩
    · rw [Impl.destroy,if_pos mapped,munmap,if_pos (sized mapped),unmapped]
      exact closed
    · rw [memory₂,memory₁,Function.update_of_ne]
      rintro rfl
      exact other (by simp [Impl.held,mapped])
  · rw [if_neg mapped] at has
    obtain ⟨p₁,closed,has₁,memory₁⟩ := Process.close_held has
    refine ⟨p₁,?_,has₁,fun addr _ => by rw [memory₁]⟩
    rw [Impl.destroy,if_neg mapped]
    exact closed

theorem leave_unmapped {f : Impl} (unmapped : f.addr = mapFailed) (result : Except Nat Impl) (has : p.handles.Has (f.held ++ hs)) :
    ∃ p', leave f result p = some (result,p') ∧ p'.handles.Has hs ∧ p'.memory = p.memory := by
  obtain ⟨p',destroyed,has',memory⟩ := destroy_held (fun mapped => absurd unmapped mapped) has
  refine ⟨p',by rw [leave,destroyed]; rfl,has',funext fun addr => memory addr ?_⟩
  simp [Impl.held,unmapped]

theorem leave_error {f : Impl} (unmapped : f.addr = mapFailed) (error : Nat) (has : p.handles.Has (f.held ++ hs)) :
    ∃ result p', leave f (.error error) p = some (result,p') ∧ @Opens platform Impl.held hs p' (.error error) result ∧
      ∀ addr, .view addr ∈ hs → p'.memory addr = p.memory addr := by
  obtain ⟨p',left,has',memory⟩ := leave_unmapped unmapped (.error error) has
  exact ⟨_,p',left,⟨rfl,has'⟩,fun addr _ => congrFun memory addr⟩

theorem destroy_gives {impl : Impl} {text : Bytes} (sound : @Sound platform Impl.held p impl text)
    (has : p.handles.Has (impl.held ++ hs)) : ∃ p', impl.destroy p = some p' ∧ p'.handles.Has hs ∧
      ∀ addr, .view addr ∉ impl.held → p'.memory addr = p.memory addr := by
  refine destroy_held (fun mapped => ?_) has
  have some_ := ((sound.mapped impl.addr).mp (by simp [Impl.held,mapped])).2
  have memory : p.memory impl.addr = some text := sound.memory some_
  have size : impl.size = text.length := sound.size
  rw [memory,size]
  rfl

theorem from_opens (promised : a.Promised p) (has : p.handles.Has hs) : ∃ result p', «from» a p = some (result,p') ∧
    @Opens platform Impl.held hs p' a.text result ∧ ∀ addr, .view addr ∈ hs → p'.memory addr = p.memory addr := by
  unfold «from» Answers.text
  cases opened : a.opened with
  | error error =>
    exact leave_error rfl error has
  | ok fd =>
    obtain ⟨proper,fresh⟩ := promised.opened fd opened
    have hasFile : (p.opened fd).handles.Has (.file fd :: hs) := has.obtain fresh
    cases stats : a.stats with
    | error error =>
      have has' : (p.opened fd).handles.Has (Impl.held {fd} ++ hs) := by simpa [Impl.held,proper] using hasFile
      exact leave_error rfl error has'
    | ok size =>
      by_cases some_ : 0 < size
      · cases mapped : a.mapped with
        | error error =>
          have has' : (p.opened fd).handles.Has (Impl.held {fd,size} ++ hs) := by simpa [Impl.held,proper] using hasFile
          simp only [bind,Except.bind,if_pos some_]
          exact leave_error rfl error has'
        | ok view =>
          obtain ⟨addr,contents⟩ := view
          obtain ⟨there,unused,whole⟩ := promised.mapped size addr contents stats some_ mapped
          have apart : .view addr ∉ (p.opened fd).handles.live := fun among => (List.mem_cons.mp among).elim (by simp) unused
          have hasView : ((p.opened fd).mapped addr contents).handles.Has (.view addr :: .file fd :: hs) := hasFile.obtain apart
          obtain ⟨p',left,has',memory⟩ := leave_unmapped (f := {}) rfl (.ok {fd,size,addr}) hasView
          refine ⟨_,p',(if_pos some_).trans left,?_,fun other among => ?_⟩
          · simp only [bind,Except.bind,if_pos some_]
            refine ⟨by simpa [Impl.held,proper,there] using has',whole.symm,fun other => ?_,fun _ => ?_⟩
            · have nonempty : contents ≠ [] := by rintro rfl; exact absurd whole (Nat.ne_of_lt some_)
              simp [Impl.held,proper,there,nonempty,platform]
            · rw [memory]
              exact Function.update_self ..
          · rw [memory]
            refine Function.update_of_ne ?_ _ _
            rintro rfl
            exact unused (has.held.mem_iff.mpr among)
      · obtain ⟨p',left,has',memory⟩ := leave_unmapped (f := {}) rfl (.ok {fd,size}) hasFile
        have empty : size = 0 := Nat.eq_zero_of_not_pos some_
        refine ⟨_,p',(if_neg some_).trans left,?_,fun addr _ => by rw [memory]; rfl⟩
        simp only [bind,Except.bind,if_neg some_]
        refine ⟨by simpa [Impl.held,proper] using has',empty,fun addr => ?_,fun impossible => absurd rfl impossible⟩
        simp [Impl.held,proper]

def lawful : Lawful platform := ⟨Impl.held,Answers.text,Answers.Promised,rfl,rfl,destroy_gives,from_opens⟩
end Posix

namespace Windows
open FileView
variable {p : Process} {hs : List Handle} {a : Answers}

def Impl.held (impl : Impl) : List Handle :=
  (if impl.addr ≠ 0 then [.view impl.addr] else []) ++ ((if impl.mapping ≠ 0 then [.file impl.mapping] else []) ++
    if impl.file ≠ invalidHandleValue then [.file impl.file] else [])

def Answers.text (a : Answers) : Except Nat Bytes := do
  let _ ← a.created
  let size ← a.fileSize
  if 0 < size then do
    let _ ← a.mapping
    a.view.map (·.2)
  else .ok []

structure Answers.Promised (a : Answers) (p : Process) : Prop where
  created : ∀ file, a.created = .ok file → file ≠ invalidHandleValue ∧ .file file ∉ p.handles.live
  mapping : ∀ file mapping, a.created = .ok file → a.mapping = .ok mapping →
    mapping ≠ 0 ∧ mapping ≠ file ∧ .file mapping ∉ p.handles.live
  view : ∀ size addr contents, a.fileSize = .ok size → 0 < size → a.view = .ok (addr,contents) →
    addr ≠ 0 ∧ .view addr ∉ p.handles.live ∧ contents.length = size

theorem destroy_held {impl : Impl} (has : p.handles.Has (impl.held ++ hs)) : ∃ p', impl.destroy p = some p' ∧ p'.handles.Has hs ∧
    ∀ addr, .view addr ∉ impl.held → p'.memory addr = p.memory addr := by
  rw [Impl.held,List.append_assoc,List.append_assoc] at has
  by_cases mapped : impl.addr ≠ 0
  · rw [if_pos mapped] at has
    obtain ⟨p₁,unmapped,has₁,memory₁⟩ := Process.unmap_some has
    obtain ⟨p₂,closed,has₂,memory₂⟩ := Process.close_held has₁
    obtain ⟨p₃,closed',has₃,memory₃⟩ := Process.close_held has₂
    refine ⟨p₃,?_,has₃,fun addr other => ?_⟩
    · rw [Impl.destroy,if_pos mapped,unmapped]
      rw [Option.bind_eq_bind,Option.bind_some,closed]
      exact closed'
    · rw [memory₃,memory₂,memory₁,Function.update_of_ne]
      rintro rfl
      exact other (by simp [Impl.held,mapped])
  · rw [if_neg mapped] at has
    obtain ⟨p₁,closed,has₁,memory₁⟩ := Process.close_held has
    obtain ⟨p₂,closed',has₂,memory₂⟩ := Process.close_held has₁
    refine ⟨p₂,?_,has₂,fun addr _ => by rw [memory₂,memory₁]⟩
    rw [Impl.destroy,if_neg mapped]
    rw [Option.bind_eq_bind,Option.bind_some,closed]
    exact closed'

theorem leave_unmapped {f : Impl} (unmapped : f.addr = 0) (result : Except Nat Impl) (has : p.handles.Has (f.held ++ hs)) :
    ∃ p', leave f result p = some (result,p') ∧ p'.handles.Has hs ∧ p'.memory = p.memory := by
  obtain ⟨p',destroyed,has',memory⟩ := destroy_held has
  refine ⟨p',by rw [leave,destroyed]; rfl,has',funext fun addr => memory addr ?_⟩
  simp [Impl.held,unmapped]

theorem leave_error {f : Impl} (unmapped : f.addr = 0) (error : Nat) (has : p.handles.Has (f.held ++ hs)) :
    ∃ result p', leave f (.error error) p = some (result,p') ∧ @Opens platform Impl.held hs p' (.error error) result ∧
      ∀ addr, .view addr ∈ hs → p'.memory addr = p.memory addr := by
  obtain ⟨p',left,has',memory⟩ := leave_unmapped unmapped (.error error) has
  exact ⟨_,p',left,⟨rfl,has'⟩,fun addr _ => congrFun memory addr⟩

theorem from_opens (promised : a.Promised p) (has : p.handles.Has hs) : ∃ result p', «from» a p = some (result,p') ∧
    @Opens platform Impl.held hs p' a.text result ∧ ∀ addr, .view addr ∈ hs → p'.memory addr = p.memory addr := by
  unfold «from» Answers.text
  cases created : a.created with
  | error error =>
    exact leave_error rfl error has
  | ok file =>
    obtain ⟨proper,fresh⟩ := promised.created file created
    have hasFile : (p.opened file).handles.Has (.file file :: hs) := has.obtain fresh
    cases fileSize : a.fileSize with
    | error error =>
      have has' : (p.opened file).handles.Has (Impl.held {file} ++ hs) := by simpa [Impl.held,proper] using hasFile
      exact leave_error rfl error has'
    | ok size =>
      by_cases some_ : 0 < size
      · cases mapping : a.mapping with
        | error error =>
          have has' : (p.opened file).handles.Has (Impl.held {file,size} ++ hs) := by simpa [Impl.held,proper] using hasFile
          simp only [bind,Except.bind,if_pos some_]
          exact leave_error rfl error has'
        | ok mapping_ =>
          obtain ⟨valid,other,unused⟩ := promised.mapping file mapping_ created mapping
          have apart : .file mapping_ ∉ (p.opened file).handles.live := fun among =>
            (List.mem_cons.mp among).elim (fun same => other (Handle.file.inj same)) unused
          have hasMapping : ((p.opened file).opened mapping_).handles.Has (.file mapping_ :: .file file :: hs) := hasFile.obtain apart
          cases viewed : a.view with
          | error error =>
            have has' : ((p.opened file).opened mapping_).handles.Has (Impl.held {file,size,mapping := mapping_} ++ hs) := by
              simpa [Impl.held,proper,valid] using hasMapping
            simp only [bind,Except.bind,if_pos some_]
            exact leave_error rfl error has'
          | ok view =>
            obtain ⟨addr,contents⟩ := view
            obtain ⟨there,unmapped,whole⟩ := promised.view size addr contents fileSize some_ viewed
            have apart : .view addr ∉ ((p.opened file).opened mapping_).handles.live := by
              simpa [Process.opened,Ledger.obtain] using unmapped
            have hasView : (((p.opened file).opened mapping_).mapped addr contents).handles.Has
                (.view addr :: .file mapping_ :: .file file :: hs) := hasMapping.obtain apart
            obtain ⟨p',left,has',memory⟩ := leave_unmapped (f := {}) rfl (.ok {file,size,mapping := mapping_,addr}) hasView
            refine ⟨_,p',(if_pos some_).trans left,?_,fun other among => ?_⟩
            · simp only [bind,Except.bind,if_pos some_]
              refine ⟨by simpa [Impl.held,proper,valid,there] using has',whole.symm,fun other => ?_,fun _ => ?_⟩
              · have nonempty : contents ≠ [] := by rintro rfl; exact absurd whole (Nat.ne_of_lt some_)
                simp [Impl.held,proper,valid,there,nonempty,platform]
              · rw [memory]
                exact Function.update_self ..
            · rw [memory]
              refine Function.update_of_ne ?_ _ _
              rintro rfl
              exact unmapped (has.held.mem_iff.mpr among)
      · obtain ⟨p',left,has',memory⟩ := leave_unmapped (f := {}) rfl (.ok {file,size}) hasFile
        have empty : size = 0 := Nat.eq_zero_of_not_pos some_
        refine ⟨_,p',(if_neg some_).trans left,?_,fun addr _ => by rw [memory]; rfl⟩
        simp only [bind,Except.bind,if_neg some_]
        refine ⟨by simpa [Impl.held,proper] using has',empty,fun addr => ?_,fun impossible => absurd rfl impossible⟩
        simp [Impl.held,proper]

def lawful : Lawful platform := ⟨Impl.held,Answers.text,Answers.Promised,rfl,rfl,fun _ => destroy_held,from_opens⟩
end Windows
end Cero
