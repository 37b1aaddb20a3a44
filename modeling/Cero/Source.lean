import Mathlib.Algebra.Ring.Nat
import Cero.Library.Effect

namespace Cero

-- Every way in which the compiler would stop instead of returning a result: its
-- assertions, the range checks of the string views it slices, a read behind the
-- token array. `exhausted` is no event of the source: it is the counter that
-- bounds the loops and the recursion of the model.
inductive Fault where
  | advancedPastEnd
  | substrOutOfRange
  | unreachable
  | nameFromOtherToken
  | argumentCount
  | readPastTokens
  | exhausted
  deriving DecidableEq, Repr

abbrev Bytes := List UInt8

@[simp] def ch (c : Char) : UInt8 := c.val.toUInt8

def text (s : String) : Bytes := s.toList.map ch

def substr (bytes : Bytes) (pos count : Nat) : Except Fault Bytes :=
  if pos ≤ bytes.length then .ok ((bytes.drop pos).take count) else .error .substrOutOfRange

theorem substr_ok {bytes : Bytes} {pos : Nat} (inside : pos ≤ bytes.length) (count : Nat) :
    substr bytes pos count = .ok ((bytes.drop pos).take count) := if_pos inside

structure CodeLocation where
  path : String
  line : UInt32
  column : UInt32
  deriving DecidableEq, Repr

structure SourceView where
  text : Bytes
  path : String

def sourceSizeBits : Nat := 24
def sourceSizeMax : Nat := 2 ^ sourceSizeBits - 1

def npos : UInt64 := UInt64.ofNat (2 ^ 64 - 1)

-- The first loop of `locate`, from index `i` on.
def countLines : Bytes → (i : UInt64) → (line : UInt32) → (lastLine : UInt64) → UInt32 × UInt64
  | [],_,line,lastLine => (line,lastLine)
  | c :: rest,i,line,lastLine =>
    if c = ch '\n' then countLines rest (i+1) (line+1) i else countLines rest (i+1) line lastLine

def countColumns (tabSize : UInt8) (range : Bytes) : UInt32 :=
  range.foldl (fun column c => column + if c = ch '\t' then tabSize.toUInt32 else 1) 1

def SourceView.locate (source : SourceView) (offset : Nat) (tabSize : UInt8) : Except Fault CodeLocation := do
  let range ← substr source.text 0 offset
  let (line,lastLine) := countLines range 0 1 npos
  -- `npos + 1` is 0: without a newline the whole range counts
  let range ← substr range (lastLine+1).toNat range.length
  return ⟨source.path,line,countColumns tabSize range⟩

-- The iterator of the source together with the text from it to the end.
structure SourceCursor where
  offset : Nat
  rest : Bytes
  deriving DecidableEq, Repr

namespace SourceCursor
variable {ω : Type}

def start (source : SourceView) : SourceCursor := ⟨0,source.text⟩

def front (c : SourceCursor) : UInt8 := match c.rest with
  | [] => 0
  | b :: _ => b

def peek : Effect Fault SourceCursor ω UInt8 := fun c => .ok ⟨.ok c.front,c,[]⟩

def next : Effect Fault SourceCursor ω UInt8 := fun c => match c.rest with
  | [] => .ok ⟨.ok 0,c,[]⟩
  | b :: rest => .ok ⟨.ok b,⟨c.offset+1,rest⟩,[]⟩

def advance : Effect Fault SourceCursor ω Unit := fun c => match c.rest with
  | [] => .error .advancedPastEnd
  | _ :: rest => .ok ⟨.ok (),⟨c.offset+1,rest⟩,[]⟩

def matchChar (expected : UInt8) : Effect Fault SourceCursor ω Bool := fun c => match c.rest with
  | [] => .ok ⟨.ok false,c,[]⟩
  | b :: rest => if b = expected then .ok ⟨.ok true,⟨c.offset+1,rest⟩,[]⟩ else .ok ⟨.ok false,c,[]⟩

def valid : Effect Fault SourceCursor ω Bool := fun c => .ok ⟨.ok (!c.rest.isEmpty),c,[]⟩

def currentOffset : Effect Fault SourceCursor ω Nat := fun c => .ok ⟨.ok c.offset,c,[]⟩

-- `c'` is `c` moved over exactly the bytes `crossed`.
def Moves (c : SourceCursor) (crossed : Bytes) (c' : SourceCursor) : Prop :=
  c.rest = crossed ++ c'.rest ∧ c'.offset = c.offset + crossed.length

theorem Moves.refl (c : SourceCursor) : Moves c [] c := ⟨rfl,rfl⟩

theorem Moves.trans {c c' c'' : SourceCursor} {u v : Bytes} (first : Moves c u c') (second : Moves c' v c'') :
    Moves c (u ++ v) c'' := by
  refine ⟨by rw [first.1,second.1,List.append_assoc],?_⟩
  rw [second.2,first.2,List.length_append]; omega

theorem Moves.length {c c' : SourceCursor} {u : Bytes} (moved : Moves c u c') :
    c.rest.length = u.length + c'.rest.length := by rw [moved.1,List.length_append]
end SourceCursor
end Cero
