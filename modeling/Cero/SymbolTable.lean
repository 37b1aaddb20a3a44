import Cero.Library.Runs
import Cero.Source

-- The symbols of the lexical scopes. `hashOf` stands for `std::hash` on strings.
namespace Cero

inductive SymbolKind where
  | function | parameter | output
  deriving DecidableEq, Repr

structure Symbol where
  kind : SymbolKind
  type : UInt64
  deriving DecidableEq, Repr

-- The hash is stored with the name.
structure SymbolName (hashOf : Bytes → UInt64) where
  name : Bytes
  hash : UInt64
  hashed : hash = hashOf name

variable {hashOf : Bytes → UInt64}

def SymbolName.of (identifier : Bytes) : SymbolName hashOf := ⟨identifier,hashOf identifier,rfl⟩

-- An unordered map compares the hashes before it compares the keys.
def SymbolName.matches (key other : SymbolName hashOf) : Bool := key.hash = other.hash && key.name = other.name

structure Scope (hashOf : Bytes → UInt64) where
  symbols : List (SymbolName hashOf × Symbol)

namespace Scope
def empty : Scope hashOf := ⟨[]⟩

def find (scope : Scope hashOf) (key : SymbolName hashOf) : Option Symbol :=
  (scope.symbols.find? fun entry => entry.1.matches key).map Prod.snd

-- `emplace` keeps an entry that is there already; the type is left at its default.
def put (scope : Scope hashOf) (identifier : Bytes) (kind : SymbolKind) : Scope hashOf :=
  if (scope.find (.of identifier)).isSome then scope else ⟨scope.symbols ++ [(.of identifier,⟨kind,0⟩)]⟩
end Scope

-- The innermost scope stands last.
structure SymbolTable (hashOf : Bytes → UInt64) where
  scopeStack : List (Scope hashOf)

namespace SymbolTable
def empty : SymbolTable hashOf := ⟨[]⟩

def pushScope (table : SymbolTable hashOf) : SymbolTable hashOf := ⟨table.scopeStack ++ [.empty]⟩

def popScope (table : SymbolTable hashOf) : Option (SymbolTable hashOf) :=
  if table.scopeStack.isEmpty then none else some ⟨table.scopeStack.dropLast⟩

-- `put` makes its assertion and stores nothing.
def put (table : SymbolTable hashOf) (_identifier : Bytes) (_kind : SymbolKind) : Option (SymbolTable hashOf) :=
  if table.scopeStack.isEmpty then none else some table

def find (table : SymbolTable hashOf) (identifier : Bytes) : Option Symbol :=
  table.scopeStack.reverse.findSome? fun scope => scope.find (.of identifier)
end SymbolTable

inductive SymbolOp where
  | pushScope
  | popScope
  | put (identifier : Bytes) (kind : SymbolKind)
  deriving DecidableEq, Repr

namespace SymbolTable
-- A failed assertion ends the run.
def step (table : SymbolTable hashOf) : SymbolOp → Option (SymbolTable hashOf)
  | .pushScope => some table.pushScope
  | .popScope => table.popScope
  | .put identifier kind => table.put identifier kind

def run (hashOf : Bytes → UInt64) (ops : List SymbolOp) : Option (SymbolTable hashOf) := ops.foldlM step empty

def lookup (hashOf : Bytes → UInt64) (ops : List SymbolOp) (identifier : Bytes) : Option (Option Symbol) :=
  (run hashOf ops).map fun table => table.find identifier
end SymbolTable

-- Every scope that is popped was pushed, and nothing is put outside of all scopes.
def Bracketed : (depth : Nat) → List SymbolOp → Prop
  | _,[] => True
  | depth,.pushScope :: rest => Bracketed (depth+1) rest
  | 0,_ :: _ => False
  | depth+1,.popScope :: rest => Bracketed depth rest
  | depth+1,.put _ _ :: rest => Bracketed (depth+1) rest

-- The operations between a push and the pop that matches it.
def Balanced : (depth : Nat) → List SymbolOp → Prop
  | 0,[] => True
  | _+1,[] => False
  | depth,.pushScope :: rest => Balanced (depth+1) rest
  | 0,.popScope :: _ => False
  | depth+1,.popScope :: rest => Balanced depth rest
  | depth,.put _ _ :: rest => Balanced depth rest

-- What the table is for: the scopes that are still open, the innermost one first,
-- each with what was put into it.
abbrev Puts := List (Bytes × SymbolKind)

def nested : List Puts → SymbolOp → List Puts
  | scopes,.pushScope => [] :: scopes
  | scopes,.popScope => scopes.tail
  | [],.put _ _ => []
  | here :: outer,.put identifier kind => (here ++ [(identifier,kind)]) :: outer

def firstPut (puts : Puts) (identifier : Bytes) : Option SymbolKind :=
  (puts.find? fun entry => entry.1 = identifier).map Prod.snd

def expectedKind (scopes : List Puts) (identifier : Bytes) : Option SymbolKind :=
  scopes.findSome? fun puts => firstPut puts identifier

def openScopes (ops : List SymbolOp) : List Puts := Run.final nested [] ops

def PutOpen (scopes : List Puts) (identifier : Bytes) : Prop := ∃ puts ∈ scopes, ∃ kind, (identifier,kind) ∈ puts

-- What is expected of a lookup behind a history.
structure Scoped (hashOf : Bytes → UInt64) (ops : List SymbolOp) (identifier : Bytes) : Prop where
  found : (SymbolTable.lookup hashOf ops identifier).map (Option.map Symbol.kind) = some (expectedKind (openScopes ops) identifier)
  restored : ∀ before inner, ops = before ++ .pushScope :: (inner ++ [.popScope]) → Balanced 0 inner →
    SymbolTable.lookup hashOf ops identifier = SymbolTable.lookup hashOf before identifier

section Scopes
theorem matches_of {key : SymbolName hashOf} {identifier : Bytes} :
    key.matches (.of identifier) = decide (key.name = identifier) := by
  by_cases same : key.name = identifier
  · have hash : key.hash = hashOf identifier := by rw [key.hashed,same]
    simp [SymbolName.matches,SymbolName.of,same,hash]
  · simp [SymbolName.matches,SymbolName.of,same]

-- A scope that symbols are put into one after the other.
def Scope.filled (puts : Puts) : Scope hashOf := puts.foldl (fun scope entry => scope.put entry.1 entry.2) .empty

theorem Scope.find_put {scope : Scope hashOf} {identifier other : Bytes} {kind : SymbolKind} :
    (scope.put identifier kind).find (.of other) =
      (scope.find (.of other)).or (if identifier = other then some ⟨kind,0⟩ else none) := by
  by_cases there : (scope.find (.of identifier)).isSome
  · rw [put,if_pos there]
    by_cases same : identifier = other
    · rw [← same]
      obtain ⟨symbol,found⟩ := Option.isSome_iff_exists.mp there
      rw [found]
      rfl
    · rw [if_neg same,Option.or_none]
  · rw [put,if_neg there,find,find,List.find?_append,Option.map_or]
    congr 1
    rw [List.find?_singleton,matches_of]
    by_cases same : identifier = other
    · simp [SymbolName.of,same]
    · simp [SymbolName.of,same]

-- What a scope finds is what was put into it first.
theorem Scope.find_filled (puts : Puts) (identifier : Bytes) :
    ((Scope.filled puts : Scope hashOf).find (.of identifier)).map Symbol.kind = firstPut puts identifier := by
  have each : ∀ scope : Scope hashOf, ((puts.foldl (fun scope entry => scope.put entry.1 entry.2) scope).find (.of identifier)).map
      Symbol.kind = ((scope.find (.of identifier)).map Symbol.kind).or (firstPut puts identifier) := by
    induction puts with
    | nil => exact fun scope => (Option.or_none).symm
    | cons entry puts ih =>
      intro scope
      rw [List.foldl_cons,ih,Scope.find_put,Option.map_or,Option.or_assoc]
      congr 1
      by_cases same : entry.1 = identifier
      · simp [firstPut,same]
      · simp [firstPut,same]
  exact each .empty

-- `find` is right wherever the scopes hold what was put into them.
theorem find_innermost (scopes : List Puts) (identifier : Bytes) :
    ((SymbolTable.mk (scopes.map Scope.filled).reverse : SymbolTable hashOf).find identifier).map Symbol.kind =
      expectedKind scopes identifier := by
  rw [SymbolTable.find,List.reverse_reverse]
  induction scopes with
  | nil => rfl
  | cons puts scopes ih =>
    have here : ((Scope.filled puts : Scope hashOf).find (.of identifier)).map Symbol.kind = firstPut puts identifier :=
      Scope.find_filled puts identifier
    rw [List.map_cons,List.findSome?_cons,expectedKind,List.findSome?_cons,← here]
    cases (Scope.filled puts : Scope hashOf).find (.of identifier) with
    | some symbol => rfl
    | none => exact ih

theorem expectedKind_none (scopes : List Puts) (identifier : Bytes) : expectedKind scopes identifier = none ↔ ¬ PutOpen scopes identifier := by
  simp only [expectedKind,firstPut,List.findSome?_eq_none_iff,Option.map_eq_none_iff,List.find?_eq_none,decide_eq_true_eq,PutOpen,
    not_exists,not_and]
  constructor
  · intro never puts among kind member
    exact never puts among _ member rfl
  · rintro never puts among ⟨_,kind⟩ member rfl
    exact never puts among kind member
end Scopes

section Histories
variable {ops before rest : List SymbolOp} {depth : Nat}

instance decidableBracketed : ∀ (depth : Nat) (ops : List SymbolOp), Decidable (Bracketed depth ops)
  | _,[] => .isTrue trivial
  | depth,.pushScope :: rest => decidableBracketed (depth+1) rest
  | 0,.popScope :: _ => .isFalse id
  | 0,.put _ _ :: _ => .isFalse id
  | depth+1,.popScope :: rest => decidableBracketed depth rest
  | depth+1,.put _ _ :: rest => decidableBracketed (depth+1) rest

def depthAfter : (depth : Nat) → List SymbolOp → Nat
  | depth,[] => depth
  | depth,.pushScope :: rest => depthAfter (depth+1) rest
  | depth,.popScope :: rest => depthAfter (depth-1) rest
  | depth,.put _ _ :: rest => depthAfter depth rest

-- The table consists of empty scopes, as many as are open.
theorem run_empty (bracketed : Bracketed depth ops) :
    ops.foldlM SymbolTable.step (⟨List.replicate depth .empty⟩ : SymbolTable hashOf) =
      some ⟨List.replicate (depthAfter depth ops) .empty⟩ := by
  induction ops generalizing depth with
  | nil => rfl
  | cons op rest ih =>
    rw [List.foldlM_cons]
    cases op with
    | pushScope =>
      rw [Bracketed] at bracketed
      have pushed : SymbolTable.step (⟨List.replicate depth .empty⟩ : SymbolTable hashOf) .pushScope =
          some ⟨List.replicate (depth+1) .empty⟩ := by
        rw [SymbolTable.step,SymbolTable.pushScope,List.replicate_succ']
      rw [pushed]
      exact ih bracketed
    | popScope =>
      cases depth with
      | zero => exact bracketed.elim
      | succ depth =>
        rw [Bracketed] at bracketed
        have popped : SymbolTable.step (⟨List.replicate (depth+1) .empty⟩ : SymbolTable hashOf) .popScope =
            some ⟨List.replicate depth .empty⟩ := by
          rw [SymbolTable.step,SymbolTable.popScope,if_neg (by simp),List.replicate_succ',List.dropLast_concat]
        rw [popped]
        exact ih bracketed
    | put identifier kind =>
      cases depth with
      | zero => exact bracketed.elim
      | succ depth =>
        rw [Bracketed] at bracketed
        have stored : SymbolTable.step (⟨List.replicate (depth+1) .empty⟩ : SymbolTable hashOf) (.put identifier kind) =
            some ⟨List.replicate (depth+1) .empty⟩ := by
          rw [SymbolTable.step,SymbolTable.put,if_neg (by simp)]
        rw [stored]
        exact ih bracketed

theorem bracketed_before (bracketed : Bracketed depth (before ++ rest)) : Bracketed depth before := by
  induction before generalizing depth with
  | nil => trivial
  | cons op before ih =>
    rw [List.cons_append] at bracketed
    cases op with
    | pushScope => exact ih bracketed
    | popScope =>
      cases depth with
      | zero => exact bracketed.elim
      | succ depth => exact ih bracketed
    | put =>
      cases depth with
      | zero => exact bracketed.elim
      | succ depth => exact ih bracketed

theorem lookup_null (hashOf : Bytes → UInt64) (bracketed : Bracketed 0 ops) (identifier : Bytes) :
    SymbolTable.lookup hashOf ops identifier = some none := by
  have ran : SymbolTable.run hashOf ops = some ⟨List.replicate (depthAfter 0 ops) .empty⟩ := run_empty bracketed
  have empty : (SymbolTable.mk (List.replicate (depthAfter 0 ops) .empty) : SymbolTable hashOf).find identifier = none := by
    rw [SymbolTable.find,List.findSome?_eq_none_iff]
    intro scope member
    rw [List.eq_of_mem_replicate (List.mem_reverse.mp member)]
    rfl
  rw [SymbolTable.lookup,ran,Option.map_some,empty]

-- A lookup is right just for the identifiers that no open scope was given.
theorem symbol_table_scoping (hashOf : Bytes → UInt64) (ops : List SymbolOp) (bracketed : Bracketed 0 ops) (identifier : Bytes) :
    Scoped hashOf ops identifier ↔ ¬ PutOpen (openScopes ops) identifier := by
  rw [← expectedKind_none]
  constructor
  · intro right
    have found := right.found
    rw [lookup_null hashOf bracketed] at found
    exact (Option.some.inj found).symm
  · intro none_
    refine ⟨?_,?_⟩
    · rw [lookup_null hashOf bracketed,none_]
      rfl
    · rintro before inner rfl _
      rw [lookup_null hashOf bracketed,lookup_null hashOf (bracketed_before bracketed)]

-- One scope with one parameter in it.
def oneParameter : List SymbolOp := [.pushScope,.put (text "x") .parameter]

theorem symbol_table_scoping_parameter : ¬ ∃ hashOf, ∀ ops, Bracketed 0 ops → ∀ identifier, Scoped hashOf ops identifier := by
  rintro ⟨hashOf,always⟩
  have bracketed : Bracketed 0 oneParameter := by decide
  have found := (always oneParameter bracketed (text "x")).found
  have null : SymbolTable.lookup hashOf oneParameter (text "x") = some none := lookup_null hashOf bracketed _
  rw [null] at found
  exact absurd found (by decide)

theorem symbol_table_scoping_popped : Scoped (fun _ => 0) (oneParameter ++ [.popScope]) (text "x") ↔
    ¬ PutOpen (openScopes (oneParameter ++ [.popScope])) (text "x") :=
  symbol_table_scoping _ (oneParameter ++ [.popScope]) (by decide) _
end Histories
end Cero
