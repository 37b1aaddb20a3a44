import Cero.Token

-- The iterator of the token array is the list of the tokens from it to the end of
-- the array. Dereferencing it behind the last token is a fault.
namespace Cero.TokenCursor
open Effect
variable {ω : Type}

def peek : Effect Fault (List Token) ω Token := fun ts => match ts with
  | [] => .error .readPastTokens
  | t :: _ => .ok ⟨.ok t,ts,[]⟩

def peekKind : Effect Fault (List Token) ω TokenKind := do return (← peek).kind

def peekOffset : Effect Fault (List Token) ω (BitVec sourceSizeBits) := do return (← peek).offset

def peekAhead : Effect Fault (List Token) ω Token := fun ts => match ts with
  | [] => .error .readPastTokens
  | t :: rest =>
    if t.kind = .endOfFile then .ok ⟨.ok t,ts,[]⟩
    else match rest with
      | [] => .error .readPastTokens
      | ahead :: _ => .ok ⟨.ok ahead,ts,[]⟩

def advance : Effect Fault (List Token) ω Unit := fun ts => match ts with
  | [] => .error .readPastTokens
  | t :: rest => .ok ⟨.ok (),if t.kind ≠ .endOfFile then rest else ts,[]⟩

def next : Effect Fault (List Token) ω Token := do
  let token ← peek
  advance
  return token

def matchKind (kind : TokenKind) : Effect Fault (List Token) ω Bool := do
  if (← peekKind) = kind then
    advance
    return true
  else return false

def matchToken (kind : TokenKind) : Effect Fault (List Token) ω (Option Token) := do
  let token ← peek
  if token.kind = kind then
    advance
    return some token
  else return none

-- `++it_` without a look at the token.
def increment : Effect Fault (List Token) ω Unit := fun ts => match ts with
  | [] => .error .readPastTokens
  | _ :: rest => .ok ⟨.ok (),rest,[]⟩

def skipCommentRound (_ : Unit) : Effect Fault (List Token) ω (Unit ⊕ Unit) := do
  let kind ← peekKind
  if kind = .lineComment ∨ kind = .blockComment then
    increment
    return .inl ()
  else return .inr ()

def skipComments : Effect Fault (List Token) ω Unit := do
  iterate .exhausted skipCommentRound ((← get).length + 1) ()

section Run
variable {t ahead : Token} {rest : List Token} {kind : TokenKind}

@[simp] theorem peek_run : (peek : Effect Fault _ ω _) (t :: rest) = .ok ⟨.ok t,t :: rest,[]⟩ := rfl
@[simp] theorem peekKind_run : (peekKind : Effect Fault _ ω _) (t :: rest) = .ok ⟨.ok t.kind,t :: rest,[]⟩ := rfl
@[simp] theorem peekOffset_run : (peekOffset : Effect Fault _ ω _) (t :: rest) = .ok ⟨.ok t.offset,t :: rest,[]⟩ := rfl

theorem peekAhead_run (more : t.kind ≠ .endOfFile) :
    (peekAhead : Effect Fault _ ω _) (t :: ahead :: rest) = .ok ⟨.ok ahead,t :: ahead :: rest,[]⟩ := by
  simp [peekAhead,more]

theorem advance_run (more : t.kind ≠ .endOfFile) : (advance : Effect Fault _ ω _) (t :: rest) = .ok ⟨.ok (),rest,[]⟩ := by
  simp [advance,more]

theorem advance_end (atEnd : t.kind = .endOfFile) :
    (advance : Effect Fault _ ω _) (t :: rest) = .ok ⟨.ok (),t :: rest,[]⟩ := by simp [advance,atEnd]

theorem next_run (more : t.kind ≠ .endOfFile) : (next : Effect Fault _ ω _) (t :: rest) = .ok ⟨.ok t,rest,[]⟩ := by
  simp [next,bind_run,advance_run more]

theorem matchKind_same (same : t.kind = kind) (more : kind ≠ .endOfFile) :
    (matchKind kind : Effect Fault _ ω _) (t :: rest) = .ok ⟨.ok true,rest,[]⟩ := by
  subst same; simp [matchKind,bind_run,advance_run more]

theorem matchKind_other (other : t.kind ≠ kind) :
    (matchKind kind : Effect Fault _ ω _) (t :: rest) = .ok ⟨.ok false,t :: rest,[]⟩ := by
  simp [matchKind,bind_run,other]

theorem matchToken_same (same : t.kind = kind) (more : kind ≠ .endOfFile) :
    (matchToken kind : Effect Fault _ ω _) (t :: rest) = .ok ⟨.ok (some t),rest,[]⟩ := by
  subst same; simp [matchToken,bind_run,advance_run more]

theorem matchToken_other (other : t.kind ≠ kind) :
    (matchToken kind : Effect Fault _ ω _) (t :: rest) = .ok ⟨.ok none,t :: rest,[]⟩ := by
  simp [matchToken,bind_run,other]
end Run
end Cero.TokenCursor
