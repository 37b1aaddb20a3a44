import Cero.ParserPrecedence

namespace Cero.Parser

-- A reading of block bodies that knows no precedence and builds no trees: what it
-- is in front of, and the lists and blocks it is inside of.
inductive Mode where
  | start
  | operand
  | operator
  | returned
  | called
  | angle (first : Token)
  | skipping
  deriving DecidableEq, Repr

inductive Frame where
  | values
  | args
  | nested
  | inner
  deriving DecidableEq, Repr

abbrev Reading := Mode × List Frame

-- The frames from the innermost block on.
def enclosing : List Frame → List Frame
  | .values :: fs | .args :: fs => enclosing fs
  | fs => fs

def closeBlock : List Frame → Reading
  | .nested :: fs => (.operator,fs)
  | fs => (.start,fs.tail)

-- After a syntax error, up to the next `;` or `}`. A `{` on the way is where the
-- reading gives up.
def skip (fs : List Frame) (t : Token) : Option Reading :=
  if t.kind = .lBrace then none
  else if t.kind = .semicolon then some (.start,fs)
  else if t.kind = .rBrace then some (closeBlock fs)
  else some (.skipping,fs)

def fail (fs : List Frame) (t : Token) : Option Reading := skip (enclosing fs) t

-- A complete expression in front of a token that does not go on with it.
def finish : List Frame → Token → Option Reading
  | .values :: fs,t => if t.kind = .comma then some (.operand,.values :: fs) else finish fs t
  | .args :: fs,t =>
    if t.kind = .comma then some (.operand,.args :: fs)
    else if t.kind = .rParen then some (.operator,fs) else fail fs t
  | fs,t => if t.kind = .semicolon then some (.start,fs) else fail fs t

def readOperand (fs : List Frame) (t : Token) : Option Reading := match lookupHeadParseFn t.kind with
  | none => fail fs t
  | some .onIdentifier | some (.onLiteral _) => some (.operator,fs)
  | some .onPrefixLeftBrace => some (.start,.nested :: fs)
  | some .onKwReturn => some (.returned,fs)
  | some (.onPrefixOperator _) => some (.operand,fs)

def readOperator (fs : List Frame) (t : Token) : Option Reading :=
  if t.kind = .rAngle then some (.angle t,fs)
  else match (tailRuleOfKind t.kind).fn with
    | none => finish fs t
    | some (.onBinaryOperator _) => some (.operand,fs)
    | some (.onPostfixOperator _) => some (.operator,fs)
    | some .onInfixLeftParen => some (.called,fs)

def read : Reading → Token → Option Reading
  | (.start,fs),t =>
    if t.kind = .rBrace then some (closeBlock fs)
    else if t.kind = .lBrace then some (.start,.inner :: fs) else readOperand fs t
  | (.operand,fs),t => readOperand fs t
  | (.operator,fs),t => readOperator fs t
  | (.returned,fs),t =>
    if lookupHeadParseFn t.kind = none then readOperator fs t else readOperand (.values :: fs) t
  | (.called,fs),t => if t.kind = .rParen then some (.operator,fs) else readOperand (.args :: fs) t
  | (.angle first,fs),t => if adjacentAngle first t then some (.operand,fs) else readOperand fs t
  | (.skipping,fs),t => skip fs t

def readAll : Reading → List Token → Option Reading
  | s,[] => some s
  | s,t :: ts => (read s t).bind (fun s' => readAll s' ts)

-- No `{` of the body is a token that a statement goes wrong at, or stands between
-- such a token and the next `;` or `}`.
def noBraceSkipped (body : List Token) : Bool := (readAll (.start,[]) body).isSome

def opens (ts : List Token) : Nat := ts.countP (fun t => t.kind == .lBrace)
def closes (ts : List Token) : Nat := ts.countP (fun t => t.kind == .rBrace)

def Under (ts : List Token) : Prop := ∀ n, closes (ts.take n) ≤ opens (ts.take n)

def Balanced (ts : List Token) : Prop := Under ts ∧ opens ts = closes ts

@[simp] theorem opens_append (ts us : List Token) : opens (ts ++ us) = opens ts + opens us := by simp [opens]
@[simp] theorem closes_append (ts us : List Token) : closes (ts ++ us) = closes ts + closes us := by simp [closes]
@[simp] theorem opens_nil : opens [] = 0 := rfl
@[simp] theorem closes_nil : closes [] = 0 := rfl
theorem opens_cons (t : Token) (ts : List Token) : opens (t :: ts) = opens [t] + opens ts := opens_append [t] ts
theorem closes_cons (t : Token) (ts : List Token) : closes (t :: ts) = closes [t] + closes ts := closes_append [t] ts

theorem opens_other {t : Token} (other : t.kind ≠ .lBrace) : opens [t] = 0 := by simp [opens,other]
theorem closes_other {t : Token} (other : t.kind ≠ .rBrace) : closes [t] = 0 := by simp [closes,other]
theorem opens_brace {t : Token} (brace : t.kind = .lBrace) : opens [t] = 1 := by simp [opens,brace]
theorem closes_brace {t : Token} (brace : t.kind = .rBrace) : closes [t] = 1 := by simp [closes,brace]

theorem Under.append {ts us : List Token} (first : Under ts) (second : Under us) : Under (ts ++ us) := by
  intro n
  have left := first n
  have right := second (n - ts.length)
  rw [List.take_append]
  simp only [opens_append,closes_append]; omega

theorem under_nil : Under [] := fun n => by simp

theorem under_one {t : Token} (other : t.kind ≠ .rBrace) : Under [t] := by
  intro n
  cases n with
  | zero => simp
  | succ n => simp [closes_other other]

theorem under_braces {t u : Token} {ts : List Token} (brace : t.kind = .lBrace) (body : Under ts) :
    Under (t :: (ts ++ [u])) := by
  intro n
  cases n with
  | zero => simp
  | succ n =>
    have inside := body n
    have last : closes ([u].take (n - ts.length)) ≤ 1 := by
      have bound := List.countP_le_length (p := fun t : Token => t.kind == .rBrace) (l := [u].take (n - ts.length))
      have short : ([u].take (n - ts.length)).length ≤ 1 := by rw [List.length_take]; exact Nat.min_le_right _ _
      exact Nat.le_trans bound short
    rw [List.take_succ_cons,List.take_append,opens_cons,closes_cons,opens_brace brace,
      closes_other (by rw [brace]; decide)]
    simp only [opens_append,closes_append]; omega

theorem Under.total {ts : List Token} (under : Under ts) : closes ts ≤ opens ts := by
  simpa using under ts.length

def AtEnd (ts : List Token) : Prop := ∃ t rest, ts = t :: rest ∧ t.kind = .endOfFile

-- Every `}` a task uses up closes a block whose `{` it has used up before, the
-- last one of a block apart.
def Nested : Task → List Token → List Token → Prop
  | .block,seg,ts' => (∃ body u, seg = body ++ [u] ∧ u.kind = .rBrace ∧ Under body) ∨ (Under seg ∧ AtEnd ts')
  | _,seg,_ => Under seg

-- The tokens from one cursor to the other, none of which is the end of the file.
def Reaches (P : List Token → Prop) (ts ts' : List Token) : Prop :=
  ∃ seg, ts = seg ++ ts' ∧ (∀ t ∈ seg, t.kind ≠ .endOfFile) ∧ P seg

theorem Reaches.trans {P : List Token → Prop} {ts₁ ts₂ ts₃ : List Token} (first : Reaches Under ts₁ ts₂)
    (second : Reaches P ts₂ ts₃) (join : ∀ u v, Under u → P v → P (u ++ v)) : Reaches P ts₁ ts₃ := by
  obtain ⟨u,rfl,noneU,underU⟩ := first
  obtain ⟨v,rfl,noneV,holdsV⟩ := second
  refine ⟨u ++ v,by simp,fun t member => ?_,join u v underU holdsV⟩
  rcases List.mem_append.mp member with left | right
  · exact noneU t left
  · exact noneV t right

theorem Reaches.under {ts₁ ts₂ ts₃ : List Token} (first : Reaches Under ts₁ ts₂) (second : Reaches Under ts₂ ts₃) :
    Reaches Under ts₁ ts₃ := first.trans second (fun _ _ => Under.append)

theorem Reaches.refl (ts : List Token) : Reaches Under ts ts := ⟨[],rfl,by simp,under_nil⟩

theorem Reaches.one {t : Token} {kind : TokenKind} (same : t.kind = kind) (more : kind ≠ .endOfFile)
    (other : kind ≠ .rBrace) (rest : List Token) : Reaches Under (t :: rest) rest :=
  ⟨[t],rfl,by simpa [same] using more,under_one (same ▸ other)⟩

theorem under_block {u v ts' : List Token} (first : Under u) (second : Nested .block v ts') : Nested .block (u ++ v) ts' := by
  rcases second with ⟨body,c,rfl,close,inside⟩ | ⟨inside,atEnd⟩
  · exact .inl ⟨u ++ body,c,by simp,close,first.append inside⟩
  · exact .inr ⟨first.append inside,atEnd⟩

theorem Reaches.block {ts₁ ts₂ ts₃ : List Token} (first : Reaches Under ts₁ ts₂)
    (second : Reaches (Nested .block · ts₃) ts₂ ts₃) : Reaches (Nested .block · ts₃) ts₁ ts₃ :=
  first.trans second (fun _ _ => under_block)

theorem skip_under {ts ts' : List Token} {atEnd : Bool} (skipped : skipStatement ts = some (atEnd,ts')) :
    Reaches Under ts ts' := by
  induction ts with
  | nil => cases skipped
  | cons t rest ih =>
    rw [skipStatement] at skipped
    split at skipped
    · cases skipped; exact .refl _
    rename_i more
    split at skipped
    · rename_i semicolon
      cases skipped; exact .one semicolon (by decide) (by decide) _
    split at skipped
    · cases skipped; exact .refl _
    · rename_i noClose
      exact (Reaches.one rfl more noClose rest).under (ih skipped)

theorem head_under {t : Token} {fn : HeadParseFunction} (found : lookupHeadParseFn t.kind = some fn)
    (rest : List Token) : Reaches Under (t :: rest) rest := by
  refine .one rfl (head_more found) ?_ rest
  intro same
  rw [same] at found
  cases found

theorem operator_under {ts : List Token} {p : Precedence} {op : BinaryOperator}
    (found : nextTail ts = some ⟨p,some (.onBinaryOperator op)⟩) : Reaches Under ts (ts.drop (operatorWidth op)) := by
  obtain ⟨_,⟨t,rest,rfl,_,notShr,_,rule⟩ | ⟨t,u,rest,rfl,angle,rfl,_⟩ | ⟨t,u,rest,rfl,angle,rfl,adjacent⟩⟩ :=
    nextTail_binary found
  · have more : t.kind ≠ .endOfFile := fun same => by rw [same] at rule; cases rule
    have noClose : t.kind ≠ .rBrace := fun same => by rw [same] at rule; cases rule
    simpa [operatorWidth,notShr] using Reaches.one rfl more noClose rest
  · simpa [operatorWidth] using Reaches.one angle (by decide) (by decide) (u :: rest)
  · simp only [adjacentAngle,Bool.and_eq_true,decide_eq_true_eq] at adjacent
    exact (Reaches.one angle (by decide) (by decide) (u :: rest)).under
      (.one adjacent.1 (by decide) (by decide) rest)

theorem postfix_under {t : Token} {rest : List Token} {p : Precedence} {op : UnaryOperator}
    (found : nextTail (t :: rest) = some ⟨p,some (.onPostfixOperator op)⟩) : Reaches Under (t :: rest) rest := by
  refine .one rfl (postfix_more found) ?_ rest
  intro same
  have rule := (nextTail_postfixed found).2
  rw [same] at rule
  cases rule

theorem runs_nested {task : Task} {ts ts' : List Token} {r : Reply Form} {log : List Expected}
    (run : Runs task ts r ts' log) : Reaches (Nested task · ts') ts ts' := by
  induction run with
  | @blockClose t rest close =>
    exact ⟨[t],rfl,by simp [close],.inl ⟨[],t,rfl,close,under_nil⟩⟩
  | blockNext inside first others ih₁ ih₂ => exact ih₁.block ih₂
  | blockRecover inside first skipped others ih₁ ih₂ => exact (ih₁.under (skip_under skipped)).block ih₂
  | blockEnd inside first skipped ih =>
    obtain ⟨seg,same,none,under⟩ := ih.under (skip_under skipped)
    exact ⟨seg,same,none,.inr ⟨under,skip_end skipped⟩⟩
  | statementBlock brace run ih => exact ih
  | statementClosed noBrace run semicolon ih => exact ih.under (.one semicolon (by decide) (by decide) _)
  | statementOpen noBrace run other ih => exact ih
  | statementThrown noBrace run ih => exact ih
  | noHead none => exact .refl _
  | headThrown run ih => exact ih
  | headTails run tails ih₁ ih₂ => exact ih₁.under ih₂
  | tailsStop stops => exact .refl _
  | tailsThrown attaches run ih => exact ih
  | tailsNext attaches run tails ih₁ ih₂ => exact ih₁.under ih₂
  | identifier kind => exact .one kind (by decide) (by decide) _
  | literal found => exact head_under found _
  | @brace t rest ts₁ es log kind run ih =>
    obtain ⟨seg,rfl,none,⟨body,u,rfl,close,inside⟩ | ⟨inside,atEnd⟩⟩ := ih
    · exact ⟨t :: (body ++ [u]),rfl,by simpa [kind] using none,under_braces kind inside⟩
    · exact ⟨t :: seg,rfl,by simpa [kind] using none,(under_one (by rw [kind]; decide)).append inside⟩
  | returnBare kind none => exact .one kind (by decide) (by decide) _
  | returnValues kind some run ih | returnThrown kind some run ih =>
    exact (Reaches.one kind (by decide) (by decide) _).under ih
  | prefixed found run ih | prefixThrown found run ih => exact (head_under found _).under ih
  | binary found run ih | binaryThrown found run ih => exact (operator_under found).under ih
  | postfixed found => exact postfix_under found
  | callEmpty kind close =>
    exact (Reaches.one kind (by decide) (by decide) _).under (.one close (by decide) (by decide) _)
  | callClosed kind argument run close ih =>
    exact (Reaches.one kind (by decide) (by decide) _).under (ih.under (.one close (by decide) (by decide) _))
  | callOpen kind argument run other ih | callThrown kind argument run ih =>
    exact (Reaches.one kind (by decide) (by decide) _).under ih
  | valuesLast run last ih => exact ih
  | valuesNext run comma others ih₁ ih₂ | valuesNextThrown run comma others ih₁ ih₂ =>
    exact ih₁.under ((Reaches.one comma (by decide) (by decide) _).under ih₂)
  | valuesThrown run ih => exact ih

-- In front of these tokens the readings go on alike.
def Agrees (s s' : Reading) (ts : List Token) : Prop :=
  ∀ t rest, ts = t :: rest → t.kind ≠ .endOfFile → read s t = read s' t

-- The reading comes to `goal` with all braces paired but for `extra` closing ones,
-- or it gives up, and then at least one `{` is left over.
def Arrives (s : Reading) (seg : List Token) (goal : Reading) (ts' : List Token) (extra : Nat) : Prop :=
  (∃ s', readAll s seg = some s' ∧ Agrees s' goal ts' ∧ (closes seg = opens seg + extra ∨ AtEnd ts')) ∨
  (readAll s seg = none ∧ closes seg + 1 ≤ opens seg + extra)

def Steps (e goal : Reading) (extra : Nat) (ts ts' : List Token) : Prop :=
  ∃ seg, ts = seg ++ ts' ∧ (∀ t ∈ seg, t.kind ≠ .endOfFile) ∧ closes seg ≤ opens seg + extra ∧
    ∀ s, Agrees s e ts → Arrives s seg goal ts' extra

theorem readAll_append (s : Reading) (u v : List Token) :
    readAll s (u ++ v) = (readAll s u).bind (fun s' => readAll s' v) := by
  induction u generalizing s with
  | nil => rfl
  | cons t u ih =>
    simp only [List.cons_append,readAll]
    cases read s t with
    | none => rfl
    | some s' => exact ih s'

theorem Agrees.trans {s₁ s₂ s₃ : Reading} {ts : List Token} (first : Agrees s₁ s₂ ts) (second : Agrees s₂ s₃ ts) :
    Agrees s₁ s₃ ts := fun t rest same more => (first t rest same more).trans (second t rest same more)

theorem agrees_token {s s' : Reading} {t : Token} (same : read s t = read s' t) (rest : List Token) :
    Agrees s s' (t :: rest) := by
  rintro _ _ ⟨⟩ _
  exact same

theorem agrees_end {ts : List Token} (atEnd : AtEnd ts) (s s' : Reading) : Agrees s s' ts := by
  obtain ⟨t,rest,rfl,kind⟩ := atEnd
  rintro _ _ ⟨⟩ more
  exact absurd kind more

theorem Steps.trans {e mid goal : Reading} {n : Nat} {ts₁ ts₂ ts₃ : List Token} (first : Steps e mid 0 ts₁ ts₂)
    (second : Steps mid goal n ts₂ ts₃) : Steps e goal n ts₁ ts₃ := by
  obtain ⟨u,rfl,noneU,boundU,readU⟩ := first
  obtain ⟨v,rfl,noneV,boundV,readV⟩ := second
  refine ⟨u ++ v,by simp,fun t member => ?_,by simp only [opens_append,closes_append]; omega,fun s agrees => ?_⟩
  · rcases List.mem_append.mp member with left | right
    · exact noneU t left
    · exact noneV t right
  unfold Arrives
  rw [readAll_append]
  rcases readU s agrees with ⟨s₁,reached,onward,even⟩ | ⟨gave,left⟩
  · rw [reached,Option.bind_some]
    rcases readV s₁ onward with ⟨s₂,reached₂,onward₂,even₂⟩ | ⟨gave,left⟩
    · refine .inl ⟨s₂,reached₂,onward₂,?_⟩
      rcases even with even | ⟨t,rest,front,atEnd⟩
      · rcases even₂ with even₂ | atEnd
        · exact .inl (by simp only [opens_append,closes_append]; omega)
        · exact .inr atEnd
      · cases v with
        | nil => exact .inr ⟨t,rest,front,atEnd⟩
        | cons w v =>
          simp only [List.cons_append,List.cons.injEq] at front
          exact absurd (front.1 ▸ atEnd) (noneV w List.mem_cons_self)
    · have more : closes u ≤ opens u := by omega
      exact .inr ⟨gave,by simp only [opens_append,closes_append]; omega⟩
  · rw [gave,Option.bind_none]
    exact .inr ⟨rfl,by simp only [opens_append,closes_append]; omega⟩

theorem Steps.refl {e goal : Reading} {ts : List Token} (agrees : Agrees e goal ts) : Steps e goal 0 ts ts :=
  ⟨[],rfl,by simp,by simp,fun s entered => .inl ⟨s,rfl,entered.trans agrees,.inl rfl⟩⟩

theorem Steps.goal {e goal goal' : Reading} {n : Nat} {ts ts' : List Token} (steps : Steps e goal n ts ts')
    (agrees : Agrees goal goal' ts') : Steps e goal' n ts ts' := by
  obtain ⟨seg,whole,none,bound,reads⟩ := steps
  refine ⟨seg,whole,none,bound,fun s entered => ?_⟩
  rcases reads s entered with ⟨s',reached,onward,even⟩ | gave
  · exact .inl ⟨s',reached,onward.trans agrees,even⟩
  · exact .inr gave

theorem Steps.entry {e e' goal : Reading} {n : Nat} {ts ts' : List Token} (agrees : Agrees e e' ts)
    (steps : Steps e' goal n ts ts') : Steps e goal n ts ts' := by
  obtain ⟨seg,whole,none,bound,reads⟩ := steps
  exact ⟨seg,whole,none,bound,fun s entered => reads s (entered.trans agrees)⟩

theorem Steps.token {e goal : Reading} {t : Token} {kind : TokenKind} (same : t.kind = kind) (more : kind ≠ .endOfFile)
    (noOpen : kind ≠ .lBrace) (noClose : kind ≠ .rBrace) (reads : read e t = some goal) (rest : List Token) :
    Steps e goal 0 (t :: rest) rest := by
  subst same
  refine ⟨[t],rfl,by simpa using more,by simp [closes_other noClose],fun s entered => .inl ⟨goal,?_,?_,.inl ?_⟩⟩
  · simp [readAll,entered t rest rfl more,reads]
  · exact fun _ _ _ _ => rfl
  · rw [closes_other noClose,opens_other noOpen]

theorem Steps.close {e goal : Reading} {t : Token} (same : t.kind = .rBrace) (reads : read e t = some goal)
    (rest : List Token) : Steps e goal 1 (t :: rest) rest := by
  refine ⟨[t],rfl,by simp [same],by simp [closes_brace same],fun s entered => .inl ⟨goal,?_,?_,.inl ?_⟩⟩
  · simp [readAll,entered t rest rfl (by rw [same]; decide),reads]
  · exact fun _ _ _ _ => rfl
  · rw [closes_brace same,opens_other (by rw [same]; decide)]

-- A `{` makes up for the one closing brace by which a block goes beyond.
theorem Steps.braced {e mid goal : Reading} {t : Token} {rest ts' : List Token} (same : t.kind = .lBrace)
    (reads : read e t = some mid) (body : Steps mid goal 1 rest ts') : Steps e goal 0 (t :: rest) ts' := by
  obtain ⟨seg,rfl,none,bound,inside⟩ := body
  have opened := opens_brace same
  have noClose := closes_other (t := t) (by rw [same]; decide)
  refine ⟨t :: seg,rfl,by simpa [same] using none,by rw [opens_cons,closes_cons]; omega,fun s entered => ?_⟩
  have entered' : read s t = some mid := (entered t _ rfl (by rw [same]; decide)).trans reads
  unfold Arrives
  rw [readAll,entered',Option.bind_some,opens_cons,closes_cons]
  rcases inside mid (fun _ _ _ _ => rfl) with ⟨s',reached,onward,even | atEnd⟩ | ⟨gave,left⟩
  · exact .inl ⟨s',reached,onward,.inl (by omega)⟩
  · exact .inl ⟨s',reached,onward,.inr atEnd⟩
  · exact .inr ⟨gave,by omega⟩

theorem Steps.atEnd {e goal goal' : Reading} {ts ts' : List Token} (steps : Steps e goal 0 ts ts')
    (atEnd : AtEnd ts') : Steps e goal' 1 ts ts' := by
  obtain ⟨seg,whole,none,bound,reads⟩ := steps
  refine ⟨seg,whole,none,by omega,fun s entered => ?_⟩
  rcases reads s entered with ⟨s',reached,_⟩ | ⟨gave,left⟩
  · exact .inl ⟨s',reached,agrees_end atEnd _ _,.inr atEnd⟩
  · exact .inr ⟨gave,by omega⟩

theorem skip_steps {fs : List Frame} {ts ts' : List Token} {atEnd : Bool} (skipped : skipStatement ts = some (atEnd,ts')) :
    Steps (.skipping,fs) (.start,fs) 0 ts ts' := by
  induction ts with
  | nil => cases skipped
  | cons t rest ih =>
    rw [skipStatement] at skipped
    split at skipped
    · rename_i finished
      cases skipped
      exact .refl (agrees_end ⟨t,rest,rfl,finished⟩ _ _)
    rename_i more
    split at skipped
    · rename_i semicolon
      cases skipped
      exact .token semicolon (by decide) (by decide) (by decide) (by simp [read,skip,semicolon]) _
    split at skipped
    · rename_i close
      cases skipped
      exact .refl (agrees_token (by simp [read,skip,close]) rest)
    · rename_i noSemicolon noClose
      by_cases brace : t.kind = .lBrace
      · obtain ⟨seg,rfl,noEnd,bound,_⟩ := ih skipped
        have opened := opens_brace brace
        have closed := closes_other noClose
        refine ⟨t :: seg,rfl,?_,by rw [opens_cons,closes_cons]; omega,fun s entered => .inr ⟨?_,?_⟩⟩
        · simpa [brace] using noEnd
        · have gave : read s t = none := (entered t _ rfl more).trans (by simp [read,skip,brace])
          rw [readAll,gave,Option.bind_none]
        · rw [opens_cons,closes_cons]; omega
      · exact (Steps.token rfl more brace noClose (by simp [read,skip,brace,noSemicolon,noClose]) rest).trans (ih skipped)

-- Where a task is entered in a reading, and where the reading is when it returned.
def Way : Task → List Token → Reading → Reading → Prop
  | .block,_,e,goal => ∃ fs, enclosing fs = fs ∧ e = (.start,fs) ∧ goal = closeBlock fs
  | .statement,ts,e,goal => ∃ fs t rest, enclosing fs = fs ∧ e = (.start,fs) ∧ goal = (.start,fs) ∧
      ts = t :: rest ∧ t.kind ≠ .rBrace
  | .head,ts,e,goal => (∃ fs, e = (.operand,fs) ∧ goal = (.operator,fs)) ∨
      ∃ fs t rest, e = (.start,fs) ∧ goal = (.start,fs) ∧ ts = t :: rest ∧ t.kind = .lBrace
  | .expression _,_,e,goal => ∃ fs, e = (.operand,fs) ∧ goal = (.operator,fs)
  | .tails _ _,_,e,goal | .tail _,_,e,goal => ∃ fs, e = (.operator,fs) ∧ goal = (.operator,fs)
  | .values,_,e,goal => ∃ fs, (e = (.operand,.values :: fs) ∧ goal = (.operator,.values :: fs)) ∨
      (e = (.operand,.args :: fs) ∧ goal = (.operator,.args :: fs))

def afterReply : Reply Form → Reading → Reading → Reading
  | .ok _,_,goal => goal
  | .thrown,e,_ => (.skipping,enclosing e.2)

@[simp] theorem afterReply_ok (f : Form) (e goal : Reading) : afterReply (.ok f) e goal = goal := rfl
@[simp] theorem afterReply_thrown (e goal : Reading) : afterReply .thrown e goal = (.skipping,enclosing e.2) := rfl

def extra : Task → Nat
  | .block => 1
  | _ => 0

theorem stops_finish {t : Token} {rest : List Token} (stops : Stops .statement (t :: rest))
    (fs : List Frame) : readOperator fs t = finish fs t := by
  obtain ⟨rule,found,loose⟩ := stops
  obtain ⟨_,_,⟨⟩,⟨plain,rfl⟩ | ⟨_,_,_,_,⟨_,rfl⟩ | ⟨_,rfl⟩⟩⟩ := nextTail_cases found
  · have none : (tailRuleOfKind t.kind).fn = none := by
      revert loose
      cases t.kind <;> intro loose <;> first | rfl | exact absurd (by decide) loose
    simp [readOperator,plain,none]
  all_goals exact absurd (by decide) loose

theorem finish_block {fs : List Frame} (level : enclosing fs = fs) (t : Token) :
    finish fs t = if t.kind = .semicolon then some (.start,fs) else skip fs t := by
  have shorter : ∀ fs, (enclosing fs).length ≤ fs.length := by
    intro fs
    induction fs with
    | nil => exact Nat.le_refl _
    | cons f fs ih => cases f <;> simp only [enclosing,List.length_cons] at * <;> omega
  cases fs with
  | nil => rfl
  | cons f fs =>
    cases f with
    | values | args =>
      have bound := shorter fs
      rw [enclosing] at level
      rw [level,List.length_cons] at bound
      omega
    | nested | inner => rfl

theorem literal_kind {kind : TokenKind} {literalKind : LiteralKind}
    (found : lookupHeadParseFn kind = some (.onLiteral literalKind)) :
    kind ≠ .endOfFile ∧ kind ≠ .lBrace ∧ kind ≠ .rBrace := by
  revert found
  cases kind <;> intro found <;> cases found <;> exact ⟨by decide,by decide,by decide⟩

theorem operator_steps {ts : List Token} {p : Precedence} {op : BinaryOperator}
    (found : nextTail ts = some ⟨p,some (.onBinaryOperator op)⟩) (fs : List Frame) :
    Steps (.operator,fs) (.operand,fs) 0 ts (ts.drop (operatorWidth op)) := by
  obtain ⟨_,⟨t,rest,rfl,angle,notShr,_,rule⟩ | ⟨t,u,rest,rfl,angle,rfl,apart⟩ | ⟨t,u,rest,rfl,angle,rfl,adjacent⟩⟩ :=
    nextTail_binary found
  · have more : t.kind ≠ .endOfFile := fun same => by rw [same] at rule; cases rule
    have noOpen : t.kind ≠ .lBrace := fun same => by rw [same] at rule; cases rule
    have noClose : t.kind ≠ .rBrace := fun same => by rw [same] at rule; cases rule
    have reads : read (.operator,fs) t = some (.operand,fs) := by simp [read,readOperator,angle,rule]
    simpa [operatorWidth,notShr] using Steps.token rfl more noOpen noClose reads rest
  · have reads : read (.operator,fs) t = some (.angle t,fs) := by simp [read,readOperator,angle]
    have first := Steps.token angle (by decide) (by decide) (by decide) reads (u :: rest)
    simpa [operatorWidth] using first.goal (agrees_token (by simp [read,apart]) rest)
  · have reads : read (.operator,fs) t = some (.angle t,fs) := by simp [read,readOperator,angle]
    have reads' : read (.angle t,fs) u = some (.operand,fs) := by simp [read,adjacent]
    simp only [adjacentAngle,Bool.and_eq_true,decide_eq_true_eq] at adjacent
    have first := Steps.token angle (by decide) (by decide) (by decide) reads (u :: rest)
    exact first.trans (.token adjacent.1 (by decide) (by decide) (by decide) reads' rest)

-- A list of values is over in front of a token that no expression goes on with.
theorem values_end {ts ts' : List Token} {es : List AstExpression} {log : List Expected}
    (run : Runs .values ts (.ok (.list es)) ts' log) :
    ∃ u rest, ts' = u :: rest ∧ u.kind ≠ .comma ∧ Stops .statement (u :: rest) := by
  generalize isValues : Task.values = task at run
  generalize returned : Reply.ok (Form.list es) = r at run
  induction run generalizing es with
  | valuesLast run last => exact ⟨_,_,rfl,last,(runs_bind run).2.2⟩
  | valuesNext run comma others ih₁ ih₂ => exact ih₂ rfl rfl
  | _ => first | (cases returned; done) | cases isValues

theorem return_steps {t u : Token} {rest : List Token} (kind : t.kind = .kwReturn)
    (value : lookupHeadParseFn u.kind ≠ none) (fs : List Frame) :
    Steps (.operand,fs) (.operand,.values :: fs) 0 (t :: u :: rest) (u :: rest) := by
  have reads : read (.operand,fs) t = some (.returned,fs) := by simp [read,readOperand,kind,lookupHeadParseFn]
  have first := Steps.token kind (by decide) (by decide) (by decide) reads (u :: rest)
  exact first.goal (agrees_token (by simp [read,value]) rest)

theorem prefix_steps {t : Token} {rest : List Token} {op : UnaryOperator}
    (found : lookupHeadParseFn t.kind = some (.onPrefixOperator op)) (fs : List Frame) :
    Steps (.operand,fs) (.operand,fs) 0 (t :: rest) rest := by
  have noOpen : t.kind ≠ .lBrace := fun same => by rw [same] at found; cases found
  have noClose : t.kind ≠ .rBrace := fun same => by rw [same] at found; cases found
  exact .token rfl (head_more found) noOpen noClose (by simp [read,readOperand,found]) rest

theorem paren_steps {t : Token} (kind : t.kind = .lParen) (fs : List Frame) (rest : List Token) :
    Steps (.operator,fs) (.called,fs) 0 (t :: rest) rest :=
  .token kind (by decide) (by decide) (by decide) (by simp [read,readOperator,kind,tailRuleOfKind]) rest

theorem called_agrees {u : Token} (argument : u.kind ≠ .rParen) (fs : List Frame) (rest : List Token) :
    Agrees (.called,fs) (.operand,.args :: fs) (u :: rest) := agrees_token (by simp [read,argument]) rest

theorem comma_steps {t : Token} {f : Frame} (kind : t.kind = .comma) (list : f = .values ∨ f = .args) (fs : List Frame)
    (rest : List Token) : Steps (.operator,f :: fs) (.operand,f :: fs) 0 (t :: rest) rest := by
  refine .token kind (by decide) (by decide) (by decide) ?_ rest
  rcases list with rfl | rfl <;> simp [read,readOperator,kind,tailRuleOfKind,finish]

theorem runs_read {task : Task} {ts ts' : List Token} {r : Reply Form} {log : List Expected}
    (run : Runs task ts r ts' log) :
    ∀ e goal, Way task ts e goal → Steps e (afterReply r e goal) (extra task) ts ts' := by
  induction run with
  | @blockClose t rest close =>
    rintro _ _ ⟨fs,level,rfl,rfl⟩
    exact .close close (by simp [read,close]) rest
  | blockNext inside first others ih₁ ih₂ =>
    rintro _ _ ⟨fs,level,rfl,rfl⟩
    exact (ih₁ _ _ ⟨fs,_,_,level,rfl,rfl,rfl,inside⟩).trans (ih₂ _ _ ⟨fs,level,rfl,rfl⟩)
  | blockRecover inside first skipped others ih₁ ih₂ =>
    rintro _ _ ⟨fs,level,rfl,rfl⟩
    have thrown := ih₁ _ _ ⟨fs,_,_,level,rfl,rfl,rfl,inside⟩
    rw [afterReply,level] at thrown
    exact (thrown.trans (skip_steps skipped)).trans (ih₂ _ _ ⟨fs,level,rfl,rfl⟩)
  | blockEnd inside first skipped ih =>
    rintro _ _ ⟨fs,level,rfl,rfl⟩
    have thrown := ih _ _ ⟨fs,_,_,level,rfl,rfl,rfl,inside⟩
    rw [afterReply,level] at thrown
    exact (thrown.trans (skip_steps skipped)).atEnd (skip_end skipped)
  | @statementBlock t rest ts₁ r log brace run ih =>
    rintro _ _ ⟨fs,_,_,level,rfl,rfl,⟨⟩,inside⟩
    exact ih _ _ (.inr ⟨fs,_,_,rfl,rfl,rfl,brace⟩)
  | @statementClosed t u rest ts₁ e log noBrace run semicolon ih =>
    rintro _ _ ⟨fs,_,_,level,rfl,rfl,⟨⟩,inside⟩
    have entry : Agrees (.start,fs) (.operand,fs) (t :: rest) := agrees_token (by simp [read,noBrace,inside]) rest
    refine ((ih _ _ ⟨fs,rfl,rfl⟩).entry entry).trans (.token semicolon (by decide) (by decide) (by decide) ?_ ts₁)
    simp [read,readOperator,semicolon,tailRuleOfKind,finish_block level]
  | @statementOpen t u rest ts₁ e log noBrace run other ih =>
    rintro _ _ ⟨fs,_,_,level,rfl,rfl,⟨⟩,inside⟩
    have entry : Agrees (.start,fs) (.operand,fs) (t :: rest) := agrees_token (by simp [read,noBrace,inside]) rest
    refine ((ih _ _ ⟨fs,rfl,rfl⟩).entry entry).goal (agrees_token ?_ ts₁)
    simp [read,stops_finish (runs_bind run).2.2 fs,finish_block level,other,level]
  | @statementThrown t rest ts₁ log noBrace run ih =>
    rintro _ _ ⟨fs,_,_,level,rfl,rfl,⟨⟩,inside⟩
    have entry : Agrees (.start,fs) (.operand,fs) (t :: rest) := agrees_token (by simp [read,noBrace,inside]) rest
    exact (ih _ _ ⟨fs,rfl,rfl⟩).entry entry
  | @noHead t rest p none =>
    rintro _ _ ⟨fs,rfl,rfl⟩
    exact .refl (agrees_token (by simp [read,readOperand,none,fail]) rest)
  | headThrown run ih =>
    rintro _ _ ⟨fs,rfl,rfl⟩
    exact ih _ _ (.inl ⟨fs,rfl,rfl⟩)
  | @headTails ts ts₁ ts₂ p e r log₁ log₂ run tails ih₁ ih₂ =>
    rintro _ _ ⟨fs,rfl,rfl⟩
    have second := ih₂ _ _ ⟨fs,rfl,rfl⟩
    have whole := (ih₁ _ _ (.inl ⟨fs,rfl,rfl⟩)).trans second
    cases r <;> exact whole
  | tailsStop stops =>
    rintro _ _ ⟨fs,rfl,rfl⟩
    exact .refl (fun _ _ _ _ => rfl)
  | tailsThrown attaches run ih =>
    rintro _ _ ⟨fs,rfl,rfl⟩
    exact ih _ _ ⟨fs,rfl,rfl⟩
  | tailsNext attaches run tails ih₁ ih₂ =>
    rintro _ _ ⟨fs,rfl,rfl⟩
    exact (ih₁ _ _ ⟨fs,rfl,rfl⟩).trans (ih₂ _ _ ⟨fs,rfl,rfl⟩)
  | @identifier t rest kind =>
    rintro _ _ (⟨fs,rfl,rfl⟩ | ⟨fs,_,_,rfl,rfl,⟨⟩,brace⟩)
    · exact .token kind (by decide) (by decide) (by decide) (by simp [read,readOperand,kind,lookupHeadParseFn]) rest
    · rw [kind] at brace; cases brace
  | @literal t rest literalKind found =>
    rintro _ _ (⟨fs,rfl,rfl⟩ | ⟨fs,_,_,rfl,rfl,⟨⟩,brace⟩)
    · have kind := literal_kind found
      exact .token rfl kind.1 kind.2.1 kind.2.2 (by simp [read,readOperand,found]) rest
    · rw [brace] at found; cases found
  | @brace t rest ts₁ es log kind run ih =>
    rintro _ _ (⟨fs,rfl,rfl⟩ | ⟨fs,_,_,rfl,rfl,⟨⟩,_⟩)
    · exact .braced kind (by simp [read,readOperand,kind,lookupHeadParseFn]) (ih _ _ ⟨.nested :: fs,rfl,rfl,rfl⟩)
    · exact .braced kind (by simp [read,kind]) (ih _ _ ⟨.inner :: fs,rfl,rfl,rfl⟩)
  | @returnBare t u rest kind none =>
    rintro _ _ (⟨fs,rfl,rfl⟩ | ⟨fs,_,_,rfl,rfl,⟨⟩,brace⟩)
    · have reads : read (.operand,fs) t = some (.returned,fs) := by simp [read,readOperand,kind,lookupHeadParseFn]
      have first := Steps.token kind (by decide) (by decide) (by decide) reads (u :: rest)
      exact first.goal (agrees_token (by simp [read,none]) rest)
    · rw [kind] at brace; cases brace
  | @returnValues t u rest ts₁ es log kind some run ih =>
    rintro _ _ (⟨fs,rfl,rfl⟩ | ⟨fs,_,_,rfl,rfl,⟨⟩,brace⟩)
    · obtain ⟨v,rest₁,rfl,noComma,ended⟩ := values_end run
      have crossed : Agrees (.operator,.values :: fs) (.operator,fs) (v :: rest₁) :=
        agrees_token (by simp [read,stops_finish ended,finish,noComma]) rest₁
      exact (return_steps kind some fs).trans ((ih _ _ ⟨fs,.inl ⟨rfl,rfl⟩⟩).goal crossed)
    · rw [kind] at brace; cases brace
  | @returnThrown t u rest ts₁ log kind some run ih =>
    rintro _ _ (⟨fs,rfl,rfl⟩ | ⟨fs,_,_,rfl,rfl,⟨⟩,brace⟩)
    · exact (return_steps kind some fs).trans (ih _ _ ⟨fs,.inl ⟨rfl,rfl⟩⟩)
    · rw [kind] at brace; cases brace
  | @prefixed t rest ts₁ op e log found run ih =>
    rintro _ _ (⟨fs,rfl,rfl⟩ | ⟨fs,_,_,rfl,rfl,⟨⟩,brace⟩)
    · exact (prefix_steps found fs).trans (ih _ _ ⟨fs,rfl,rfl⟩)
    · rw [brace] at found; cases found
  | @prefixThrown t rest ts₁ op log found run ih =>
    rintro _ _ (⟨fs,rfl,rfl⟩ | ⟨fs,_,_,rfl,rfl,⟨⟩,brace⟩)
    · exact (prefix_steps found fs).trans (ih _ _ ⟨fs,rfl,rfl⟩)
    · rw [brace] at found; cases found
  | binary found run ih | binaryThrown found run ih =>
    rintro _ _ ⟨fs,rfl,rfl⟩
    exact (operator_steps found fs).trans (ih _ _ ⟨fs,rfl,rfl⟩)
  | @postfixed t rest p op left found =>
    rintro _ _ ⟨fs,rfl,rfl⟩
    have rule := (nextTail_postfixed found).2
    have angle : t.kind ≠ .rAngle := fun same => by rw [same] at rule; cases rule
    have noOpen : t.kind ≠ .lBrace := fun same => by rw [same] at rule; cases rule
    have noClose : t.kind ≠ .rBrace := fun same => by rw [same] at rule; cases rule
    exact .token rfl (postfix_more found) noOpen noClose (by simp [read,readOperator,angle,rule]) rest
  | @callEmpty t u rest left kind close =>
    rintro _ _ ⟨fs,rfl,rfl⟩
    exact (paren_steps kind fs (u :: rest)).trans
      (.token close (by decide) (by decide) (by decide) (by simp [read,close]) rest)
  | @callClosed t u v rest ts₁ left es log kind argument run close ih =>
    rintro _ _ ⟨fs,rfl,rfl⟩
    obtain ⟨_,_,⟨⟩,noComma,ended⟩ := values_end run
    have inside := (ih _ _ ⟨fs,.inr ⟨rfl,rfl⟩⟩).entry (called_agrees argument fs rest)
    refine ((paren_steps kind fs (u :: rest)).trans inside).trans (.token close (by decide) (by decide) (by decide) ?_ ts₁)
    simp [read,stops_finish ended,finish,close]
  | @callOpen t u v rest ts₁ left es log kind argument run other ih =>
    rintro _ _ ⟨fs,rfl,rfl⟩
    obtain ⟨_,_,⟨⟩,noComma,ended⟩ := values_end run
    have inside := (ih _ _ ⟨fs,.inr ⟨rfl,rfl⟩⟩).entry (called_agrees argument fs rest)
    refine ((paren_steps kind fs (u :: rest)).trans inside).goal (agrees_token ?_ ts₁)
    simp [read,stops_finish ended,finish,noComma,other,fail]
  | @callThrown t u rest ts₁ left log kind argument run ih =>
    rintro _ _ ⟨fs,rfl,rfl⟩
    have inside := (ih _ _ ⟨fs,.inr ⟨rfl,rfl⟩⟩).entry (called_agrees argument fs rest)
    exact (paren_steps kind fs (u :: rest)).trans inside
  | valuesLast run last ih =>
    rintro _ _ ⟨fs,⟨rfl,rfl⟩ | ⟨rfl,rfl⟩⟩
    · exact ih _ _ ⟨_,rfl,rfl⟩
    · exact ih _ _ ⟨_,rfl,rfl⟩
  | valuesNext run comma others ih₁ ih₂ | valuesNextThrown run comma others ih₁ ih₂ =>
    rintro _ _ ⟨fs,⟨rfl,rfl⟩ | ⟨rfl,rfl⟩⟩
    · exact ((ih₁ _ _ ⟨_,rfl,rfl⟩).trans (comma_steps comma (.inl rfl) fs _)).trans (ih₂ _ _ ⟨fs,.inl ⟨rfl,rfl⟩⟩)
    · exact ((ih₁ _ _ ⟨_,rfl,rfl⟩).trans (comma_steps comma (.inr rfl) fs _)).trans (ih₂ _ _ ⟨fs,.inr ⟨rfl,rfl⟩⟩)
  | valuesThrown run ih =>
    rintro _ _ ⟨fs,⟨rfl,rfl⟩ | ⟨rfl,rfl⟩⟩
    · exact ih _ _ ⟨_,rfl,rfl⟩
    · exact ih _ _ ⟨_,rfl,rfl⟩

section Body
variable {B K seg ts' : List Token} {close : Token} (noEnd : ∀ t ∈ B, t.kind ≠ .endOfFile) (balanced : Balanced B)
  (isClose : close.kind = .rBrace)
include balanced isClose

theorem body_closes : closes (B ++ [close]) = opens (B ++ [close]) + 1 := by
  have even := balanced.2
  simp only [opens_append,closes_append,closes_brace isClose,opens_other (show close.kind ≠ .lBrace by rw [isClose]; decide)]
  omega

theorem body_not_under {w : List Token} : ¬ Under (B ++ [close] ++ w) := by
  intro under
  have prefixed := under (B ++ [close]).length
  rw [List.take_left] at prefixed
  have left := body_closes balanced isClose
  omega

include noEnd

omit balanced in
theorem body_more {w rest : List Token} (part : ∃ u, B ++ [close] = u ++ w) (some : w ≠ []) : ¬ AtEnd (w ++ rest) := by
  rintro ⟨t,rest',front,atEnd⟩
  obtain ⟨u,whole⟩ := part
  cases w with
  | nil => exact some rfl
  | cons v w =>
    simp only [List.cons_append,List.cons.injEq] at front
    have member : v ∈ B ++ [close] := by rw [whole]; simp
    rcases List.mem_append.mp member with inside | last
    · exact noEnd v inside (front.1 ▸ atEnd)
    · rw [List.mem_singleton.mp last] at front
      rw [← front.1,isClose] at atEnd
      cases atEnd

-- A block never goes beyond the brace that closes a balanced body.
omit noEnd in
theorem body_span (whole : B ++ close :: K = seg ++ ts') (nested : Nested .block seg ts') :
    ∃ w, B ++ [close] = seg ++ w ∧ ts' = w ++ K := by
  have split : (B ++ [close]) ++ K = seg ++ ts' := by simpa using whole
  rcases List.append_eq_append_iff.mp split with ⟨w,longer,tail⟩ | ⟨w,shorter,tail⟩
  swap
  · exact ⟨w,shorter,tail⟩
  rcases nested with ⟨body,u,same,_,under⟩ | ⟨under,_⟩
  · rcases List.eq_nil_or_concat w with rfl | ⟨front,last,rfl⟩
    · exact ⟨[],by simpa using longer.symm,by simpa using tail.symm⟩
    · rw [longer,List.concat_eq_append,← List.append_assoc] at same
      obtain ⟨rfl,_⟩ := List.append_inj' same rfl
      exact absurd under (body_not_under balanced isClose)
  · rw [longer] at under
    exact absurd under (body_not_under balanced isClose)

theorem body_exact {es : List AstExpression} {log : List Expected}
    (run : Runs .block (B ++ close :: K) (.ok (.list es)) ts' log) : ts' = K ↔ noBraceSkipped B = true := by
  obtain ⟨seg,whole,_,nested⟩ := runs_nested run
  obtain ⟨w,split,rfl⟩ := body_span balanced isClose whole nested
  obtain ⟨seg',whole',_,_,reads⟩ := runs_read run (.start,[]) _ ⟨[],rfl,rfl,rfl⟩
  obtain rfl : seg' = seg := List.append_cancel_right (whole'.symm.trans whole)
  have arrives := reads _ (fun _ _ _ _ => rfl)
  constructor
  · intro same
    have empty : w = [] := by simpa using same
    subst empty
    rw [List.append_nil] at split
    subst split
    rcases arrives with ⟨s',reached,_⟩ | ⟨_,left⟩
    · rw [readAll_append] at reached
      obtain ⟨s₁,inside,_⟩ := Option.bind_eq_some_iff.mp reached
      simp [noBraceSkipped,inside]
    · have crossed := body_closes balanced isClose
      simp only [extra] at left
      omega
  · intro unskipped
    by_cases empty : w = []
    · simp [empty]
    obtain ⟨front,last,rfl⟩ := (List.eq_nil_or_concat w).resolve_left empty
    rw [List.concat_eq_append,← List.append_assoc] at split
    obtain ⟨rfl,_⟩ := List.append_inj' split rfl
    rcases arrives with ⟨s',reached,_,even | atEnd⟩ | ⟨gave,_⟩
    · have inside := balanced.1 seg'.length
      rw [List.take_left] at inside
      simp only [extra] at even
      omega
    · exact absurd atEnd (body_more noEnd isClose ⟨seg',by simpa using split⟩ empty)
    · simp [noBraceSkipped,readAll_append,gave] at unskipped
end Body

-- `parse_block` on a balanced body stops just behind the brace that closes the
-- body if and only if no `{` of it is skipped after a syntax error.
theorem block_contained {B K : List Token} {close : Token} (noEnd : ∀ t ∈ B, t.kind ≠ .endOfFile)
    (balanced : Balanced B) (isClose : close.kind = .rBrace) (ends : Terminated K) :
    (∃ statements log, ∀ fuel, need .block (B ++ close :: K) ≤ fuel →
      parseBlock fuel (B ++ close :: K) = .ok ⟨.ok statements,K,log⟩) ↔ noBraceSkipped B = true := by
  have whole : Terminated (B ++ close :: K) := by
    obtain ⟨front,e,rfl,atEnd,others⟩ := ends
    refine ⟨B ++ close :: front,e,by simp,atEnd,fun t member => ?_⟩
    rcases List.mem_append.mp member with inside | behind
    · exact noEnd t inside
    · rcases List.mem_cons.mp behind with rfl | later
      · rw [isClose]; decide
      · exact others t later
  have total : ∃ r ts' log, Runs .block (B ++ close :: K) r ts' log := runs_total whole trivial
  obtain ⟨r,ts',log,run⟩ := total
  obtain ⟨es,rfl⟩ := block_returns run
  have parsed : ∀ fuel, need .block (B ++ close :: K) ≤ fuel →
      parseBlock fuel (B ++ close :: K) = .ok ⟨.ok es,ts',log⟩ := by
    intro fuel enough
    obtain ⟨_ | _,ran,⟨⟩⟩ := complete run fuel _ enough (Nat.le_refl _)
    exact ran
  rw [← body_exact noEnd balanced isClose run]
  constructor
  · rintro ⟨es',log',again⟩
    have same := again _ (Nat.le_refl _)
    rw [parsed _ (Nat.le_refl _)] at same
    cases same
    rfl
  · rintro rfl
    exact ⟨es,log,parsed⟩

-- `a b;{c;}}g(){}`: the body of a function with an error in front of a block, and
-- what comes after it.
def soundBody : List Token :=
  [.make .identifier 4 1,.make .identifier 6 1,.fixed .semicolon 7,.fixed .lBrace 8,.make .identifier 9 1,
    .fixed .semicolon 10,.fixed .rBrace 11]

def nextDefinition : List Token :=
  [.make .identifier 13 1,.fixed .lParen 14,.fixed .rParen 15,.fixed .lBrace 16,.fixed .rBrace 17,.fixed .endOfFile 18]

theorem block_contained_sound :
    (∃ statements log, ∀ fuel, need .block (soundBody ++ .fixed .rBrace 12 :: nextDefinition) ≤ fuel →
      parseBlock fuel (soundBody ++ .fixed .rBrace 12 :: nextDefinition) = .ok ⟨.ok statements,nextDefinition,log⟩) ↔
      noBraceSkipped soundBody = true := by
  have under : Under soundBody :=
    (under_one (t := .make .identifier 4 1) (by decide)).append ((under_one (t := .make .identifier 6 1) (by decide)).append
      ((under_one (t := .fixed .semicolon 7) (by decide)).append (under_braces rfl
        ((under_one (t := .make .identifier 9 1) (by decide)).append (under_one (t := .fixed .semicolon 10) (by decide))))))
  exact block_contained (by decide) ⟨under,rfl⟩ rfl ⟨nextDefinition.dropLast,.fixed .endOfFile 18,rfl,rfl,by decide⟩

-- `a{}` as a body: the semicolon that is missing behind `a` is noticed at the `{`.
def braceBody : List Token := [.make .identifier 4 1,.fixed .lBrace 5,.fixed .rBrace 6]

-- `f(){a{}}g(){}`: the block of `f` ends at the first `}`, and `g` is not parsed.
theorem brace_skipped : Balanced braceBody ∧ (∀ t ∈ braceBody, t.kind ≠ .endOfFile) ∧
    noBraceSkipped braceBody = false ∧
    parseBlock 100 (braceBody ++ .fixed .rBrace 7 :: nextDefinition) =
      .ok ⟨.ok [],.fixed .rBrace 7 :: nextDefinition,[⟨.expectSemicolon,.fixed .lBrace 5⟩]⟩ ∧
    runParser ([.make .identifier 0 1,.fixed .lParen 1,.fixed .rParen 2,.fixed .lBrace 3] ++ braceBody ++
        .fixed .rBrace 7 :: nextDefinition) = .ok ⟨.ok [⟨0,.none,⟨0,1⟩,[],[],[]⟩],[.fixed .endOfFile 18],
      [⟨.expectSemicolon,.fixed .lBrace 5⟩,⟨.expectFunctionStructOrEnum,.fixed .rBrace 7⟩]⟩ := by
  have under : Under braceBody := (under_one (t := .make .identifier 4 1) (by decide)).append (under_braces rfl under_nil)
  exact ⟨⟨under,rfl⟩,by decide,by decide,by decide +kernel,by decide +kernel⟩
end Cero.Parser
