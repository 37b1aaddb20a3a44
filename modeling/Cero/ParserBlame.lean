import Cero.ParserReports

-- Which tokens the parser blames, and how often.
namespace Cero.Parser

def braces (seg : List Token) : Nat := seg.countP (fun t => t.kind = .lBrace)

@[simp] theorem braces_nil : braces [] = 0 := rfl
theorem braces_append (seg more : List Token) : braces (seg ++ more) = braces seg + braces more := List.countP_append

-- What was blamed while `seg` was consumed: tokens of `seg` in their order, then the
-- end of the file, at most `k` times and only when the cursor has come to stand on it.
def Trail (seg ts' blamed : List Token) (k : Nat) : Prop :=
  ∃ us es, blamed = us ++ es ∧ us.Sublist seg ∧ (∀ t ∈ es, t.kind = .endOfFile ∧ ts'.head? = some t) ∧ es.length ≤ k

section Trails
variable {seg seg' ts' rest blamed more : List Token} {u : Token} {k k' : Nat}

theorem Trail.nil (seg ts' : List Token) : Trail seg ts' [] 0 := ⟨[],[],rfl,List.nil_sublist _,by simp,Nat.le_refl _⟩

theorem Trail.weaken (trail : Trail seg ts' blamed k) (bound : k ≤ k') : Trail seg ts' blamed k' := by
  obtain ⟨us,es,split_,sub,atEnd,few⟩ := trail
  exact ⟨us,es,split_,sub,atEnd,Nat.le_trans few bound⟩

-- In front of any other token the end of the file has not been blamed yet.
theorem Trail.fresh (trail : Trail seg (u :: rest) blamed k) (more : u.kind ≠ .endOfFile) :
    blamed.Sublist seg := by
  obtain ⟨us,es,rfl,sub,atEnd,_⟩ := trail
  cases es with
  | nil => simpa using sub
  | cons t es =>
    obtain ⟨kind,same⟩ := atEnd t List.mem_cons_self
    cases same
    exact absurd kind more

theorem Trail.ofSublist (sub : blamed.Sublist seg) (ts' : List Token) : Trail seg ts' blamed 0 :=
  ⟨blamed,[],(List.append_nil _).symm,sub,by simp,Nat.le_refl _⟩

theorem Trail.append (first : Trail seg (seg' ++ ts') blamed k) (second : Trail seg' ts' more k')
    (none : ∀ t ∈ seg', t.kind ≠ .endOfFile) : Trail (seg ++ seg') ts' (blamed ++ more) (k + k') := by
  cases seg' with
  | nil =>
    obtain ⟨us,es,rfl,sub,atEnd,few⟩ := first
    obtain ⟨vs,fs,rfl,sub',atEnd',few'⟩ := second
    cases List.sublist_nil.mp sub'
    refine ⟨us,es ++ fs,by simp,by simpa using sub,?_,by rw [List.length_append]; omega⟩
    intro t member
    rcases List.mem_append.mp member with early | late
    · exact atEnd t early
    · exact atEnd' t late
  | cons u seg' =>
    have earlier : blamed.Sublist seg := first.fresh (none u List.mem_cons_self)
    obtain ⟨vs,fs,rfl,sub',atEnd',few'⟩ := second
    exact ⟨blamed ++ vs,fs,(List.append_assoc _ _ _).symm,earlier.append sub',atEnd',by omega⟩

-- The token that was blamed last is passed over.
theorem Trail.passed (trail : Trail seg (u :: rest) blamed k) (more : u.kind ≠ .endOfFile) (seg' ts' : List Token) :
    Trail (seg ++ u :: seg') ts' (blamed ++ [u]) 0 := by
  have here : [u].Sublist (u :: seg') := List.Sublist.cons_cons u (List.nil_sublist _)
  exact .ofSublist ((trail.fresh more).append here) ts'

theorem Trail.stuck (trail : Trail seg (u :: rest) blamed k) (atEnd : u.kind = .endOfFile) :
    Trail seg (u :: rest) (blamed ++ [u]) (k + 1) := by
  obtain ⟨us,es,rfl,sub,others,few⟩ := trail
  refine ⟨us,es ++ [u],by simp,sub,?_,by rw [List.length_append]; exact Nat.succ_le_succ few⟩
  intro t member
  rcases List.mem_append.mp member with early | late
  · exact others t early
  · cases List.mem_singleton.mp late
    exact ⟨atEnd,rfl⟩
end Trails

def blamed (log : List Expected) : List Token := log.map Expected.found

@[simp] theorem blamed_append (log more : List Expected) : blamed (log ++ more) = blamed log ++ blamed more := List.map_append

-- A run that returned, with `k` ends of file more than it opened blocks.
def Settled (ts ts' : List Token) (log : List Expected) (k : Nat) : Prop :=
  ∃ seg, ts = seg ++ ts' ∧ (∀ t ∈ seg, t.kind ≠ .endOfFile) ∧ Trail seg ts' (blamed log) (braces seg + k)

-- A run that has thrown stands in front of the token that it blamed last.
def Stuck (ts ts' : List Token) (log : List Expected) : Prop :=
  ∃ seg earlier message u rest, ts = seg ++ u :: rest ∧ ts' = u :: rest ∧ (∀ t ∈ seg, t.kind ≠ .endOfFile) ∧
    log = earlier ++ [⟨message,u⟩] ∧ Trail seg (u :: rest) (blamed earlier) (braces seg)

section Runs
variable {ts ts₁ ts' rest : List Token} {t u : Token} {log log₁ log₂ : List Expected} {k k₁ k₂ : Nat}

theorem Settled.silent (consumed : Consumes ts ts') : Settled ts ts' [] 0 := by
  obtain ⟨seg,rfl,none⟩ := consumed
  exact ⟨seg,rfl,none,(Trail.nil seg ts').weaken (Nat.zero_le _)⟩

theorem Settled.weaken (settled : Settled ts ts' log k₁) (bound : k₁ ≤ k₂) : Settled ts ts' log k₂ := by
  obtain ⟨seg,whole,none,trail⟩ := settled
  exact ⟨seg,whole,none,trail.weaken (Nat.add_le_add_left bound _)⟩

theorem Settled.trans (first : Settled ts ts₁ log₁ k₁) (second : Settled ts₁ ts' log₂ k₂) :
    Settled ts ts' (log₁ ++ log₂) (k₁ + k₂) := by
  obtain ⟨seg,rfl,none,trail⟩ := first
  obtain ⟨seg',rfl,none',trail'⟩ := second
  refine ⟨seg ++ seg',(List.append_assoc _ _ _).symm,List.forall_mem_append.mpr ⟨none,none'⟩,?_⟩
  rw [blamed_append]
  exact (trail.append trail' none').weaken (by rw [braces_append]; omega)

-- An opening brace pays for the end that breaks its block off.
theorem Settled.brace (open_ : t.kind = .lBrace) (inside : Settled rest ts' log (k + 1)) : Settled (t :: rest) ts' log k := by
  obtain ⟨seg,rfl,none,trail⟩ := inside
  refine ⟨t :: seg,rfl,List.forall_mem_cons.mpr ⟨kind_more open_ (by decide),none⟩,?_⟩
  have more : braces (t :: seg) = braces seg + 1 := List.countP_cons_of_pos (by simpa using open_)
  obtain ⟨us,es,split_,sub,atEnd,few⟩ := trail
  exact ⟨us,es,split_,sub.cons t,atEnd,by omega⟩

theorem Settled.throws (first : Settled ts ts₁ log₁ 0) (second : Stuck ts₁ ts' log₂) : Stuck ts ts' (log₁ ++ log₂) := by
  obtain ⟨seg,rfl,none,trail⟩ := first
  obtain ⟨seg',earlier,message,u,rest,rfl,rfl,none',rfl,trail'⟩ := second
  refine ⟨seg ++ seg',log₁ ++ earlier,message,u,rest,by simp,rfl,List.forall_mem_append.mpr ⟨none,none'⟩,by simp,?_⟩
  rw [blamed_append]
  exact (trail.append trail' none').weaken (by rw [braces_append]; omega)

theorem Stuck.here (message : Message) (u : Token) (rest : List Token) : Stuck (u :: rest) (u :: rest) [⟨message,u⟩] :=
  ⟨[],[],message,u,rest,rfl,rfl,by simp,rfl,.nil _ _⟩

theorem Settled.blames (settled : Settled ts (u :: rest) log 0) (message : Message) :
    Stuck ts (u :: rest) (log ++ [⟨message,u⟩]) := settled.throws (.here message u rest)

theorem Stuck.nonempty (stuck : Stuck ts ts' log) : log ≠ [] := by
  obtain ⟨seg,earlier,message,u,rest,_,_,_,rfl,_⟩ := stuck
  simp

-- Recovery inside of a block: the blamed token is skipped, or it is the brace that
-- closes the block right away.
theorem Stuck.recovers {es : List AstExpression} (stuck : Stuck ts ts₁ log₁) {ts₂ : List Token}
    (skipped : skipStatement ts₁ = some (false,ts₂)) (others : Runs .block ts₂ (.ok (.list es)) ts' log₂)
    (settled : Settled ts₂ ts' log₂ k) : Settled ts ts' (log₁ ++ log₂) k := by
  obtain ⟨seg,earlier,message,u,rest,rfl,rfl,none,rfl,trail⟩ := stuck
  have more : u.kind ≠ .endOfFile := by
    intro atEnd
    rw [skipStatement,if_pos atEnd] at skipped
    cases skipped
  have log : blamed (earlier ++ [⟨message,u⟩]) = blamed earlier ++ [u] := by simp [blamed]
  rcases skip_progress skipped with shorter | ⟨rfl,t,rest',same,close⟩
  · obtain ⟨seg',whole,none'⟩ := (skip_consumed skipped)
    cases seg' with
    | nil => exact absurd shorter (by simp [whole])
    | cons v seg' =>
      obtain ⟨rfl,rfl⟩ := List.cons.inj whole
      have past : Settled (seg ++ u :: (seg' ++ ts₂)) ts₂ (earlier ++ [⟨message,u⟩]) 0 := by
        refine ⟨seg ++ u :: seg',by simp,List.forall_mem_append.mpr ⟨none,none'⟩,?_⟩
        rw [log]
        exact (trail.passed more seg' ts₂).weaken (Nat.zero_le _)
      exact (past.trans settled).weaken (by omega)
  · cases same
    cases others with
    | blockClose =>
      refine ⟨seg ++ [u],by simp,List.forall_mem_append.mpr ⟨none,by simpa using more⟩,?_⟩
      rw [List.append_nil,log]
      exact (trail.passed more [] ts').weaken (Nat.zero_le _)
    | blockNext inside | blockRecover inside | blockEnd inside => exact absurd close inside

-- A block that the end of the file breaks off has one end of file blamed at most.
theorem Stuck.ends (stuck : Stuck ts ts₁ log) (skipped : skipStatement ts₁ = some (true,ts')) : Settled ts ts' log 1 := by
  obtain ⟨seg,earlier,message,u,rest,rfl,rfl,none,rfl,trail⟩ := stuck
  have log : blamed (earlier ++ [⟨message,u⟩]) = blamed earlier ++ [u] := by simp [blamed]
  by_cases atEnd : u.kind = .endOfFile
  · rw [skipStatement,if_pos atEnd] at skipped
    cases skipped
    refine ⟨seg,rfl,none,?_⟩
    rw [log]
    exact trail.stuck atEnd
  · obtain ⟨seg',whole,none'⟩ := skip_consumed skipped
    cases seg' with
    | nil =>
      obtain ⟨e,rest',rfl,atEnd'⟩ := skip_end skipped
      obtain ⟨rfl,rfl⟩ := List.cons.inj whole
      exact absurd atEnd' atEnd
    | cons v seg' =>
      obtain ⟨rfl,rfl⟩ := List.cons.inj whole
      refine ⟨seg ++ u :: seg',by simp,List.forall_mem_append.mpr ⟨none,none'⟩,?_⟩
      rw [log]
      exact (trail.passed atEnd seg' ts').weaken (Nat.zero_le _)
end Runs

-- The end of the file that a block may still have to blame.
def unpaid : Task → Nat
  | .block => 1
  | _ => 0

def Blaming (task : Task) (ts : List Token) (r : Reply Form) (ts' : List Token) (log : List Expected) : Prop :=
  match r with
  | .ok _ => Settled ts ts' log (unpaid task)
  | .thrown => Stuck ts ts' log

theorem runs_settle {task : Task} {ts ts' : List Token} {r : Reply Form} {log : List Expected}
    (run : Runs task ts r ts' log) : Blaming task ts r ts' log := by
  induction run with
  | blockClose close => exact (Settled.silent (.one (kind_more close (by decide)))).weaken (Nat.zero_le _)
  | blockNext inside first others ih₁ ih₂ => exact (ih₁.trans ih₂).weaken (by simp [unpaid])
  | blockRecover inside first skipped others ih₁ ih₂ => exact ih₁.recovers skipped others ih₂
  | blockEnd inside first skipped ih => exact ih.ends skipped
  | @statementBlock t rest ts₁ r log brace run ih => cases r <;> exact ih
  | statementClosed noBrace run semicolon ih =>
    have closed := ih.trans (.silent (.one (kind_more semicolon (by decide))))
    rwa [List.append_nil] at closed
  | statementOpen noBrace run other ih => exact ih.blames _
  | statementThrown noBrace run ih => exact ih
  | noHead none => exact .here _ _ _
  | headThrown run ih => exact ih
  | @headTails ts ts₁ ts₂ p e r log₁ log₂ run tails ih₁ ih₂ | @tailsNext ts ts₁ ts₂ p left e r log₁ log₂ attaches run tails ih₁ ih₂ =>
    cases r with
    | ok => exact ih₁.trans ih₂
    | thrown => exact ih₁.throws ih₂
  | tailsStop stops => exact .silent (.refl _)
  | tailsThrown attaches run ih => exact ih
  | identifier kind => exact .silent (.one (kind_more kind (by decide)))
  | literal found => exact .silent (.one (head_more found))
  | brace kind run ih => exact ih.brace kind
  | returnBare kind none => exact .silent (.one (kind_more kind (by decide)))
  | returnValues kind some run ih => exact (Settled.silent (.one (kind_more kind (by decide)))).trans ih
  | returnThrown kind some run ih => exact (Settled.silent (.one (kind_more kind (by decide)))).throws ih
  | prefixed found run ih => exact (Settled.silent (.one (head_more found))).trans ih
  | prefixThrown found run ih => exact (Settled.silent (.one (head_more found))).throws ih
  | binary found run ih => exact (Settled.silent (operator_consumed found).1).trans ih
  | binaryThrown found run ih => exact (Settled.silent (operator_consumed found).1).throws ih
  | postfixed found => exact .silent (.one (postfix_more found))
  | callEmpty kind close => exact .silent (.cons (kind_more kind (by decide)) (.one (kind_more close (by decide))))
  | callClosed kind argument run close ih =>
    have opened := Settled.trans (.silent (.one (kind_more kind (by decide)))) ih
    have closed := opened.trans (.silent (.one (kind_more close (by decide))))
    rwa [List.append_nil] at closed
  | callOpen kind argument run other ih =>
    have stuck := ih.blames .expectClosingParenInCall
    exact (Settled.silent (.one (kind_more kind (by decide)))).throws stuck
  | callThrown kind argument run ih => exact (Settled.silent (.one (kind_more kind (by decide)))).throws ih
  | valuesLast run last ih => exact ih
  | valuesNext run comma others ih₁ ih₂ =>
    exact ih₁.trans ((Settled.silent (.one (kind_more comma (by decide)))).trans ih₂)
  | valuesNextThrown run comma others ih₁ ih₂ =>
    exact ih₁.throws ((Settled.silent (.one (kind_more comma (by decide)))).throws ih₂)
  | valuesThrown run ih => exact ih

-- In front of its body a definition that throws has blamed nothing or the token it
-- stands in front of.
def Halted (ts' : List Token) (log : List Expected) : Prop :=
  log = [] ∨ ∃ message u rest, log = [⟨message,u⟩] ∧ ts' = u :: rest

theorem listed_halts {α : Type} {Item : List Token → Reply α → List Token → List Expected → Prop}
    (once : ∀ {ts r ts' log}, Item ts r ts' log → log.length ≤ 1 ∧ ∀ a, r = .ok a → log = [])
    (halts : ∀ {ts ts' log}, Item ts .thrown ts' log → Halted ts' log) {ts ts' : List Token} {r : Reply (List α)}
    {log : List Expected} (run : Listed Item ts r ts' log) : r = .thrown → Halted ts' log := by
  induction run with
  | last | next => rintro ⟨⟩
  | nextThrown run comma others ih =>
    intro thrown
    rw [(once run).2 _ rfl]
    exact ih thrown
  | thrown run => exact fun _ => halts run

theorem parameter_halts {ts ts' : List Token} {log : List Expected} (run : ParameterRuns ts .thrown ts' log) :
    Halted ts' log := by
  cases run with
  | nameEmpty => exact .inl rfl
  | noName | noType => exact .inr ⟨_,_,_,rfl,rfl⟩

theorem output_halts {ts ts' : List Token} {log : List Expected} (run : OutputRuns ts .thrown ts' log) :
    Halted ts' log := by
  cases run with
  | noType => exact .inr ⟨_,_,_,rfl,rfl⟩

theorem parameters_halt {ts ts' : List Token} {log : List Expected} (run : ParametersRun ts .thrown ts' log) :
    Halted ts' log := by
  cases run with
  | unclosed some run other =>
    rw [(listed_paid parameter_once run).2 _ rfl]
    exact .inr ⟨_,_,_,rfl,rfl⟩
  | thrown some run => exact listed_halts parameter_once parameter_halts run rfl

theorem outputs_halt {ts ts' : List Token} {log : List Expected} (run : OutputsRun ts .thrown ts' log) :
    Halted ts' log := by
  cases run with
  | some arrow run => exact listed_halts output_once output_halts run rfl

section Definitions
variable {offset : BitVec sourceSizeBits} {modifier : AccessModifier} {name : Token} {ts ts' : List Token}
  {d : AstDefinition} {log : List Expected}

theorem function_halts (run : FunctionRuns offset modifier name ts .thrown ts' log) : Halted ts' log := by
  cases run with
  | noParen => exact .inr ⟨_,_,_,rfl,rfl⟩
  | parametersThrown paren run => exact parameters_halt run
  | outputsThrown paren run outputs =>
    rw [(parameters_once run).2 _ rfl]
    exact outputs_halt outputs
  | noBody paren run outputs other =>
    rw [(parameters_once run).2 _ rfl,(outputs_once outputs).2 _ rfl]
    exact .inr ⟨_,_,_,rfl,rfl⟩

theorem definition_halts (run : DefinitionRuns ts .thrown ts' log) : Halted ts' log := by
  cases run with
  | noName => exact .inr ⟨_,_,_,rfl,rfl⟩
  | function after name run => exact function_halts run

theorem function_settles (run : FunctionRuns offset modifier name ts (.ok d) ts' log) : Settled ts ts' log 0 := by
  cases run with
  | body paren run outputs brace block =>
    rw [(parameters_once run).2 _ rfl,(outputs_once outputs).2 _ rfl]
    have header := Consumes.cons (kind_more paren (by decide)) ((parameters_consume run).trans (outputs_consume outputs))
    have body : Settled _ ts' _ 1 := runs_settle block
    exact (Settled.silent header).trans (body.brace brace)

theorem definition_settles (run : DefinitionRuns ts (.ok d) ts' log) : Settled ts ts' log 0 := by
  cases run with
  | @function t u rest ts₁ ts₂ r log after name run =>
    have header : Consumes (t :: rest) ts₁ := (after ▸ modifier_consumes (t :: rest)).trans (.one (identifier_more name))
    exact (Settled.silent header).trans (function_settles run)
end Definitions

-- At the end of the file nothing more is blamed.
theorem file_end_silent {t : Token} {rest ts' : List Token} {ds : List AstDefinition} {log : List Expected}
    (file : FileRuns (t :: rest) ds ts' log) (atEnd : t.kind = .endOfFile) : log = [] := by
  cases file with
  | done => rfl
  | defined more | recovered more => exact absurd atEnd more

theorem Trail.joins {seg seg' ts' blamed more : List Token} {k k' : Nat} (first : Trail seg (seg' ++ ts') blamed k)
    (second : Trail seg' ts' more k') (none : ∀ t ∈ seg', t.kind ≠ .endOfFile) (silent : seg' = [] → more = []) :
    Trail (seg ++ seg') ts' (blamed ++ more) (max k k') := by
  cases seg' with
  | nil =>
    rw [silent rfl,List.append_nil,List.append_nil]
    exact first.weaken (Nat.le_max_left _ _)
  | cons u seg' =>
    have fresh := Trail.ofSublist (first.fresh (none u List.mem_cons_self)) (u :: seg' ++ ts')
    exact (fresh.append second none).weaken (by omega)

theorem skipDefinition_past {u : Token} {rest ts' : List Token} (more : u.kind ≠ .endOfFile)
    (skipped : skipDefinition (u :: rest) = some ts') : Consumes rest ts' := by
  rw [skipDefinition,if_neg more] at skipped
  exact marked_consumes skipped

-- A definition that has thrown, together with the tokens that are skipped behind it.
theorem Halted.skipped {ts ts₁ ts₂ : List Token} {log : List Expected} (halted : Halted ts₁ log)
    (consumed : Consumes ts ts₁) (skipped : skipDefinition ts₁ = some ts₂) :
    ∃ seg, ts = seg ++ ts₂ ∧ (∀ t ∈ seg, t.kind ≠ .endOfFile) ∧ Trail seg ts₂ (blamed log) 1 := by
  obtain ⟨crossed,whole,none⟩ := consumed.trans (skipDefinition_consumes skipped)
  rcases halted with rfl | ⟨message,u,rest,rfl,rfl⟩
  · exact ⟨crossed,whole,none,(Trail.nil crossed ts₂).weaken (Nat.zero_le _)⟩
  · obtain ⟨seg,rfl,none'⟩ := consumed
    by_cases atEnd : u.kind = .endOfFile
    · rw [skipDefinition,if_pos atEnd] at skipped
      cases skipped
      exact ⟨seg,rfl,none',(Trail.nil seg _).stuck atEnd⟩
    · obtain ⟨seg',rfl,none''⟩ := skipDefinition_past atEnd skipped
      refine ⟨seg ++ u :: seg',by simp,?_,((Trail.nil seg (u :: (seg' ++ ts₂))).passed atEnd seg' ts₂).weaken (Nat.zero_le _)⟩
      exact List.forall_mem_append.mpr ⟨none',List.forall_mem_cons.mpr ⟨atEnd,none''⟩⟩

theorem file_blames {ts ts' : List Token} {ds : List AstDefinition} {log : List Expected} (file : FileRuns ts ds ts' log) :
    ∃ seg, ts = seg ++ ts' ∧ (∀ t ∈ seg, t.kind ≠ .endOfFile) ∧ Trail seg ts' (blamed log) (max 1 (braces seg)) := by
  -- what follows a definition is silent when the definition has come to the end
  have last : ∀ {ts₁ seg' ts' ds log}, FileRuns ts₁ ds ts' log → ts₁ = seg' ++ ts' → seg' = [] → blamed log = [] := by
    rintro ts₁ seg' ts' ds log file rfl rfl
    obtain ⟨_,t,rest,rfl,atEnd⟩ := file_ends file
    rw [file_end_silent file atEnd]
    rfl
  induction file with
  | done atEnd => exact ⟨[],rfl,by simp,(Trail.nil _ _).weaken (Nat.zero_le _)⟩
  | defined more run others ih =>
    obtain ⟨seg,whole,none,trail⟩ := definition_settles run
    obtain ⟨seg',rfl,none',trail'⟩ := ih
    refine ⟨seg ++ seg',by rw [whole,List.append_assoc],List.forall_mem_append.mpr ⟨none,none'⟩,?_⟩
    rw [blamed_append]
    exact (trail.joins trail' none' (last others rfl)).weaken (by rw [braces_append]; omega)
  | recovered more run skipped others ih =>
    obtain ⟨seg,whole,none,trail⟩ := (definition_halts run).skipped (definition_consumes run) skipped
    obtain ⟨seg',rfl,none',trail'⟩ := ih
    refine ⟨seg ++ seg',by rw [whole,List.append_assoc],List.forall_mem_append.mpr ⟨none,none'⟩,?_⟩
    rw [blamed_append]
    exact (trail.joins trail' none' (last others rfl)).weaken (by rw [braces_append]; omega)

end Cero.Parser
