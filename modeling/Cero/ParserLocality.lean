import Cero.ParserBlame
import Cero.ParserFlatten

-- A run that reports nothing does not depend on what stands behind the tokens that
-- it has used up.
namespace Cero.Parser

-- `u` is `ts` with `X` for `Y` at its end. A `>` looks at the token behind it, so
-- none stands in front of what is replaced.
def Swapped (Y X ts u : List Token) : Prop :=
  ∃ S, ts = S ++ Y ∧ u = S ++ X ∧ ∀ t, S.getLast? = some t → t.kind ≠ .rAngle

section Swap
variable {Y X ts ts' u u' rest : List Token} {t : Token}

theorem Swapped.segment (seg : List Token) (from_ : Swapped Y X (seg ++ ts') u) (onto : Swapped Y X ts' u') : u = seg ++ u' := by
  obtain ⟨S,whole,rfl,_⟩ := from_
  obtain ⟨S',rfl,rfl,_⟩ := onto
  rw [← List.append_assoc] at whole ⊢
  rw [List.append_cancel_right whole]

theorem Swapped.same (from_ : Swapped Y X ts u) (onto : Swapped Y X ts u') : u = u' :=
  Swapped.segment [] from_ onto

theorem Swapped.suffix (seg : List Token) (swapped : Swapped Y X (seg ++ ts') u) (behind : Y.length ≤ ts'.length) :
    ∃ u', Swapped Y X ts' u' := by
  obtain ⟨S,whole,rfl,shut⟩ := swapped
  obtain ⟨S',rfl,rfl⟩ : ∃ S', S = seg ++ S' ∧ ts' = S' ++ Y := by
    rcases List.append_eq_append_iff.mp whole with ⟨S',same,later⟩ | ⟨crossed,rfl,rfl⟩
    · exact ⟨S',same,later⟩
    · rw [List.length_append] at behind
      obtain rfl : crossed = [] := List.eq_nil_of_length_eq_zero (by omega)
      exact ⟨[],by simp,rfl⟩
  refine ⟨S' ++ X,S',rfl,rfl,fun t last => shut t ?_⟩
  rw [List.getLast?_append,last]
  rfl

theorem Swapped.consumed (swapped : Swapped Y X ts u) (consumed : Consumes ts ts') (behind : Y.length ≤ ts'.length) :
    ∃ u', Swapped Y X ts' u' := by
  obtain ⟨seg,rfl,_⟩ := consumed
  exact swapped.suffix seg behind

theorem Swapped.head (swapped : Swapped Y X (t :: rest) u) (behind : Y.length ≤ rest.length) :
    ∃ u', u = t :: u' ∧ Swapped Y X rest u' := by
  obtain ⟨u',later⟩ := Swapped.suffix [t] swapped behind
  exact ⟨u',Swapped.segment [t] swapped later,later⟩

theorem Swapped.drop (swapped : Swapped Y X ts u) {n : Nat} (behind : Y.length < (ts.drop n).length) :
    Swapped Y X (ts.drop n) (u.drop n) := by
  obtain ⟨S,rfl,rfl,shut⟩ := swapped
  have short : n ≤ S.length := by
    rw [List.length_drop,List.length_append] at behind
    omega
  refine ⟨S.drop n,List.drop_append_of_le_length short,List.drop_append_of_le_length short,?_⟩
  intro t last
  rw [List.getLast?_drop] at last
  split at last
  · cases last
  · exact shut t last

-- In front of the replaced tokens the next tail is the same.
theorem Swapped.nextTail (swapped : Swapped Y X ts u) (behind : Y.length < ts.length) : nextTail u = nextTail ts := by
  obtain ⟨S,rfl,rfl,shut⟩ := swapped
  match S with
  | [] => exact absurd behind (Nat.lt_irrefl _)
  | [t] =>
    have plain : t.kind ≠ .rAngle := shut t rfl
    simp only [List.cons_append,List.nil_append,Parser.nextTail,if_neg plain]
  | t :: v :: S => rfl

theorem Swapped.stops {p : Precedence} (swapped : Swapped Y X ts u) (behind : Y.length < ts.length) (stops : Stops p ts) :
    Stops p u := by
  rw [Stops,swapped.nextTail behind]
  exact stops

theorem Swapped.attaches {p : Precedence} (swapped : Swapped Y X ts u) (behind : Y.length < ts.length)
    (attaches : Attaches p ts) : Attaches p u := by
  rw [Attaches,swapped.nextTail behind]
  exact attaches
end Swap

-- A block that was not broken off ends with its closing brace.
theorem block_closes {ts ts' : List Token} {r : Reply Form} {log : List Expected} (run : Runs .block ts r ts' log)
    (silent : log = []) : ∃ seg t, ts = seg ++ t :: ts' ∧ t.kind = .rBrace := by
  generalize task : Task.block = block at run
  induction run with
  | blockClose close => exact ⟨[],_,rfl,close⟩
  | blockNext inside first others ih₁ ih₂ =>
    obtain ⟨seg,t,rfl,close⟩ := ih₂ (List.append_eq_nil_iff.mp silent).2 rfl
    obtain ⟨seg',whole,_⟩ := (runs_consume first).1
    exact ⟨seg' ++ seg,t,by rw [whole,List.append_assoc],close⟩
  | blockRecover inside first => exact absurd (List.append_eq_nil_iff.mp silent).1 (Stuck.nonempty (runs_settle first))
  | blockEnd inside first => exact absurd silent (Stuck.nonempty (runs_settle first))
  | _ => cases task

theorem thrown_reports {task : Task} {ts ts' : List Token} {log : List Expected} (run : Runs task ts .thrown ts' log) :
    log ≠ [] := Stuck.nonempty (runs_settle run)

-- Only a block may end right in front of what is replaced: everything else looks at
-- the token behind it.
def LocalTo (Y X : List Token) (task : Task) (ts : List Token) (r : Reply Form) (ts' : List Token) (log : List Expected) : Prop :=
  log = [] → ∀ f, r = .ok f → ∀ u u', Swapped Y X ts u → Swapped Y X ts' u' →
    Y.length < ts'.length ∨ task = .block → Runs task u (.ok f) u' []

theorem runs_local {task : Task} {ts ts' : List Token} {r : Reply Form} {log : List Expected} (Y X : List Token)
    (run : Runs task ts r ts' log) : LocalTo Y X task ts r ts' log := by
  induction run with
  | blockClose close =>
    rintro _ _ ⟨⟩ u u' from_ onto _
    obtain rfl := Swapped.segment [_] from_ onto
    exact .blockClose close
  | @blockNext t rest ts₁ ts₂ e es log₁ log₂ inside first others ih₁ ih₂ =>
    rintro silent _ ⟨⟩ u u' from_ onto _
    obtain ⟨rfl,rfl⟩ := List.append_eq_nil_iff.mp silent
    obtain ⟨seg,v,whole,_⟩ := block_closes others rfl
    have room : Y.length < ts₁.length := by
      obtain ⟨S,rfl,_⟩ := onto
      simp only [whole,List.length_append,List.length_cons]
      omega
    obtain ⟨u₁,middle⟩ := from_.consumed (runs_consume first).1 (Nat.le_of_lt room)
    have bound := (runs_consume first).1.length
    obtain ⟨w,rfl,_⟩ := from_.head (by simp only [List.length_cons] at bound; omega)
    exact .blockNext inside (ih₁ rfl _ rfl _ _ from_ middle (.inl room)) (ih₂ rfl _ rfl _ _ middle onto (.inr rfl))
  | blockRecover inside first => exact fun silent => absurd (List.append_eq_nil_iff.mp silent).1 (thrown_reports first)
  | blockEnd inside first => exact fun silent => absurd silent (thrown_reports first)
  | @statementBlock t rest ts₁ r log brace run ih =>
    rintro silent _ rfl u u' from_ onto room
    have room : Y.length < ts₁.length := room.resolve_right (by simp)
    have bound := (runs_consume run).2
    obtain ⟨w,rfl,_⟩ := from_.head (by simp only [least,List.length_cons] at bound; omega)
    exact .statementBlock brace (ih silent _ rfl _ _ from_ onto (.inl room))
  | @statementClosed t v rest ts₁ e log noBrace run semicolon ih =>
    rintro silent _ ⟨⟩ u u' from_ onto room
    have room : Y.length < ts₁.length := room.resolve_right (by simp)
    have bound := (runs_consume run).2
    simp only [least,List.length_cons] at bound
    obtain ⟨u₁,middle⟩ := from_.consumed (runs_consume run).1 (by simp only [List.length_cons]; omega)
    obtain rfl := Swapped.segment [v] middle onto
    obtain ⟨w,rfl,_⟩ := from_.head (by omega)
    exact .statementClosed noBrace (ih silent _ rfl _ _ from_ middle (.inl (by simp only [List.length_cons]; omega))) semicolon
  | statementOpen | callOpen => exact fun silent => absurd silent (by simp)
  | statementThrown | noHead | headThrown | tailsThrown | returnThrown | prefixThrown | binaryThrown | callThrown
  | valuesNextThrown | valuesThrown => rintro _ _ ⟨⟩
  | @headTails ts ts₁ ts₂ p e r log₁ log₂ run tails ih₁ ih₂ =>
    rintro silent _ rfl u u' from_ onto room
    obtain ⟨rfl,rfl⟩ := List.append_eq_nil_iff.mp silent
    have room : Y.length < ts₂.length := room.resolve_right (by simp)
    have bound := (runs_consume tails).1.length
    obtain ⟨u₁,middle⟩ := from_.consumed (runs_consume run).1 (by omega)
    exact .headTails (ih₁ rfl _ rfl _ _ from_ middle (.inl (by omega))) (ih₂ rfl _ rfl _ _ middle onto (.inl room))
  | @tailsStop ts p left stops =>
    rintro _ _ ⟨⟩ u u' from_ onto room
    have room : Y.length < ts.length := room.resolve_right (by simp)
    obtain rfl := from_.same onto
    exact .tailsStop (from_.stops room stops)
  | @tailsNext ts ts₁ ts₂ p left e r log₁ log₂ attaches run tails ih₁ ih₂ =>
    rintro silent _ rfl u u' from_ onto room
    obtain ⟨rfl,rfl⟩ := List.append_eq_nil_iff.mp silent
    have room : Y.length < ts₂.length := room.resolve_right (by simp)
    have bound := (runs_consume tails).1.length
    have bound' := (runs_consume run).1.length
    obtain ⟨u₁,middle⟩ := from_.consumed (runs_consume run).1 (by omega)
    exact .tailsNext (from_.attaches (by omega) attaches) (ih₁ rfl _ rfl _ _ from_ middle (.inl (by omega)))
      (ih₂ rfl _ rfl _ _ middle onto (.inl room))
  | identifier kind =>
    rintro _ _ ⟨⟩ u u' from_ onto _
    obtain rfl := Swapped.segment [_] from_ onto
    exact .identifier kind
  | literal found =>
    rintro _ _ ⟨⟩ u u' from_ onto _
    obtain rfl := Swapped.segment [_] from_ onto
    exact .literal found
  | @brace t rest ts₁ es log kind run ih =>
    rintro silent _ ⟨⟩ u u' from_ onto room
    have room : Y.length < ts₁.length := room.resolve_right (by simp)
    have bound := (runs_consume run).1.length
    obtain ⟨w,rfl,behind⟩ := from_.head (by omega)
    exact .brace kind (ih silent _ rfl _ _ behind onto (.inr rfl))
  | @returnBare t v rest kind none =>
    rintro _ _ ⟨⟩ u u' from_ onto room
    have room : Y.length < (v :: rest).length := room.resolve_right (by simp)
    obtain rfl := Swapped.segment [t] from_ onto
    obtain ⟨w,rfl,_⟩ := onto.head (Nat.le_of_lt_succ room)
    exact .returnBare kind none
  | @returnValues t v rest ts₁ es log kind some run ih =>
    rintro silent _ ⟨⟩ u u' from_ onto room
    have room : Y.length < ts₁.length := room.resolve_right (by simp)
    have bound := (runs_consume run).2
    simp only [least,List.length_cons] at bound
    obtain ⟨w,rfl,behind⟩ := from_.head (by simp only [List.length_cons]; omega)
    obtain ⟨w,rfl,_⟩ := behind.head (by omega)
    exact .returnValues kind some (ih silent _ rfl _ _ behind onto (.inl room))
  | @prefixed t rest ts₁ op e log found run ih =>
    rintro silent _ ⟨⟩ u u' from_ onto room
    have room : Y.length < ts₁.length := room.resolve_right (by simp)
    have bound := (runs_consume run).1.length
    obtain ⟨w,rfl,behind⟩ := from_.head (by omega)
    exact .prefixed found (ih silent _ rfl _ _ behind onto (.inl room))
  | @binary ts ts₁ p op left right log found run ih =>
    rintro silent _ ⟨⟩ u u' from_ onto room
    have room : Y.length < ts₁.length := room.resolve_right (by simp)
    have bound := (runs_consume run).1.length
    have shorter := (operator_consumed found).2
    exact .binary ((from_.nextTail (by omega)).trans found)
      (ih silent _ rfl _ _ (from_.drop (by omega)) onto (.inl room))
  | @postfixed t rest p op left found =>
    rintro _ _ ⟨⟩ u u' from_ onto room
    have room : Y.length < rest.length := room.resolve_right (by simp)
    have same := from_.nextTail (Nat.lt_succ_of_lt room)
    obtain rfl := Swapped.segment [t] from_ onto
    exact .postfixed (same.trans found)
  | @callEmpty t v rest left kind close =>
    rintro _ _ ⟨⟩ u u' from_ onto _
    obtain rfl := Swapped.segment [t,v] from_ onto
    exact .callEmpty kind close
  | @callClosed t v w rest ts₁ left es log kind argument run close ih =>
    rintro silent _ ⟨⟩ u u' from_ onto room
    have room : Y.length < ts₁.length := room.resolve_right (by simp)
    have bound := (runs_consume run).2
    simp only [least,List.length_cons] at bound
    obtain ⟨_,rfl,behind⟩ := from_.head (by simp only [List.length_cons]; omega)
    obtain ⟨u₁,middle⟩ := behind.consumed (runs_consume run).1 (by simp only [List.length_cons]; omega)
    obtain ⟨_,rfl,_⟩ := behind.head (by omega)
    obtain rfl := Swapped.segment [w] middle onto
    exact .callClosed kind argument (ih silent _ rfl _ _ behind middle (.inl (by simp only [List.length_cons]; omega))) close
  | @valuesLast ts ts₁ v e log run last ih =>
    rintro silent _ ⟨⟩ u u' from_ onto room
    have room : Y.length < (v :: ts₁).length := room.resolve_right (by simp)
    obtain ⟨_,rfl,_⟩ := onto.head (Nat.le_of_lt_succ room)
    exact .valuesLast (ih silent _ rfl _ _ from_ onto (.inl room)) last
  | @valuesNext ts ts₁ ts₂ v e es log₁ log₂ run comma others ih₁ ih₂ =>
    rintro silent _ ⟨⟩ u u' from_ onto room
    obtain ⟨rfl,rfl⟩ := List.append_eq_nil_iff.mp silent
    have room : Y.length < ts₂.length := room.resolve_right (by simp)
    have bound := (runs_consume others).1.length
    obtain ⟨_,middle⟩ := from_.consumed (runs_consume run).1 (by simp only [List.length_cons]; omega)
    have first := ih₁ rfl _ rfl _ _ from_ middle (.inl (by simp only [List.length_cons]; omega))
    obtain ⟨_,rfl,behind⟩ := middle.head (by omega)
    exact .valuesNext first comma (ih₂ rfl _ rfl _ _ behind onto (.inl room))

-- What is read does not depend on what comes behind it.
theorem block_local {ts ts' : List Token} {es : List AstExpression} (run : Runs .block ts (.ok (.list es)) ts' []) :
    ∃ seg, ts = seg ++ ts' ∧ ∀ w, Runs .block (seg ++ w) (.ok (.list es)) w [] := by
  obtain ⟨seg,t,rfl,close⟩ := block_closes run rfl
  refine ⟨seg ++ [t],by simp,fun w => ?_⟩
  have from_ : Swapped ts' w (seg ++ t :: ts') (seg ++ [t] ++ w) := by
    refine ⟨seg ++ [t],by simp,rfl,fun u last => ?_⟩
    rw [List.getLast?_concat] at last
    cases last
    rw [close]
    decide
  exact runs_local ts' w run rfl _ rfl _ _ from_ ⟨[],rfl,rfl,by simp⟩ (.inr rfl)

-- A comma list looks at the one token behind it.
theorem listed_local {α : Type} {Item : List Token → Reply α → List Token → List Expected → Prop}
    (each : ∀ {ts a ts'}, Item ts (.ok a) ts' [] → ∃ seg, ts = seg ++ ts' ∧ ∀ w, Item (seg ++ w) (.ok a) w [])
    {ts ts' : List Token} {r : Reply (List α)} {log : List Expected} (run : Listed Item ts r ts' log) (silent : log = []) :
    ∀ as, r = .ok as → ∃ seg u rest, ts = seg ++ u :: rest ∧ ts' = u :: rest ∧
      ∀ w, Listed Item (seg ++ u :: w) (.ok as) (u :: w) [] := by
  induction run with
  | @last ts ts₁ u a log run last =>
    rintro as ⟨⟩
    subst silent
    obtain ⟨seg,rfl,same⟩ := each run
    exact ⟨seg,u,ts₁,rfl,rfl,fun w => .last (same (u :: w)) last⟩
  | @next ts ts₁ ts₂ u a as log₁ log₂ run comma others ih =>
    rintro _ ⟨⟩
    obtain ⟨rfl,rfl⟩ := List.append_eq_nil_iff.mp silent
    obtain ⟨seg,rfl,same⟩ := each run
    obtain ⟨seg',v,rest,rfl,rfl,others'⟩ := ih rfl _ rfl
    refine ⟨seg ++ u :: seg',v,rest,by simp,rfl,fun w => ?_⟩
    rw [List.append_assoc]
    exact .next (same (u :: (seg' ++ v :: w))) comma (others' w)
  | nextThrown | thrown => rintro as ⟨⟩

theorem parameter_local {ts ts' : List Token} {p : AstFunctionParameter} (run : ParameterRuns ts (.ok p) ts' []) :
    ∃ seg, ts = seg ++ ts' ∧ ∀ w, ParameterRuns (seg ++ w) (.ok p) w [] := by
  cases run with
  | named type name long => exact ⟨[_,_],rfl,fun w => .named type name long⟩

theorem output_local {ts ts' : List Token} {o : AstFunctionOutput} (run : OutputRuns ts (.ok o) ts' []) :
    ∃ seg, ts = seg ++ ts' ∧ ∀ w, OutputRuns (seg ++ w) (.ok o) w [] := by
  cases run with
  | typed type => exact ⟨[_],rfl,fun w => .typed type⟩

theorem parameters_local {ts ts' : List Token} {ps : List AstFunctionParameter} (run : ParametersRun ts (.ok ps) ts' []) :
    ∃ seg, ts = seg ++ ts' ∧ ∀ w, ParametersRun (seg ++ w) (.ok ps) w [] := by
  cases run with
  | empty close => exact ⟨[_],rfl,fun w => .empty close⟩
  | @closed t u rest ts₁ ps log some run close =>
    obtain ⟨seg,_,_,whole,same,others⟩ := listed_local parameter_local run rfl _ rfl
    cases same
    cases seg with
    | nil =>
      obtain ⟨rfl,_⟩ := List.cons.inj whole
      exact absurd close some
    | cons t seg =>
      obtain ⟨rfl,rfl⟩ := List.cons.inj whole
      refine ⟨t :: seg ++ [u],by simp,fun w => ?_⟩
      rw [List.append_assoc]
      exact .closed some (others w) close

theorem outputs_local {ts ts' : List Token} {os : List AstFunctionOutput} (run : OutputsRun ts (.ok os) ts' []) :
    ∃ seg u rest, ts = seg ++ u :: rest ∧ ts' = u :: rest ∧ ∀ w, OutputsRun (seg ++ u :: w) (.ok os) (u :: w) [] := by
  cases run with
  | none noArrow => exact ⟨[],_,_,rfl,rfl,fun w => .none noArrow⟩
  | @some t _ _ _ _ arrow run =>
    obtain ⟨seg,u,rest,rfl,rfl,others⟩ := listed_local output_local run rfl _ rfl
    exact ⟨t :: seg,u,rest,rfl,rfl,fun w => .some arrow (others w)⟩

theorem function_local {offset : BitVec sourceSizeBits} {modifier : AccessModifier} {name : Token} {ts ts' : List Token}
    {d : AstDefinition} (run : FunctionRuns offset modifier name ts (.ok d) ts' []) :
    ∃ seg, ts = seg ++ ts' ∧ ∀ w, FunctionRuns offset modifier name (seg ++ w) (.ok d) w [] := by
  generalize silent : ([] : List Expected) = log at run
  cases run with
  | @body t u rest ts₁ ts₂ ts₃ ps os es log₁ log₂ log₃ paren run outputs brace block =>
    obtain ⟨silent₁,rfl⟩ := List.append_eq_nil_iff.mp silent.symm
    obtain ⟨rfl,rfl⟩ := List.append_eq_nil_iff.mp silent₁
    obtain ⟨seg,rfl,parameters⟩ := parameters_local run
    obtain ⟨seg',_,_,rfl,same,returned⟩ := outputs_local outputs
    cases same
    obtain ⟨seg'',rfl,body⟩ := block_local block
    refine ⟨t :: (seg ++ (seg' ++ u :: seg'')),by simp,fun w => ?_⟩
    have whole : t :: (seg ++ (seg' ++ u :: seg'')) ++ w = t :: (seg ++ (seg' ++ u :: (seg'' ++ w))) := by simp
    rw [whole]
    exact .body paren (parameters _) (returned _) brace (body w)

theorem modifier_local {t u : Token} {rest ts : List Token} (after : afterModifier (t :: rest) = u :: ts) :
    ∃ seg, t :: rest = seg ++ u :: ts ∧ ∀ w, ∃ more, seg ++ u :: w = t :: more ∧ afterModifier (t :: more) = u :: w := by
  rw [afterModifier] at after
  split at after
  · rename_i none
    cases after
    exact ⟨[],rfl,fun w => ⟨w,rfl,by rw [afterModifier,if_pos none]⟩⟩
  · rename_i marked
    subst after
    exact ⟨[t],rfl,fun w => ⟨u :: w,rfl,by rw [afterModifier,if_neg marked]⟩⟩

theorem definition_local {ts ts' : List Token} {d : AstDefinition} (run : DefinitionRuns ts (.ok d) ts' []) :
    ∃ seg, ts = seg ++ ts' ∧ ∀ w, DefinitionRuns (seg ++ w) (.ok d) w [] := by
  cases run with
  | @function t u rest ts₁ ts₂ r log after name run =>
    obtain ⟨seg,whole,header⟩ := modifier_local after
    obtain ⟨seg',rfl,body⟩ := function_local run
    refine ⟨seg ++ u :: seg',by rw [whole,List.append_assoc]; rfl,fun w => ?_⟩
    obtain ⟨more,same,after'⟩ := header (seg' ++ w)
    rw [List.append_assoc,List.cons_append,same]
    exact .function after' name (body w)

-- A file without a report, with another one behind it.
theorem file_append {ts ts' us us' : List Token} {ds es : List AstDefinition} {log more : List Expected}
    (file : FileRuns ts ds ts' log) (silent : log = []) (named : Named ts) (others : FileRuns us es us' more) :
    ∃ seg, ts = seg ++ ts' ∧ FileRuns (seg ++ us) (ds ++ es) us' more := by
  induction file with
  | done atEnd => exact ⟨[],rfl,others⟩
  | @defined t rest ts₁ ts₂ d ds log₁ log₂ notEnd run rest_ ih =>
    obtain ⟨rfl,silent₂⟩ := List.append_eq_nil_iff.mp silent
    obtain ⟨later,rfl,file⟩ := ih silent₂ (named.consumed (definition_consumes run))
    obtain ⟨seg,whole,same⟩ := definition_local run
    refine ⟨seg ++ later,by rw [whole,List.append_assoc],?_⟩
    rw [List.append_assoc]
    have here := same (later ++ us)
    cases seg with
    | nil => exact absurd (definition_progress here) (Nat.lt_irrefl _)
    | cons u seg =>
      obtain ⟨rfl,_⟩ := List.cons.inj whole
      exact .defined notEnd here file
  | recovered notEnd run skipped rest_ ih =>
    obtain ⟨rfl,_⟩ := List.append_eq_nil_iff.mp silent
    obtain ⟨_,impossible,_⟩ := definition_spelt named run
    cases impossible

-- What stands behind a file that parses without a report is parsed as if it stood
-- alone, and changes nothing in front of it.
theorem parser_compositional {P Q : List Token} {e e' : Token} (plainP : ∀ t ∈ P, t.kind ≠ .endOfFile)
    (plainQ : ∀ t ∈ Q, t.kind ≠ .endOfFile) (atEnd : e.kind = .endOfFile) (atEnd' : e'.kind = .endOfFile) (named : Named P)
    {definitions : List AstDefinition} {rest : List Token}
    (silent : runParser (P ++ [e]) = .ok ⟨.ok definitions,rest,[]⟩) :
    ∃ others log, runParser (Q ++ [e']) = .ok ⟨.ok others,[e'],log⟩ ∧
      runParser (P ++ Q ++ [e']) = .ok ⟨.ok (definitions ++ others),[e'],log⟩ := by
  obtain ⟨_,⟨⟩,fileP⟩ := runParser_exact.mp silent
  obtain ⟨consumed,u,rest,rfl,last⟩ := file_ends fileP
  obtain rfl := ((Terminated.consumed ⟨P,e,rfl,atEnd,plainP⟩) consumed).last last
  obtain ⟨others,log,fileQ⟩ := file_whole plainQ atEnd'
  have namedEnd : Named (P ++ [e]) := by
    intro t member
    rcases List.mem_append.mp member with inside | final
    · exact named t inside
    · rw [List.mem_singleton.mp final,atEnd]
      intro impossible
      cases impossible
  obtain ⟨seg,whole,file⟩ := file_append fileP rfl namedEnd fileQ
  obtain ⟨rfl,_⟩ := List.append_inj' whole rfl
  rw [List.append_assoc]
  exact ⟨others,log,runParser_exact.mpr ⟨_,rfl,fileQ⟩,runParser_exact.mpr ⟨_,rfl,file⟩⟩

-- `f(A a){return a>>b;}`, and `g(,` behind it.
def soundFile : List Token :=
  [.make .identifier 0 1,.fixed .lParen 1,.make .identifier 2 1,.make .identifier 4 1,.fixed .rParen 5,.fixed .lBrace 6,
    .fixed .kwReturn 7,.make .identifier 14 1,.fixed .rAngle 15,.fixed .rAngle 16,.make .identifier 17 1,
    .fixed .semicolon 18,.fixed .rBrace 19]

def soundDefinition : AstDefinition :=
  ⟨0,.none,⟨0,1⟩,[⟨2,.ident 2 1,⟨4,1⟩⟩],[],[.return_ 7 [.binary 14 .shr (.ident 14 1) (.ident 17 1)]]⟩

def brokenFile : List Token := [.make .identifier 20 1,.fixed .lParen 21,.fixed .comma 22]

theorem parser_compositional_broken : ∃ others log,
    runParser (brokenFile ++ [.fixed .endOfFile 23]) = .ok ⟨.ok others,[.fixed .endOfFile 23],log⟩ ∧
      runParser (soundFile ++ brokenFile ++ [.fixed .endOfFile 23]) =
        .ok ⟨.ok ([soundDefinition] ++ others),[.fixed .endOfFile 23],log⟩ := by
  have silent : runParser (soundFile ++ [.fixed .endOfFile 20]) =
      .ok ⟨.ok [soundDefinition],[.fixed .endOfFile 20],[]⟩ := by decide +kernel
  have named : Named soundFile := by unfold Named; decide
  exact parser_compositional (by decide) (by decide) rfl rfl named silent
end Cero.Parser
