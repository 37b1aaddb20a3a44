import Cero.DefinitionTotal

namespace Cero.Parser

-- `fmt::vformat` with one argument, for formats whose only braces are `\x7b\x7d`.
def vformat (lexeme : Bytes) : List Char → Bytes
  | '\x7b' :: '\x7d' :: rest => lexeme ++ vformat lexeme rest
  | c :: rest => ch c :: vformat lexeme rest
  | [] => []

-- What `report_expected` does with the token that the parser stands on.
def Expected.report (source : SourceView) (tabSize : UInt8) (e : Expected) : Except Fault Report := do
  let location ← e.found.locateIn source tabSize
  let lexeme ← e.found.getText source
  let messageStr := vformat lexeme (getTokenMessageFormat e.found.kind).toList
  Reporter.report location e.message [.text messageStr]

-- A token that any report may be about.
def Readable (source : SourceView) (tabSize : UInt8) (t : Token) : Prop :=
  (∃ location, t.locateIn source tabSize = .ok location) ∧ ∃ lexeme, t.getText source = .ok lexeme

-- A message that takes the one argument it is given.
def TakesOne (message : Message) : Prop := ∀ arg, MessageArgs.validForMessage [arg] message = true

theorem takesOne_of {message : Message} (counted : countPlaceholders (getMessageFormatString message).toList false = 1) :
    TakesOne message := fun _ => by
  rw [MessageArgs.validForMessage,counted]
  rfl

theorem report_total {source : SourceView} {tabSize : UInt8} {e : Expected} (readable : Readable source tabSize e.found)
    (takesOne : TakesOne e.message) : ∃ made, e.report source tabSize = .ok made := by
  obtain ⟨⟨location,located⟩,lexeme,read⟩ := readable
  let messageStr := vformat lexeme (getTokenMessageFormat e.found.kind).toList
  have counted : Reporter.report location e.message [.text messageStr] =
      .ok ⟨location,getDefaultMessageLevel e.message,e.message,[.text messageStr]⟩ := if_pos (takesOne _)
  have made : e.report source tabSize = Reporter.report location e.message [.text messageStr] := by
    rw [Expected.report,located,read]
    rfl
  exact ⟨_,made.trans counted⟩

-- Reports about tokens with `P` only.
def Blames (P : Token → Prop) (log : List Expected) : Prop := ∀ e ∈ log, P e.found ∧ TakesOne e.message

section Blames
variable {P : Token → Prop} {log more : List Expected}

theorem blames_nil : Blames P [] := by simp [Blames]

theorem Blames.append (first : Blames P log) (second : Blames P more) : Blames P (log ++ more) := by
  intro e member
  rcases List.mem_append.mp member with here | there
  · exact first e here
  · exact second e there

theorem blames_one {t : Token} {message : Message} (about : P t)
    (counted : countPlaceholders (getMessageFormatString message).toList false = 1) : Blames P [⟨message,t⟩] := by
  intro e member
  rw [List.mem_singleton.mp member]
  exact ⟨about,takesOne_of counted⟩
end Blames

section Runs
variable {P : Token → Prop}

theorem Consumes.all {ts ts' : List Token} (consumed : Consumes ts ts') (all : ∀ t ∈ ts, P t) : ∀ t ∈ ts', P t := by
  obtain ⟨seg,rfl,_⟩ := consumed
  exact fun t member => all t (List.mem_append_right _ member)

theorem runs_blame {task : Task} {ts ts' : List Token} {r : Reply Form} {log : List Expected}
    (run : Runs task ts r ts' log) (all : ∀ t ∈ ts, P t) : (∀ t ∈ ts', P t) ∧ Blames P log := by
  refine ⟨(runs_consume run).1.all all,?_⟩
  induction run with
  | blockClose | tailsStop | identifier | literal | returnBare | postfixed | callEmpty => exact blames_nil
  | noHead => exact blames_one (all _ List.mem_cons_self) (by decide +kernel)
  | blockNext _ first _ ihFirst ihOthers =>
    exact (ihFirst all).append (ihOthers ((runs_consume first).1.all all))
  | blockRecover _ first skipped _ ihFirst ihOthers =>
    exact (ihFirst all).append (ihOthers ((skip_consumed skipped).all ((runs_consume first).1.all all)))
  | headTails run _ ihRun ihTails | tailsNext _ run _ ihRun ihTails =>
    exact (ihRun all).append (ihTails ((runs_consume run).1.all all))
  | blockEnd _ _ _ ih | statementBlock _ _ ih | statementClosed _ _ _ ih | statementThrown _ _ ih | headThrown _ ih
  | tailsThrown _ _ ih | valuesLast _ _ ih | valuesThrown _ ih => exact ih all
  | statementOpen _ run _ ih =>
    exact (ih all).append (blames_one ((runs_consume run).1.all all _ List.mem_cons_self) (by decide +kernel))
  | brace _ _ ih | prefixed _ _ ih | prefixThrown _ _ ih | returnValues _ _ _ ih | returnThrown _ _ _ ih =>
    exact ih (fun t member => all t (List.mem_cons_of_mem _ member))
  | binary found _ ih | binaryThrown found _ ih => exact ih ((operator_consumed found).1.all all)
  | callClosed _ _ _ _ ih | callThrown _ _ _ ih => exact ih (fun t member => all t (List.mem_cons_of_mem _ member))
  | callOpen _ _ run _ ih =>
    have arguments := fun t member => all t (List.mem_cons_of_mem _ member)
    exact (ih arguments).append (blames_one ((runs_consume run).1.all arguments _ List.mem_cons_self) (by decide +kernel))
  | valuesNext run _ _ ihRun ihOthers | valuesNextThrown run _ _ ihRun ihOthers =>
    have behind := (runs_consume run).1.all all
    exact (ihRun all).append (ihOthers (fun t member => behind t (List.mem_cons_of_mem _ member)))

theorem listed_blame {α : Type} {Item : List Token → Reply α → List Token → List Expected → Prop}
    (item : ∀ {ts r ts' log}, Item ts r ts' log → (∀ t ∈ ts, P t) → (∀ t ∈ ts', P t) ∧ Blames P log)
    {ts ts' : List Token} {r : Reply (List α)} {log : List Expected} (run : Listed Item ts r ts' log)
    (all : ∀ t ∈ ts, P t) : (∀ t ∈ ts', P t) ∧ Blames P log := by
  induction run with
  | last run _ | thrown run => exact item run all
  | next run _ _ ih | nextThrown run _ _ ih =>
    obtain ⟨behind,first⟩ := item run all
    obtain ⟨left,others⟩ := ih (fun t member => behind t (List.mem_cons_of_mem _ member))
    exact ⟨left,first.append others⟩

theorem parameter_blame {ts ts' : List Token} {r : Reply AstFunctionParameter} {log : List Expected}
    (run : ParameterRuns ts r ts' log) (all : ∀ t ∈ ts, P t) : (∀ t ∈ ts', P t) ∧ Blames P log := by
  cases run with
  | named | nameEmpty => exact ⟨fun t member => all t (by simp [member]),blames_nil⟩
  | noName => exact ⟨fun t member => all t (List.mem_cons_of_mem _ member),blames_one (all _ (by simp)) (by decide +kernel)⟩
  | noType => exact ⟨all,blames_one (all _ List.mem_cons_self) (by decide +kernel)⟩

theorem output_blame {ts ts' : List Token} {r : Reply AstFunctionOutput} {log : List Expected}
    (run : OutputRuns ts r ts' log) (all : ∀ t ∈ ts, P t) : (∀ t ∈ ts', P t) ∧ Blames P log := by
  cases run with
  | typed => exact ⟨fun t member => all t (List.mem_cons_of_mem _ member),blames_nil⟩
  | noType => exact ⟨all,blames_one (all _ List.mem_cons_self) (by decide +kernel)⟩

theorem parameters_blame {ts ts' : List Token} {r : Reply (List AstFunctionParameter)} {log : List Expected}
    (run : ParametersRun ts r ts' log) (all : ∀ t ∈ ts, P t) : (∀ t ∈ ts', P t) ∧ Blames P log := by
  cases run with
  | empty => exact ⟨fun t member => all t (List.mem_cons_of_mem _ member),blames_nil⟩
  | closed _ run =>
    obtain ⟨behind,blames⟩ := listed_blame parameter_blame run all
    exact ⟨fun t member => behind t (List.mem_cons_of_mem _ member),blames⟩
  | unclosed _ run =>
    obtain ⟨behind,blames⟩ := listed_blame parameter_blame run all
    exact ⟨behind,blames.append (blames_one (behind _ List.mem_cons_self) (by decide +kernel))⟩
  | thrown _ run => exact listed_blame parameter_blame run all

theorem outputs_blame {ts ts' : List Token} {r : Reply (List AstFunctionOutput)} {log : List Expected}
    (run : OutputsRun ts r ts' log) (all : ∀ t ∈ ts, P t) : (∀ t ∈ ts', P t) ∧ Blames P log := by
  cases run with
  | none => exact ⟨all,blames_nil⟩
  | some _ run => exact listed_blame output_blame run (fun t member => all t (List.mem_cons_of_mem _ member))

theorem function_blame {offset : BitVec sourceSizeBits} {modifier : AccessModifier} {name : Token} {ts ts' : List Token}
    {r : Reply AstDefinition} {log : List Expected} (run : FunctionRuns offset modifier name ts r ts' log)
    (all : ∀ t ∈ ts, P t) : (∀ t ∈ ts', P t) ∧ Blames P log := by
  cases run with
  | noParen => exact ⟨all,blames_one (all _ List.mem_cons_self) (by decide +kernel)⟩
  | parametersThrown _ run => exact parameters_blame run (fun t member => all t (List.mem_cons_of_mem _ member))
  | outputsThrown _ run outputs =>
    obtain ⟨behind,first⟩ := parameters_blame run (fun t member => all t (List.mem_cons_of_mem _ member))
    obtain ⟨left,second⟩ := outputs_blame outputs behind
    exact ⟨left,first.append second⟩
  | noBody _ run outputs =>
    obtain ⟨behind,first⟩ := parameters_blame run (fun t member => all t (List.mem_cons_of_mem _ member))
    obtain ⟨left,second⟩ := outputs_blame outputs behind
    exact ⟨left,(first.append second).append (blames_one (left _ List.mem_cons_self) (by decide +kernel))⟩
  | body _ run outputs _ block =>
    obtain ⟨behind,first⟩ := parameters_blame run (fun t member => all t (List.mem_cons_of_mem _ member))
    obtain ⟨left,second⟩ := outputs_blame outputs behind
    obtain ⟨after,third⟩ := runs_blame block (fun t member => left t (List.mem_cons_of_mem _ member))
    exact ⟨after,(first.append second).append third⟩

theorem definition_blame {ts ts' : List Token} {r : Reply AstDefinition} {log : List Expected}
    (run : DefinitionRuns ts r ts' log) (all : ∀ t ∈ ts, P t) : (∀ t ∈ ts', P t) ∧ Blames P log := by
  have named := (modifier_consumes ts).all all
  cases run with
  | noName after _ =>
    rw [after] at named
    exact ⟨named,blames_one (named _ List.mem_cons_self) (by decide +kernel)⟩
  | function after _ run =>
    rw [after] at named
    exact function_blame run (fun t member => named t (List.mem_cons_of_mem _ member))

theorem file_blame {ts ts' : List Token} {ds : List AstDefinition} {log : List Expected} (file : FileRuns ts ds ts' log)
    (all : ∀ t ∈ ts, P t) : Blames P log := by
  induction file with
  | done => exact blames_nil
  | defined _ run _ ih =>
    obtain ⟨behind,first⟩ := definition_blame run all
    exact first.append (ih behind)
  | recovered more run skipped _ ih =>
    obtain ⟨behind,first⟩ := definition_blame run all
    exact first.append (ih ((skipDefinition_consumes skipped).all behind))
end Runs
end Cero.Parser
