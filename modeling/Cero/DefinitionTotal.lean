import Cero.DefinitionExact

namespace Cero.Parser

theorem listed_total {α : Type} {Item : List Token → Reply α → List Token → List Expected → Prop}
    (total : ∀ {ts}, Terminated ts → ∃ r ts' log, Item ts r ts' log)
    (consumes : ∀ {ts r ts' log}, Item ts r ts' log → Consumes ts ts' ∧ 0 < ts.length) {ts : List Token}
    (ends : Terminated ts) : ∃ r ts' log, Listed Item ts r ts' log := by
  generalize bound : ts.length = m
  induction m using Nat.strongRecOn generalizing ts with
  | _ m ih =>
  subst bound
  obtain ⟨r,ts₁,log₁,run⟩ := total ends
  have consumed := (consumes run).1
  cases r with
  | thrown => exact ⟨_,_,_,.thrown run⟩
  | ok a =>
    obtain ⟨u,rest,rfl⟩ := (ends.consumed consumed).cons
    by_cases comma : u.kind = .comma
    · have shorter := consumed.length
      simp only [List.length_cons] at shorter
      obtain ⟨r,ts₂,log₂,others⟩ := ih rest.length (by omega)
        ((ends.consumed consumed).tail (kind_more comma (by decide))) rfl
      cases r with
      | ok as => exact ⟨_,_,_,.next run comma others⟩
      | thrown => exact ⟨_,_,_,.nextThrown run comma others⟩
    · exact ⟨_,_,_,.last run comma⟩

theorem parameter_total {ts : List Token} (ends : Terminated ts) : ∃ r ts' log, ParameterRuns ts r ts' log := by
  obtain ⟨t,rest,rfl⟩ := ends.cons
  by_cases type : t.kind = .identifier
  · obtain ⟨u,rest,rfl⟩ := (ends.tail (identifier_more type)).cons
    by_cases name : u.kind = .identifier
    · by_cases empty : u.variableLength = 0
      · exact ⟨_,_,_,.nameEmpty type name empty⟩
      · exact ⟨_,_,_,.named type name empty⟩
    · exact ⟨_,_,_,.noName type name⟩
  · exact ⟨_,_,_,.noType type⟩

theorem output_total {ts : List Token} (ends : Terminated ts) : ∃ r ts' log, OutputRuns ts r ts' log := by
  obtain ⟨t,rest,rfl⟩ := ends.cons
  by_cases type : t.kind = .identifier
  · exact ⟨_,_,_,.typed type⟩
  · exact ⟨_,_,_,.noType type⟩

theorem parameters_total {ts : List Token} (ends : Terminated ts) : ∃ r ts' log, ParametersRun ts r ts' log := by
  obtain ⟨t,rest,rfl⟩ := ends.cons
  by_cases close : t.kind = .rParen
  · exact ⟨_,_,_,.empty close⟩
  obtain ⟨r,ts₁,log,run⟩ := listed_total parameter_total parameter_consumes ends
  cases r with
  | thrown => exact ⟨_,_,_,.thrown close run⟩
  | ok ps =>
    obtain ⟨u,rest,rfl⟩ := (ends.consumed (listed_consumes parameter_consumes run)).cons
    by_cases closed : u.kind = .rParen
    · exact ⟨_,_,_,.closed close run closed⟩
    · exact ⟨_,_,_,.unclosed close run closed⟩

theorem outputs_total {ts : List Token} (ends : Terminated ts) : ∃ r ts' log, OutputsRun ts r ts' log := by
  obtain ⟨t,rest,rfl⟩ := ends.cons
  by_cases arrow : t.kind = .thinArrow
  · obtain ⟨r,ts₁,log,run⟩ := listed_total output_total output_consumes (ends.tail (kind_more arrow (by decide)))
    exact ⟨_,_,_,.some arrow run⟩
  · exact ⟨_,_,_,.none arrow⟩

theorem function_total {offset : BitVec sourceSizeBits} {modifier : AccessModifier} {name : Token} {ts : List Token}
    (ends : Terminated ts) : ∃ r ts' log, FunctionRuns offset modifier name ts r ts' log := by
  obtain ⟨t,rest,rfl⟩ := ends.cons
  by_cases paren : t.kind = .lParen
  swap
  · exact ⟨_,_,_,.noParen paren⟩
  have rest_ends := ends.tail (kind_more paren (by decide))
  obtain ⟨r,ts₁,log₁,run⟩ := parameters_total rest_ends
  cases r with
  | thrown => exact ⟨_,_,_,.parametersThrown paren run⟩
  | ok ps =>
    have ends₁ := rest_ends.consumed (parameters_consume run)
    obtain ⟨r,ts₂,log₂,outputs⟩ := outputs_total ends₁
    cases r with
    | thrown => exact ⟨_,_,_,.outputsThrown paren run outputs⟩
    | ok os =>
      have ends₂ := ends₁.consumed (outputs_consume outputs)
      obtain ⟨u,ts₂,rfl⟩ := ends₂.cons
      by_cases brace : u.kind = .lBrace
      · have body : ∃ r ts' log, Runs .block ts₂ r ts' log :=
          runs_total (ends₂.tail (kind_more brace (by decide))) trivial
        obtain ⟨r,ts₃,log₃,block⟩ := body
        obtain ⟨es,rfl⟩ := block_returns block
        exact ⟨_,_,_,.body paren run outputs brace block⟩
      · exact ⟨_,_,_,.noBody paren run outputs brace⟩

theorem definition_total {ts : List Token} (ends : Terminated ts) : ∃ r ts' log, DefinitionRuns ts r ts' log := by
  obtain ⟨t,rest,rfl⟩ := ends.cons
  obtain ⟨u,ts₁,after⟩ := (ends.consumed (modifier_consumes _)).cons
  by_cases name : u.kind = .identifier
  · have header : Consumes (t :: rest) (u :: ts₁) := after ▸ modifier_consumes _
    obtain ⟨r,ts₂,log,run⟩ := function_total ((ends.consumed header).tail (identifier_more name))
    exact ⟨_,_,_,.function after name run⟩
  · exact ⟨_,_,_,.noName after name⟩

theorem file_total {ts : List Token} (ends : Terminated ts) : ∃ ds ts' log, FileRuns ts ds ts' log := by
  generalize bound : ts.length = m
  induction m using Nat.strongRecOn generalizing ts with
  | _ m ih =>
  subst bound
  obtain ⟨t,rest,rfl⟩ := ends.cons
  by_cases atEnd : t.kind = .endOfFile
  · exact ⟨_,_,_,.done atEnd⟩
  obtain ⟨r,ts₁,log₁,run⟩ := definition_total ends
  have ends₁ := ends.consumed (definition_consumes run)
  cases r with
  | ok d =>
    obtain ⟨ds,ts₂,log₂,others⟩ := ih ts₁.length (definition_progress run) ends₁ rfl
    exact ⟨_,_,_,.defined atEnd run others⟩
  | thrown =>
    obtain ⟨ts₂,skipped⟩ := skipDefinition_total ends₁
    have shorter := redefine_progress atEnd (definition_consumes run) skipped
    obtain ⟨ds,ts₃,log₂,others⟩ := ih ts₂.length (by simp only [List.length_cons]; omega)
      (ends₁.consumed (skipDefinition_consumes skipped)) rfl
    exact ⟨_,_,_,.recovered atEnd run skipped others⟩

-- With one end of the file the parser stops on it.
theorem file_whole {front : List Token} {e : Token} (plain : ∀ t ∈ front, t.kind ≠ .endOfFile) (atEnd : e.kind = .endOfFile) :
    ∃ definitions log, FileRuns (front ++ [e]) definitions [e] log := by
  have ends : Terminated (front ++ [e]) := ⟨front,e,rfl,atEnd,plain⟩
  obtain ⟨definitions,ts',log,file⟩ := file_total ends
  obtain ⟨consumed,u,rest,rfl,last⟩ := file_ends file
  have stopped : [e] = u :: rest := by
    obtain rfl := (ends.consumed consumed).last last
    obtain ⟨seg,whole,_⟩ := consumed
    exact (List.append_inj' whole rfl).2
  exact ⟨definitions,log,stopped ▸ file⟩

theorem listed_items {α : Type} {Item : List Token → Reply α → List Token → List Expected → Prop} {P : α → Prop}
    (each : ∀ {ts a ts' log}, Item ts (.ok a) ts' log → P a) {ts ts' : List Token} {r : Reply (List α)}
    {log : List Expected} (run : Listed Item ts r ts' log) : ∀ as, r = .ok as → ∀ a ∈ as, P a := by
  induction run with
  | last run last =>
    rintro as ⟨⟩ a member
    exact List.mem_singleton.mp member ▸ each run
  | next run comma others ih =>
    rintro as ⟨⟩ a member
    rcases List.mem_cons.mp member with rfl | later
    · exact each run
    · exact ih _ rfl a later
  | nextThrown run comma others ih => rintro as ⟨⟩
  | thrown run => rintro as ⟨⟩

-- What holds of plain names and of everything in a block of the file holds of the
-- whole file.
theorem file_expressions {P : AstExpression → Prop} (name : ∀ offset length, P (.ident offset length))
    {ts ts' : List Token} {ds : List AstDefinition} {log : List Expected} (file : FileRuns ts ds ts' log)
    (body : ∀ ts₁ es ts₂ log, ts₁ <:+ ts → Runs .block ts₁ (.ok (.list es)) ts₂ log → ∀ e ∈ es, P e) :
    ∀ d ∈ ds, ∀ e ∈ d.expressions, P e := by
  induction file with
  | done atEnd => simp
  | @recovered t rest ts₁ ts₂ ts₃ ds log₁ log₂ more run skipped others ih =>
    have onward : ts₂ <:+ t :: rest := ((definition_consumes run).trans (skipDefinition_consumes skipped)).suffix
    exact ih fun ts₁ es ts₂ log inside => body ts₁ es ts₂ log (inside.trans onward)
  | @defined t rest ts₁ ts₂ d ds log₁ log₂ more run others ih =>
    have onward : ts₁ <:+ t :: rest := (definition_consumes run).suffix
    intro d member
    rcases List.mem_cons.mp member with rfl | later
    swap
    · exact ih (fun ts₁ es ts₂ log inside => body ts₁ es ts₂ log (inside.trans onward)) d later
    cases run with
    | function after kind run =>
    have header := (after ▸ modifier_consumes (t :: rest)).trans (.one (identifier_more kind))
    cases run with
    | body paren parameters outputs brace block =>
    have opened := header.trans (.cons (kind_more paren (by decide)) (parameters_consume parameters))
    have inside := (opened.trans ((outputs_consume outputs).trans (.one (kind_more brace (by decide))))).suffix
    intro e among
    simp only [AstDefinition.expressions,List.mem_append,List.mem_map] at among
    rcases among with (⟨parameter,among,rfl⟩ | ⟨output,among,rfl⟩) | statement
    · cases parameters with
      | empty close => cases among
      | closed some run close =>
        exact listed_items (P := fun p => P p.type) (fun run => by cases run; exact name _ _) run _ rfl _ among
    · cases outputs with
      | none noArrow => cases among
      | some arrow run =>
        exact listed_items (P := fun o => P o.type) (fun run => by cases run; exact name _ _) run _ rfl _ among
    · exact body _ _ _ _ inside block e statement
end Cero.Parser
