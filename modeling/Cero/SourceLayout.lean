import Cero.Concatenation

-- What the front end makes of a source depends on the kinds and texts of its tokens
-- and on which angles touch, not on how they are laid out.
namespace Cero
open Cero.Parser Lexer Effect

-- The texts of the tokens of a source lie one behind the other.
theorem lexed_apart {source : SourceView} {flags : LexerFlags} {tabSize : UInt8} {us : List Token} {reports : List Report}
    (lexed : runLexer source flags tabSize = .ok (us,reports)) : us.Pairwise (fun s t => ∃ w, s.getText source = .ok w ∧
      0 < w.length ∧ s.offset.toNat + w.length ≤ t.offset.toNat) := by
  by_cases fits : source.text.length ≤ sourceSizeMax
  · obtain ⟨c,early,rfl,there,passed⟩ := lexed_parts lexed fits
    have read := fun (t : Token) (member : t ∈ tokensOf early) => passed.token_read member
    obtain ⟨_,tiles,_,tiled,sound,put,_⟩ := passed
    have before : tiles.Pairwise (fun s t => s.stop ≤ t.start ∧ TileSound ⟨source,flags,tabSize⟩ s ∧
        TileSound ⟨source,flags,tabSize⟩ t ∧ 0 < s.size) :=
      tiled.disjoint.imp_of_mem fun first second order => ⟨order,sound _ first,sound _ second,(tiled.inside _ first).1⟩
    refine List.pairwise_append.mpr ⟨?_,List.pairwise_singleton _ _,?_⟩
    · rw [put]
      refine before.filterMap _ fun s t order u sameU v sameV => ?_
      obtain ⟨order,soundS,soundT,positive⟩ := order
      obtain ⟨_,offset,text⟩ := token_tile soundS sameU
      refine ⟨_,text,?_⟩
      rw [slice_size soundS,offset,(token_tile soundT sameV).2.1]
      exact ⟨positive,order⟩
    · intro t member e last
      obtain ⟨_,w,text,positive,_,_,inside⟩ := read t member
      obtain rfl := List.mem_singleton.mp last
      rw [show (Token.fixed .endOfFile c.offset).offset.toNat = c.offset from offset_exact there .endOfFile 0]
      exact ⟨w,text,positive,inside⟩
  · rw [lexed_large lexed fits]
    exact List.pairwise_singleton _ _

theorem lexed_increasing {source : SourceView} {flags : LexerFlags} {tabSize : UInt8} {us : List Token} {reports : List Report}
    (lexed : runLexer source flags tabSize = .ok (us,reports)) : us.Pairwise (fun s t => s.offset.toNat < t.offset.toNat) :=
  (lexed_apart lexed).imp fun ⟨_,_,positive,behind⟩ => Nat.lt_of_lt_of_le (Nat.lt_add_of_pos_right positive) behind

section Pairing
variable {t u : Token} {ts us : List Token}

-- Each token of the one list goes where its counterpart in the other stands.
def pairing (ts us : List Token) : Layout where
  place offset := (((ts.zip us).find? (·.1.offset = offset)).map (·.2.offset)).getD 0
  size offset _ := (((ts.zip us).find? (·.1.offset = offset)).map (·.2.variableLength)).getD 0

theorem pairing_first (same : t.kind = u.kind) : (pairing (t :: ts) (u :: us)).token t = u := by
  obtain ⟨kind,offset,length⟩ := u
  obtain rfl := same
  simp [pairing,Layout.token]

theorem pairing_other {v : Token} (apart : t.offset ≠ v.offset) :
    (pairing (t :: ts) (u :: us)).token v = (pairing ts us).token v := by
  simp [pairing,Layout.token,apart]

theorem pairing_takes (distinct : ts.Pairwise (·.offset ≠ ·.offset)) (kinds : List.Forall₂ (·.kind = ·.kind) ts us) :
    ts.map (pairing ts us).token = us := by
  induction kinds with
  | nil => rfl
  | @cons t u ts us same kinds ih =>
    obtain ⟨apart,distinct⟩ := List.pairwise_cons.mp distinct
    rw [List.map_cons,pairing_first same]
    refine congrArg (u :: ·) (Eq.trans ?_ (ih distinct))
    exact List.map_congr_left fun v member => pairing_other (apart v member)

-- For each two neighbours whether they are angles that touch.
def touching : List Token → List Bool
  | t :: u :: rest => (t.kind = .rAngle && adjacentAngle t u) :: touching (u :: rest)
  | _ => []

theorem touching_keeps {l : Layout} (same : touching (ts.map l.token) = touching ts) : ts.IsChain l.KeepsAngles := by
  induction ts with
  | nil => exact .nil
  | cons t rest ih =>
    cases rest with
    | nil => exact .singleton t
    | cons u rest =>
      obtain ⟨first,others⟩ := List.cons.inj same
      refine .cons_cons (fun angle => ?_) (ih others)
      rw [Layout.token_kind,angle] at first
      simpa using first
end Pairing

-- Two tokens that only their places tell apart.
structure Counterparts (source source' : SourceView) (t u : Token) : Prop where
  kind : t.kind = u.kind
  text : t.getText source = u.getText source'

-- Two reports that say the same, each about one of two counterparts.
structure SameReport (l : Layout) (source source' : SourceView) (tabSize tabSize' : UInt8) (ts : List Token) (r r' : Report) : Prop where
  level : r.level = r'.level
  message : r.message = r'.message
  args : r.args = r'.args
  about : ∃ t ∈ ts, t.locateIn source tabSize = .ok r.location ∧ (l.token t).locateIn source' tabSize' = .ok r'.location

section Sources
variable {source source' : SourceView} {tabSize tabSize' : UInt8} {ts us : List Token} {lexical lexical' : List Report} {l : Layout}

theorem report_parts {e : Expected} {r : Report} (made : e.report source tabSize = .ok r) : ∃ location lexeme,
    e.found.locateIn source tabSize = .ok location ∧ e.found.getText source = .ok lexeme ∧
      r = ⟨location,getDefaultMessageLevel e.message,e.message,[.text (vformat lexeme (getTokenMessageFormat e.found.kind).toList)]⟩ := by
  unfold Expected.report at made
  cases located : e.found.locateIn source tabSize with
  | error fault => rw [located] at made; cases made
  | ok location =>
    cases read : e.found.getText source with
    | error fault => rw [located,read] at made; cases made
    | ok lexeme =>
      rw [located,read] at made
      simp only [bind,Except.bind] at made
      unfold Reporter.report at made
      split at made
      · cases made
        exact ⟨location,lexeme,rfl,rfl,rfl⟩
      · cases made

theorem same_report {e : Expected} {r r' : Report} (member : e.found ∈ ts)
    (text : (l.token e.found).getText source' = e.found.getText source) (made : e.report source tabSize = .ok r)
    (made' : (l.expected e).report source' tabSize' = .ok r') : SameReport l source source' tabSize tabSize' ts r r' := by
  obtain ⟨location,lexeme,located,read,rfl⟩ := report_parts made
  obtain ⟨location',lexeme',located',read',rfl⟩ := report_parts made'
  obtain ⟨⟩ := read'.symm.trans (text.trans read)
  exact ⟨rfl,rfl,rfl,e.found,member,located,located'⟩

theorem mapM_all {α β : Type} {f : α → Except Fault β} {as : List α} {bs : List β} (mapped : as.mapM f = .ok bs) :
    List.Forall₂ (fun a b => f a = .ok b) as bs := by
  induction as generalizing bs with
  | nil =>
    cases mapped
    exact .nil
  | cons a as ih =>
    rw [List.mapM_cons] at mapped
    cases first : f a with
    | error fault => rw [first] at mapped; cases mapped
    | ok b =>
      cases others : as.mapM f with
      | error fault => rw [first,others] at mapped; cases mapped
      | ok bs =>
        rw [first,others] at mapped
        cases mapped
        exact .cons first (ih others)

theorem forall₂_member {α β : Type} {R : α → β → Prop} {as : List α} {bs : List β} (all : List.Forall₂ R as bs) {a : α}
    (member : a ∈ as) : ∃ b ∈ bs, R a b := by
  induction all with
  | nil => cases member
  | cons first others ih =>
    rcases List.mem_cons.mp member with rfl | there
    · exact ⟨_,List.mem_cons_self,first⟩
    · obtain ⟨b,among,related⟩ := ih there
      exact ⟨b,List.mem_cons_of_mem _ among,related⟩

theorem mapM_pairs {α β γ : Type} {f : α → Except Fault β} {f' : γ → Except Fault β} {g : α → γ} {as : List α} {bs cs : List β}
    {R : β → β → Prop} (mapped : as.mapM f = .ok bs) (mapped' : (as.map g).mapM f' = .ok cs)
    (each : ∀ a ∈ as, ∀ b c, f a = .ok b → f' (g a) = .ok c → R b c) : List.Forall₂ R bs cs := by
  have left := mapM_all mapped
  have right := List.forall₂_map_left_iff.mp (mapM_all mapped')
  clear mapped mapped'
  induction left generalizing cs with
  | nil =>
    cases right
    exact .nil
  | @cons a b as bs first others ih =>
    cases right with
    | cons second others' =>
      exact .cons (each a List.mem_cons_self b _ first second) (ih (fun a member => each a (List.mem_cons_of_mem _ member)) others')

theorem counterpart_of (alike : List.Forall₂ (Counterparts source source') ts us) (taken : ts.map l.token = us) :
    ∀ t ∈ ts, Counterparts source source' t (l.token t) := by
  subst taken
  exact List.forall₂_same.mp (List.forall₂_map_right_iff.mp alike)

-- Two sources with the same tokens, whatever stands between them.
theorem front_end_layout (lexed : runLexer source .none tabSize = .ok (ts,lexical)) (lexed' : runLexer source' .none tabSize' = .ok (us,lexical'))
    (alike : List.Forall₂ (Counterparts source source') ts us) (angles : touching us = touching ts) :
    ∃ (l : Layout) (ds : List AstDefinition) (syntactic syntactic' : List Report), ts.map l.token = us ∧
      lexAndParse source tabSize = .ok (.ok ds,lexical ++ syntactic) ∧
        lexAndParse source' tabSize' = .ok (.ok (ds.map l.definition),lexical' ++ syntactic') ∧
          List.Forall₂ (SameReport l source source' tabSize tabSize' ts) syntactic syntactic' := by
  let l := pairing ts us
  have distinct : ts.Pairwise (·.offset ≠ ·.offset) :=
    (lexed_increasing lexed).imp fun {s t} less same => absurd less (by rw [same]; exact Nat.lt_irrefl _)
  have taken : ts.map l.token = us := pairing_takes distinct (alike.imp fun _ _ same => same.kind)
  have each := counterpart_of alike taken
  obtain ⟨ds,_,log,syntactic,_,named,file,delivered,whole⟩ := parsed_file lexed
  obtain ⟨ds',_,log',syntactic',_,named',file',delivered',whole'⟩ := parsed_file lexed'
  have keeps : l.Keeps ts := by
    refine ⟨fun t member identifier => ?_,touching_keeps (by rw [taken]; exact angles)⟩
    have long := named t member identifier
    have among : l.token t ∈ us := taken ▸ List.mem_map_of_mem member
    have long' := named' (l.token t) among identifier
    exact ⟨fun none_ => absurd none_ (Nat.ne_of_gt long'),fun none_ => absurd none_ (Nat.ne_of_gt long)⟩
  have moved := file_moved keeps file
  rw [taken] at moved
  obtain ⟨⟩ := (runParser_exact.mpr ⟨_,rfl,moved⟩).symm.trans (runParser_exact.mpr ⟨_,rfl,file'⟩)
  refine ⟨l,ds,syntactic,syntactic',taken,whole,whole',mapM_pairs delivered delivered' fun e member r r' made made' => ?_⟩
  have among := (file_blame file (P := (· ∈ ts)) (fun _ => id) e member).1
  exact same_report among (each e.found among).text.symm made made'
end Sources

instance (source source' : SourceView) (t u : Token) : Decidable (Counterparts source source' t u) :=
  decidable_of_iff (t.kind = u.kind ∧ t.getText source = u.getText source')
    ⟨fun ⟨kind,text⟩ => ⟨kind,text⟩,fun same => ⟨same.kind,same.text⟩⟩

def narrow : SourceView := ⟨text "f()\x7ba>>b",""⟩
def broad : SourceView := ⟨text "f ( )/*'*/\x7b" ++ ch '\n' :: text " a>> b ",""⟩

def narrowTokens : List Token :=
  [⟨.identifier,0,1⟩,⟨.lParen,1,0⟩,⟨.rParen,2,0⟩,⟨.lBrace,3,0⟩,⟨.identifier,4,1⟩,⟨.rAngle,5,0⟩,⟨.rAngle,6,0⟩,⟨.identifier,7,1⟩,
    ⟨.endOfFile,8,0⟩]

def broadTokens : List Token :=
  [⟨.identifier,0,1⟩,⟨.lParen,2,0⟩,⟨.rParen,4,0⟩,⟨.lBrace,10,0⟩,⟨.identifier,13,1⟩,⟨.rAngle,14,0⟩,⟨.rAngle,15,0⟩,⟨.identifier,17,1⟩,
    ⟨.endOfFile,19,0⟩]

theorem front_end_layout_spaced : ∃ (l : Layout) (ds : List AstDefinition) (syntactic syntactic' : List Report),
    narrowTokens.map l.token = broadTokens ∧ lexAndParse narrow 4 = .ok (.ok ds,[] ++ syntactic) ∧
      lexAndParse broad 4 = .ok (.ok (ds.map l.definition),[] ++ syntactic') ∧
        List.Forall₂ (SameReport l narrow broad 4 4 narrowTokens) syntactic syntactic' :=
  front_end_layout (by decide +kernel) (by decide +kernel) (by decide +kernel) (by decide +kernel)
end Cero
