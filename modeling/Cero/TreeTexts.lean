import Cero.ParserRepair
import Cero.SourceLayout

-- The texts that a tree stands for, whether or not the source had errors in it.
namespace Cero
open Cero.Parser Lexer Effect

def AstName.get (name : AstName) (sourceText : Bytes) : Except Fault Bytes := substr sourceText name.offset name.length

-- A name, an identifier or a literal of a tree.
structure Leaf where
  kind : TokenKind
  offset : Nat
  length : Nat
  deriving DecidableEq

-- `get` of the identifier and of the literal nodes, and of a name.
def Leaf.get (leaf : Leaf) (sourceText : Bytes) : Except Fault Bytes := substr sourceText leaf.offset leaf.length

def Token.leaf (t : Token) : Leaf := ⟨t.kind,t.offset.toNat,t.variableLength⟩

def Piece.leaf : Piece → Option Leaf
  | .text kind offset length => some ⟨kind,offset,length⟩
  | _ => none

def leavesOf (ps : List Piece) : List Leaf := ps.filterMap Piece.leaf

-- All of them in the order of the source.
def leaves (definitions : List AstDefinition) : List Leaf := leavesOf (flattenFile definitions)

theorem spelled_leaves {ps : List Piece} {ts : List Token} (spelled : Spells Eq ps ts) :
    (leavesOf ps).Sublist (ts.map Token.leaf) := by
  induction spelled with
  | nil => exact .slnil
  | fixed same rest ih => exact ih.cons _
  | @text kind offset length t ps ts same place long rest ih =>
    have leaf : Token.leaf t = ⟨kind,offset,length⟩ := by rw [Token.leaf,same,← place,long]
    rw [List.map_cons,leaf]
    exact ih.cons_cons _
  | shr first second adjacent rest ih => exact (ih.cons _).cons _

-- The kinds that stand for their text.
def isWord : TokenKind → Bool
  | .identifier | .decIntLiteral | .hexIntLiteral | .binIntLiteral | .octIntLiteral | .floatLiteral | .charLiteral
  | .stringLiteral => true
  | _ => false

def wordy : Piece → Bool
  | .text kind _ _ => isWord kind
  | _ => true

section Wordy
theorem commaSeparated_wordy {α : Type} {item : α → List Piece} {as : List α} (each : ∀ a ∈ as, (item a).all wordy = true) :
    (commaSeparated item as).all wordy = true := by
  cases as with
  | nil => rfl
  | cons a as =>
    rw [commaSeparated,List.all_append,each a List.mem_cons_self,List.all_flatMap,Bool.true_and,List.all_eq_true]
    exact fun b member => each b (List.mem_cons_of_mem _ member)

theorem statements_wordy {es : List AstExpression} (each : ∀ e ∈ es, (flatten e).all wordy = true) :
    (flattenStatements es).all wordy = true := by
  induction es with
  | nil => rfl
  | cons e es ih =>
    have first := each e List.mem_cons_self
    have others := ih fun e member => each e (List.mem_cons_of_mem _ member)
    have closing : (if isBlock e then [] else [Piece.fixed .semicolon]).all wordy = true := by split <;> rfl
    rw [flattenStatements,List.all_append,List.all_append,first,closing,others]
    rfl

theorem flatten_wordy (e : AstExpression) : (flatten e).all wordy = true := by
  induction e using AstExpression.induct with
  | ident offset length => rfl
  | literal offset kind length => cases kind <;> rfl
  | block offset es ih => simp [flatten,statements_wordy ih,wordy]
  | return_ offset es ih => simp [flatten_return,flatten_values,commaSeparated_wordy ih,wordy]
  | unary offset op e ih => cases op <;> simp [flatten,isPrefixOperator,ih,wordy]
  | binary offset op left right ihl ihr => cases op <;> simp [flatten,binaryPiece,ihl,ihr,wordy]
  | call offset callee es ih ihs => simp [flatten_call,flatten_values,ih,commaSeparated_wordy ihs,wordy]

theorem definition_wordy (d : AstDefinition) : (flattenDefinition d).all wordy = true := by
  have modifier : (flattenModifier d.accessModifier).all wordy = true := by cases d.accessModifier <;> rfl
  have parameters : (commaSeparated flattenParameter d.parameters).all wordy = true :=
    commaSeparated_wordy fun p _ => by simp [flattenParameter,flatten_wordy,flattenName,wordy,isWord]
  have outputs : (flattenOutputs d.outputs).all wordy = true := by
    have each : (commaSeparated flattenOutput d.outputs).all wordy = true := commaSeparated_wordy fun o _ => flatten_wordy o.type
    cases same : d.outputs with
    | nil => rfl
    | cons o os =>
      rw [same] at each
      exact each
  have statements : (flattenStatements d.statements).all wordy = true := statements_wordy fun e _ => flatten_wordy e
  simp [flattenDefinition,modifier,parameters,outputs,statements,flattenName,wordy,isWord]

theorem leaf_word {definitions : List AstDefinition} {leaf : Leaf} (member : leaf ∈ leaves definitions) : isWord leaf.kind = true := by
  obtain ⟨p,among,same⟩ := List.mem_filterMap.mp member
  obtain ⟨d,_,inside⟩ := List.mem_flatMap.mp among
  have each := List.all_eq_true.mp (definition_wordy d) p inside
  cases p with
  | text kind offset length =>
    obtain rfl := Option.some.inj same
    exact each
  | fixed => cases same
  | shr => cases same
end Wordy

section Source
variable {source : SourceView} {tabSize : UInt8} {tokens : List Token} {lexical : List Report}

-- Braces that were added do not stand for any text.
theorem mended_leaves {ds : List AstDefinition} {kept : List Token} {close : Token} {k : Nat} (closes : close.kind = .rBrace)
    (spelled : Spells Eq (flattenFile ds) (kept ++ List.replicate k close)) :
    ∃ us : List Token, us.Sublist kept ∧ leaves ds = us.map Token.leaf := by
  have among := spelled_leaves spelled
  rw [List.map_append,List.map_replicate] at among
  obtain ⟨ls,ms,whole,first,second⟩ := List.sublist_append_iff.mp among
  obtain rfl : ms = [] := by
    cases ms with
    | nil => rfl
    | cons m ms =>
      have brace := List.eq_of_mem_replicate (second.subset List.mem_cons_self)
      have word : isWord m.kind = true := leaf_word (show m ∈ leaves ds by rw [leaves,whole]; simp)
      rw [brace,Token.leaf,closes] at word
      cases word
  obtain ⟨us,sub,rfl⟩ := List.sublist_map_iff.mp first
  exact ⟨us,sub,by rw [leaves,whole,List.append_nil]⟩

-- With errors or without, the leaves of the trees are tokens.
theorem file_leaves {front ts' : List Token} {e : Token} {ds : List AstDefinition} {log : List Expected}
    (plain : ∀ t ∈ front, t.kind ≠ .endOfFile) (atEnd : e.kind = .endOfFile) (named : Named (front ++ [e]))
    (file : FileRuns (front ++ [e]) ds ts' log) : ∃ kept : List Token, kept.Sublist front ∧ leaves ds = kept.map Token.leaf := by
  have brace : (Token.fixed .rBrace 0).kind = .rBrace := rfl
  obtain ⟨ds',log',kept,k,file',among,_,mended⟩ := file_repaired plain atEnd brace
  obtain ⟨⟩ := (runParser_exact.mpr ⟨_,rfl,file⟩).symm.trans (runParser_exact.mpr ⟨_,rfl,file'⟩)
  have others : ∀ t ∈ kept ++ List.replicate k (.fixed .rBrace 0), t ∈ front ∨ t = .fixed .rBrace 0 := fun t member =>
    (List.mem_append.mp member).imp (fun inside => among.subset inside) List.eq_of_mem_replicate
  have ends : Terminated (kept ++ List.replicate k (.fixed .rBrace 0) ++ [e]) := by
    refine ⟨_,e,rfl,atEnd,fun t member => ?_⟩
    rcases others t member with inside | rfl
    · exact plain t inside
    · decide
  have named' : Named (kept ++ List.replicate k (.fixed .rBrace 0) ++ [e]) := by
    intro t member kind
    rcases List.mem_append.mp member with inside | last
    · rcases others t inside with there | rfl
      · exact named t (List.mem_append_left _ there) kind
      · cases kind
    · rw [List.mem_singleton.mp last,atEnd] at kind
      cases kind
  obtain ⟨_,_,same,_,spelled⟩ := file_flattens ends named' mended
  obtain ⟨rfl,_⟩ := List.append_inj' same rfl
  obtain ⟨us,sub,same⟩ := mended_leaves rfl spelled
  exact ⟨us,sub.trans among,same⟩

-- The token that a leaf stands for.
def Reads (source : SourceView) (leaf : Leaf) (t : Token) : Prop :=
  leaf = t.leaf ∧ ∃ w, w ≠ [] ∧ leaf.get source.text = .ok w ∧ t.getText source = .ok w

theorem word_fixed {kind : TokenKind} (word : isWord kind = true) : fixedText kind = none := by
  cases kind <;> first | rfl | cases word

theorem word_reads {t : Token} (word : isWord t.kind = true) (notEmpty : ∃ w, t.getText source = .ok w ∧ 0 < w.length) :
    Reads source t.leaf t := by
  obtain ⟨w,read,positive⟩ := notEmpty
  refine ⟨rfl,w,List.ne_nil_of_length_pos positive,?_,read⟩
  rw [Token.getText,word_fixed word] at read
  split at read
  · exact read
  · cases read

-- A token in front of the end of the file has a text.
theorem lexed_text {front : List Token} {e t : Token} (lexed : runLexer source .none tabSize = .ok (front ++ [e],lexical))
    (member : t ∈ front) : ∃ w, t.getText source = .ok w ∧ 0 < w.length := by
  obtain ⟨w,text,positive,_⟩ := (List.pairwise_append.mp (lexed_apart lexed)).2.2 t member e List.mem_cons_self
  exact ⟨w,text,positive⟩

-- Whatever is wrong with a source, the names and literals of its tree are tokens of it,
-- each at most once and in their order, and read as these.
theorem tree_reads (source : SourceView) (tabSize : UInt8) : ∃ front e lexical ds reports kept,
    runLexer source .none tabSize = .ok (front ++ [e],lexical) ∧ lexAndParse source tabSize = .ok (.ok ds,reports) ∧
      kept.Sublist front ∧ List.Forall₂ (Reads source) (leaves ds) kept ∧
        kept.Pairwise (fun s t => ∃ w, s.getText source = .ok w ∧ s.offset.toNat + w.length ≤ t.offset.toNat) := by
  obtain ⟨tokens,lexical,lexed,_⟩ := lexer_total source .none tabSize
  obtain ⟨ds,ts',log,syntactic,⟨front,e,rfl,atEnd,plain⟩,named,file,_,whole⟩ := parsed_file lexed
  obtain ⟨kept,among,same⟩ := file_leaves plain atEnd named file
  refine ⟨front,e,lexical,ds,_,kept,lexed,whole,among,?_,?_⟩
  · rw [same,List.forall₂_map_left_iff,List.forall₂_same]
    intro t member
    have word : isWord t.kind = true := leaf_word (show t.leaf ∈ leaves ds by rw [same]; exact List.mem_map_of_mem member)
    exact word_reads word (lexed_text lexed (among.subset member))
  · have apart := (List.pairwise_append.mp (lexed_apart lexed)).1.sublist among
    exact apart.imp fun ⟨w,text,_,behind⟩ => ⟨w,text,behind⟩
end Source
end Cero
