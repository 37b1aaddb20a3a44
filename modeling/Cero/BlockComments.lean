import Mathlib.Logic.Relation
import Cero.Library.Nesting
import Cero.LexerScanners

-- Block comments, as the delimiters and the single bytes that a scan from left to
-- right cuts a text into.
namespace Cero.Lexer
open Effect SourceCursor

inductive Piece where
  | opening | closing
  | single (b : UInt8)
  deriving DecidableEq, Repr

def Piece.bytes : Piece → Bytes
  | .opening => [ch '/',ch '*']
  | .closing => [ch '*',ch '/']
  | .single b => [b]

def Piece.change : Piece → Int
  | .opening => 1
  | .closing => -1
  | .single _ => 0

def pieces : Bytes → List Piece
  | [] => []
  | [b] => [.single b]
  | a :: b :: rest =>
    if a = ch '/' ∧ b = ch '*' then .opening :: pieces rest
    else if a = ch '*' ∧ b = ch '/' then .closing :: pieces rest
    else .single a :: pieces (b :: rest)

def spelled (read : List Piece) : Bytes := read.flatMap Piece.bytes

-- The depth behind what has been read of a comment.
def depth (read : List Piece) : Int := 1 + Nesting.height Piece.change read

-- A single byte that begins no delimiter together with what follows it.
def Alone (b : UInt8) (t : Bytes) : Prop :=
  (b = ch '/' → front ⟨0,t⟩ ≠ ch '*' ∨ t = []) ∧ (b = ch '*' → front ⟨0,t⟩ ≠ ch '/' ∨ t = [])

def Piece.Begins (t : Bytes) : Piece → Prop
  | .single b => Alone b t
  | _ => True

section Pieces
variable {a b : UInt8} {t : Bytes} {p : Piece} {read ps : List Piece}

@[simp] theorem spelled_nil : spelled [] = [] := rfl
@[simp] theorem spelled_cons : spelled (p :: read) = p.bytes ++ spelled read := rfl
@[simp] theorem spelled_append : spelled (read ++ ps) = spelled read ++ spelled ps := List.flatMap_append

theorem bytes_some (p : Piece) : p.bytes ≠ [] := by
  cases p <;> exact List.cons_ne_nil _ _

-- A piece in front of a text is the first one that is cut off.
theorem pieces_begins (begins : p.Begins t) : pieces (p.bytes ++ t) = p :: pieces t := by
  cases p with
  | opening => rfl
  | closing => rfl
  | single b =>
      cases t with
      | nil => rfl
      | cons c t =>
          have notOpen : ¬ (b = ch '/' ∧ c = ch '*') := fun opens => (begins.1 opens.1).elim (· opens.2) (List.cons_ne_nil _ _)
          have notClose : ¬ (b = ch '*' ∧ c = ch '/') := fun closes => (begins.2 closes.1).elim (· closes.2) (List.cons_ne_nil _ _)
          show pieces (b :: c :: t) = _
          rw [pieces,if_neg notOpen,if_neg notClose]

theorem pieces_cases (t : Bytes) : t = [] ∨ ∃ (p : Piece) (t' : Bytes), t = p.bytes ++ t' ∧ p.Begins t' := by
  rcases t with _ | ⟨a,_ | ⟨b,t⟩⟩
  · exact .inl rfl
  · exact .inr ⟨.single a,[],rfl,fun _ => .inr rfl,fun _ => .inr rfl⟩
  · right
    by_cases opens : a = ch '/' ∧ b = ch '*'
    · obtain ⟨rfl,rfl⟩ := opens
      exact ⟨.opening,t,rfl,trivial⟩
    by_cases closes : a = ch '*' ∧ b = ch '/'
    · obtain ⟨rfl,rfl⟩ := closes
      exact ⟨.closing,t,rfl,trivial⟩
    · exact ⟨.single a,b :: t,rfl,fun slash => .inl fun same => opens ⟨slash,same⟩,fun star => .inl fun same => closes ⟨star,same⟩⟩

theorem spelled_pieces (t : Bytes) : spelled (pieces t) = t := by
  induction size : t.length using Nat.strongRecOn generalizing t with
  | ind size ih =>
      rcases pieces_cases t with rfl | ⟨p,t',rfl,begins⟩
      · rfl
      · have positive := List.length_pos_iff.mpr (bytes_some p)
        rw [List.length_append] at size
        rw [pieces_begins begins,spelled_cons,ih t'.length (by omega) t' rfl]
end Pieces

section Rounds
variable {o : Nat} {unclosedCount : UInt32} {b : UInt8} {t : Bytes} {p : Piece}

-- What a round makes of the counter on a piece.
def counted (unclosedCount : UInt32) : Piece → UInt32 ⊕ Bool
  | .opening => .inl (unclosedCount+1)
  | .closing => if unclosedCount - 1 = 0 then .inr true else .inl (unclosedCount-1)
  | .single _ => .inl unclosedCount

theorem blockRound_closing : blockCommentRound unclosedCount ⟨o,ch '*' :: ch '/' :: t⟩ =
    .ok ⟨.ok (if unclosedCount - 1 = 0 then .inr true else .inl (unclosedCount-1)),⟨o+1+1,t⟩,[]⟩ := by
  rw [blockCommentRound,bind_ok valid_run,if_neg (by simp),bind_ok matchChar_same,if_pos rfl,bind_ok matchChar_same,if_pos rfl]
  split <;> rfl

theorem blockRound_opening : blockCommentRound unclosedCount ⟨o,ch '/' :: ch '*' :: t⟩ =
    .ok ⟨.ok (.inl (unclosedCount+1)),⟨o+1+1,t⟩,[]⟩ := by
  rw [blockCommentRound,bind_ok valid_run,if_neg (by simp),bind_ok (matchChar_not (show ch '/' ≠ ch '*' by decide)),
    if_neg Bool.false_ne_true,bind_ok matchChar_same,if_pos rfl,bind_ok matchChar_same,if_pos rfl]
  rfl

-- The byte may be a null byte: only the end of the source stops this loop.
theorem blockRound_single (alone : Alone b t) :
    blockCommentRound unclosedCount ⟨o,b :: t⟩ = .ok ⟨.ok (.inl unclosedCount),⟨o+1,t⟩,[]⟩ := by
  rw [blockCommentRound,bind_ok valid_run,if_neg (by simp)]
  by_cases star : b = ch '*'
  · subst star
    have other : (matchChar (ch '/') : Lexer Bool) ⟨o+1,t⟩ = .ok ⟨.ok false,⟨o+1,t⟩,[]⟩ := matchChar_other (alone.2 rfl)
    rw [bind_ok matchChar_same,if_pos rfl,bind_ok other,if_neg Bool.false_ne_true]
    rfl
  rw [bind_ok (matchChar_not star),if_neg Bool.false_ne_true]
  by_cases slash : b = ch '/'
  · subst slash
    have other : (matchChar (ch '*') : Lexer Bool) ⟨o+1,t⟩ = .ok ⟨.ok false,⟨o+1,t⟩,[]⟩ := matchChar_other (alone.1 rfl)
    rw [bind_ok matchChar_same,if_pos rfl,bind_ok other,if_neg Bool.false_ne_true]
    rfl
  · rw [bind_ok (matchChar_not slash),if_neg Bool.false_ne_true,bind_ok advance_run]
    rfl

theorem blockRound_piece (begins : p.Begins t) : blockCommentRound unclosedCount ⟨o,p.bytes ++ t⟩ =
    .ok ⟨.ok (counted unclosedCount p),⟨o+p.bytes.length,t⟩,[]⟩ := by
  cases p with
  | opening => exact blockRound_opening
  | closing => exact blockRound_closing
  | single b => exact blockRound_single begins

-- The counter is the depth, and the bytes that are left cannot make it wrap.
structure Counts (unclosedCount : UInt32) (d : Int) (t : Bytes) : Prop where
  count : (unclosedCount.toNat : Int) = d
  positive : 0 < d
  room : d + t.length < 2 ^ 32

theorem Counts.start (fits : t.length ≤ sourceSizeMax) : Counts 1 1 t := by
  have room : 1 + sourceSizeMax < 2 ^ 32 := by decide
  exact ⟨rfl,by decide,by omega⟩

theorem increment {n : UInt32} (room : n.toNat + 1 < 2 ^ 32) : (n+1).toNat = n.toNat + 1 := by
  rw [UInt32.toNat_add]
  exact Nat.mod_eq_of_lt room

theorem decrement {n : UInt32} (positive : 0 < n.toNat) : (n-1).toNat = n.toNat - 1 :=
  UInt32.toNat_sub_of_le _ _ (UInt32.le_iff_toNat_le.mpr positive)

-- A round either closes the comment or goes on with the depth behind the piece.
theorem counted_cases {d : Int} (counts : Counts unclosedCount d (p.bytes ++ t)) :
    (counted unclosedCount p = .inr true ∧ d + p.change = 0) ∨
      ∃ next, counted unclosedCount p = .inl next ∧ Counts next (d + p.change) t := by
  obtain ⟨count,positive,room⟩ := counts
  rw [List.length_append] at room
  cases p with
  | opening =>
      have size : Piece.opening.bytes.length = 2 := rfl
      have change : Piece.opening.change = 1 := rfl
      rw [size] at room
      have next := increment (n := unclosedCount) (by omega)
      rw [change]
      exact .inr ⟨_,rfl,by omega,by omega,by omega⟩
  | closing =>
      have size : Piece.closing.bytes.length = 2 := rfl
      have change : Piece.closing.change = -1 := rfl
      have less := decrement (n := unclosedCount) (by omega)
      rw [size] at room
      rw [change]
      by_cases last : unclosedCount - 1 = 0
      · have zero : (unclosedCount-1).toNat = 0 := by
          rw [last]
          rfl
        exact .inl ⟨if_pos last,by omega⟩
      · have some_ : (unclosedCount-1).toNat ≠ 0 := fun zero => last (UInt32.toNat_inj.mp zero)
        exact .inr ⟨_,if_neg last,by omega,by omega,by omega⟩
  | single b =>
      have change : (Piece.single b).change = 0 := rfl
      rw [change,Int.add_zero]
      exact .inr ⟨_,rfl,count,positive,by omega⟩
end Rounds

section Loops
variable {o : Nat} {unclosedCount : UInt32} {t : Bytes} {d : Int} {p : Piece} {read rest ps : List Piece}

theorem pieces_cons (cut : pieces t = p :: ps) : ∃ t', t = p.bytes ++ t' ∧ p.Begins t' ∧ pieces t' = ps := by
  rcases pieces_cases t with rfl | ⟨q,t',rfl,begins⟩
  · cases cut
  · rw [pieces_begins begins] at cut
    obtain ⟨rfl,rest⟩ := List.cons.inj cut
    exact ⟨t',rfl,begins,rest⟩

theorem piece_shorter (p : Piece) (t : Bytes) : t.length < (p.bytes ++ t).length := by
  have positive := List.length_pos_iff.mpr (bytes_some p)
  rw [List.length_append]
  omega

-- The loop stops right behind the piece that brings the depth to zero.
theorem loop_closes (cut : pieces t = read ++ rest) (first : Nesting.FirstZero Piece.change d read) (counts : Counts unclosedCount d t) :
    loop blockCommentRound unclosedCount ⟨o,t⟩ = .ok ⟨.ok true,⟨o+(spelled read).length,spelled rest⟩,[]⟩ := by
  induction read generalizing d t unclosedCount o with
  | nil =>
      have zero := first.zero
      have positive := counts.positive
      rw [Nesting.height_nil] at zero
      omega
  | cons p read ih =>
      obtain ⟨t,rfl,begins,behind⟩ := pieces_cons cut
      have round : blockCommentRound unclosedCount ⟨o,p.bytes ++ t⟩ = _ := blockRound_piece begins
      rcases counted_cases counts with ⟨closed,zero⟩ | ⟨next,goes,counts⟩
      · have last := first.cons.2
        rw [zero] at last
        obtain rfl := last.nil_of_zero
        obtain rfl : pieces t = rest := behind
        rw [closed] at round
        rw [spelled_cons,spelled_nil,List.append_nil,spelled_pieces]
        exact loop_leave round
      · rw [goes] at round
        have again := loop_again round (piece_shorter p t) (ih (o := o+p.bytes.length) behind first.cons.2 counts)
        rw [spelled_cons,List.length_append,← Nat.add_assoc]
        exact again

theorem loop_open (never : Nesting.NeverZero Piece.change d (pieces t)) (counts : Counts unclosedCount d t) :
    loop blockCommentRound unclosedCount ⟨o,t⟩ = .ok ⟨.ok false,⟨o+t.length,[]⟩,[]⟩ := by
  induction cut : pieces t generalizing d t unclosedCount o with
  | nil =>
      have none_ := spelled_pieces t
      rw [cut] at none_
      subst none_
      exact loop_leave rfl
  | cons p ps ih =>
      obtain ⟨t,rfl,begins,rfl⟩ := pieces_cons cut
      have round : blockCommentRound unclosedCount ⟨o,p.bytes ++ t⟩ = _ := blockRound_piece begins
      rw [cut] at never
      rcases counted_cases counts with ⟨_,zero⟩ | ⟨next,goes,counts⟩
      · have never' := never.cons.2 [] List.nil_prefix
        rw [Nesting.height_nil,Int.add_zero] at never'
        exact absurd zero never'
      · rw [goes] at round
        have again := loop_again round (piece_shorter p t) (ih (o := o+p.bytes.length) never.cons.2 counts rfl)
        rw [List.length_append,← Nat.add_assoc]
        exact again

-- One round that goes on.
def Round (s s' : UInt32 × SourceCursor) : Prop := ∃ log, blockCommentRound s.1 s.2 = .ok ⟨.ok (.inl s'.1),s'.2,log⟩

theorem round_counts {s s' : UInt32 × SourceCursor} (round : Round s s') (counts : Counts s.1 d s.2.rest) :
    ∃ p, pieces s.2.rest = p :: pieces s'.2.rest ∧ Moves s.2 p.bytes s'.2 ∧ Counts s'.1 (d + p.change) s'.2.rest := by
  obtain ⟨log,ran⟩ := round
  obtain ⟨unclosedCount,o,t⟩ := s
  rcases pieces_cases t with rfl | ⟨p,t,rfl,begins⟩
  · have left : blockCommentRound unclosedCount ⟨o,[]⟩ = .ok ⟨.ok (.inr false),⟨o,[]⟩,[]⟩ := rfl
    cases left.symm.trans ran
  · have round : blockCommentRound unclosedCount ⟨o,p.bytes ++ t⟩ = _ := blockRound_piece begins
    have through := round.symm.trans ran
    rcases counted_cases counts with ⟨closed,_⟩ | ⟨next,goes,counts⟩
    · rw [closed] at through
      cases through
    · rw [goes] at through
      obtain ⟨next',c'⟩ := s'
      simp only [Except.ok.injEq,Outcome.mk.injEq,Reply.ok.injEq,Sum.inl.injEq] at through
      obtain ⟨rfl,rfl,_⟩ := through
      exact ⟨p,pieces_begins begins,⟨rfl,rfl⟩,counts⟩

-- In every round that is reached the counter is the depth of what has been read.
theorem rounds_count {s : UInt32 × SourceCursor} (fits : t.length ≤ sourceSizeMax) (reached : Relation.ReflTransGen Round (1,⟨o,t⟩) s) :
    ∃ read, pieces t = read ++ pieces s.2.rest ∧ Moves ⟨o,t⟩ (spelled read) s.2 ∧ Counts s.1 (depth read) s.2.rest := by
  induction reached with
  | refl => exact ⟨[],rfl,.refl _,.start fits⟩
  | tail _ round ih =>
      obtain ⟨read,cut,moved,counts⟩ := ih
      obtain ⟨p,next,over_,counts⟩ := round_counts round counts
      refine ⟨read ++ [p],?_,?_,?_⟩
      · rw [cut,next,List.append_assoc]
        rfl
      · rw [spelled_append,spelled_cons,spelled_nil,List.append_nil]
        exact moved.trans over_
      · have deeper : depth (read ++ [p]) = depth read + p.change := by
          unfold depth
          rw [Nesting.height_append,Nesting.height_cons,Nesting.height_nil]
          omega
        rw [deeper]
        exact counts
end Loops

section Comments
variable {x : Context} {o : Nat} {t : Bytes} {read rest : List Piece}

theorem consumeBlockComment_closed (fits : t.length ≤ sourceSizeMax) (offset : Nat) (cut : pieces t = read ++ rest)
    (first : Nesting.FirstZero Piece.change 1 read) :
    consumeBlockComment x offset ⟨o,t⟩ = .ok ⟨.ok (),⟨o+(spelled read).length,spelled rest⟩,[]⟩ := by
  rw [consumeBlockComment,bind_ok (loop_closes cut first (.start fits)),if_pos rfl]
  rfl

-- When the comment ends where a text ends that is followed by `rest`.
theorem consumeBlockComment_exact {u after : Bytes} (fits : (u ++ after).length ≤ sourceSizeMax) (offset : Nat)
    (cut : pieces (u ++ after) = read ++ pieces after) (first : Nesting.FirstZero Piece.change 1 read) :
    consumeBlockComment x offset ⟨o,u ++ after⟩ = .ok ⟨.ok (),⟨o+u.length,after⟩,[]⟩ := by
  have whole := spelled_pieces (u ++ after)
  rw [cut,spelled_append,spelled_pieces] at whole
  have ran := consumeBlockComment_closed (x := x) (o := o) fits offset cut first
  rw [List.append_cancel_right whole,spelled_pieces] at ran
  exact ran

theorem consumeBlockComment_open (fits : x.source.text.length ≤ sourceSizeMax) {offset : Nat} (inside : offset ≤ x.source.text.length)
    (short : t.length ≤ sourceSizeMax) (never : Nesting.NeverZero Piece.change 1 (pieces t)) :
    ∃ made, consumeBlockComment x offset ⟨o,t⟩ = .ok ⟨.ok (),⟨o+t.length,[]⟩,[.report made]⟩ ∧
      ReportAt x offset .unterminatedBlockComment made := by
  obtain ⟨made,ran,there⟩ : ∃ made, report x .unterminatedBlockComment offset [] ⟨o+t.length,[]⟩ =
      .ok ⟨.ok (),⟨o+t.length,[]⟩,[.report made]⟩ ∧ ReportAt x offset .unterminatedBlockComment made := report_run fits inside rfl
  refine ⟨made,?_,there⟩
  rw [consumeBlockComment,bind_ok (loop_open never (.start short)),if_neg Bool.false_ne_true,ran]
  rfl

theorem handle_blockComment (x : Context) (o : Nat) (t : Bytes) : handleNextCharacter x (ch '/') ⟨o,ch '/' :: ch '*' :: t⟩ =
    (do consumeBlockComment x o; putComment x .blockComment o : Lexer Unit) ⟨o+2,t⟩ := by
  show onSlash x _ = _
  rw [onSlash,bind_ok getOffsetAndAdvance_run,bind_ok (matchChar_not (show ch '*' ≠ ch '/' by decide)),
    if_neg Bool.false_ne_true,bind_ok matchChar_same,if_pos rfl]
  simp only [map_after_nil]
end Comments

-- What is expected behind the opening delimiter at `o`.
structure CommentRead (x : Context) (o : Nat) (t : Bytes) : Prop where
  dispatched : handleNextCharacter x (ch '/') ⟨o,text "/*" ++ t⟩ =
    (do consumeBlockComment x o; putComment x .blockComment o : Lexer Unit) ⟨o+2,t⟩
  closed : ∀ read rest, pieces t = read ++ rest → depth read = 0 → (∀ earlier, earlier <+: read → earlier ≠ read → depth earlier ≠ 0) →
    consumeBlockComment x o ⟨o+2,t⟩ = .ok ⟨.ok (),⟨o+2+(spelled read).length,spelled rest⟩,[]⟩
  unclosed : (∀ read, read <+: pieces t → depth read ≠ 0) → ∃ made,
    consumeBlockComment x o ⟨o+2,t⟩ = .ok ⟨.ok (),⟨o+2+t.length,[]⟩,[.report made]⟩ ∧ ReportAt x o .unterminatedBlockComment made
  counter : ∀ s, Relation.ReflTransGen Round (1,⟨o+2,t⟩) s →
    ∃ read, read <+: pieces t ∧ Moves ⟨o+2,t⟩ (spelled read) s.2 ∧ (s.1.toNat : Int) = depth read

def Free (u : Bytes) : Prop := ∀ v w, u ≠ v ++ (text "/*" ++ w) ∧ u ≠ v ++ (text "*/" ++ w)

-- Texts and comments one behind the other; `Joins u next` is asked of a text in front
-- of what follows it.
inductive Body (Joins : Bytes → Bytes → Prop) : Bytes → Prop where
  | nil : Body Joins []
  | plain {u rest : Bytes} : Joins u (rest ++ text "*/") → Body Joins rest → Body Joins (u ++ rest)
  | comment {inner rest : Bytes} : Body Joins inner → Body Joins rest →
      Body Joins (text "/*" ++ (inner ++ (text "*/" ++ rest)))

-- No delimiter begins in the text, not with its last byte either.
def Apart (u next : Bytes) : Prop := Free (u ++ next.take 1)

section Bodies
variable {u w t body after : Bytes}

theorem pieces_free (free : Free (u ++ w.take 1)) : pieces (u ++ w) = u.map .single ++ pieces w := by
  induction u with
  | nil => rfl
  | cons a u ih =>
      have behind : Free (u ++ w.take 1) := fun v z => by
        have both := free (a :: v) z
        exact ⟨fun same => both.1 (congrArg (a :: ·) same),fun same => both.2 (congrArg (a :: ·) same)⟩
      have next : ∀ c, front ⟨0,u ++ w⟩ = c → u ++ w ≠ [] → ∃ z, u ++ w.take 1 = c :: z := by
        rintro c rfl some_
        cases u with
        | cons b u => exact ⟨_,rfl⟩
        | nil =>
            cases w with
            | nil => exact absurd rfl some_
            | cons b w => exact ⟨_,rfl⟩
      have alone : Alone a (u ++ w) := by
        constructor
        · rintro rfl
          by_contra both
          obtain ⟨starts,some_⟩ := not_or.mp both
          obtain ⟨z,same⟩ := next _ (not_not.mp starts) some_
          exact (free [] z).1 (congrArg (ch '/' :: ·) same)
        · rintro rfl
          by_contra both
          obtain ⟨starts,some_⟩ := not_or.mp both
          obtain ⟨z,same⟩ := next _ (not_not.mp starts) some_
          exact (free [] z).2 (congrArg (ch '*' :: ·) same)
      have first : pieces ((Piece.single a).bytes ++ (u ++ w)) = _ := pieces_begins alone
      rw [List.map_cons,List.cons_append,List.cons_append,← ih behind]
      exact first

theorem balanced_singles (u : Bytes) : Nesting.Balanced Piece.change (u.map .single) := by
  induction u with
  | nil => exact .nil
  | cons a u ih => exact .flat rfl ih

-- The body is cut into a balanced sequence, and its closing delimiter follows.
theorem body_pieces (body : Body Apart u) (t : Bytes) : ∃ ps, pieces (u ++ (text "*/" ++ t)) = ps ++ .closing :: pieces t ∧
    Nesting.Balanced Piece.change ps := by
  induction body generalizing t with
  | nil => exact ⟨[],rfl,.nil⟩
  | @plain u rest apart _ ih =>
      obtain ⟨ps,cut,balanced⟩ := ih t
      have free : Free (u ++ (rest ++ (text "*/" ++ t)).take 1) := by
        have some_ : 1 ≤ (rest ++ text "*/").length := by
          rw [List.length_append]
          exact Nat.le_add_left 1 (rest.length + 1)
        rw [← List.append_assoc rest,List.take_append_of_le_length some_]
        exact apart
      refine ⟨u.map .single ++ ps,?_,(balanced_singles u).append balanced⟩
      rw [List.append_assoc,pieces_free free,cut,List.append_assoc]
  | @comment inner rest _ _ ihInner ihRest =>
      obtain ⟨first,cutFirst,balancedFirst⟩ := ihInner (rest ++ (text "*/" ++ t))
      obtain ⟨second,cutSecond,balancedSecond⟩ := ihRest t
      have wrapped : Nesting.Balanced Piece.change (.opening :: (first ++ [.closing])) := balancedFirst.wrap rfl rfl
      refine ⟨.opening :: (first ++ [.closing]) ++ second,?_,wrapped.append balancedSecond⟩
      have opens : pieces (text "/*" ++ (inner ++ (text "*/" ++ (rest ++ (text "*/" ++ t))))) =
          .opening :: pieces (inner ++ (text "*/" ++ (rest ++ (text "*/" ++ t)))) := pieces_begins (p := .opening) trivial
      rw [cutFirst,cutSecond] at opens
      simpa only [List.append_assoc,List.cons_append,List.nil_append] using opens

theorem consumeBlockComment_body (x : Context) (o : Nat) (fits : (body ++ (text "*/" ++ after)).length ≤ sourceSizeMax) (nested : Body Apart body) :
    consumeBlockComment x o ⟨o+2,body ++ (text "*/" ++ after)⟩ = .ok ⟨.ok (),⟨o+2+(body ++ text "*/").length,after⟩,[]⟩ := by
  obtain ⟨ps,cut,balanced⟩ := body_pieces nested after
  rw [← List.append_assoc] at fits cut ⊢
  have cut' : pieces (body ++ text "*/" ++ after) = (ps ++ [.closing]) ++ pieces after := by
    rw [cut,List.append_assoc]
    rfl
  exact consumeBlockComment_exact fits o cut' (balanced.closed rfl)
end Bodies

theorem block_comments (x : Context) (o : Nat) (t : Bytes) (here : At x.source ⟨o,text "/*" ++ t⟩) :
    CommentRead x o t ∧ ∀ body after, t = body ++ (text "*/" ++ after) → Body Apart body →
      consumeBlockComment x o ⟨o+2,t⟩ = .ok ⟨.ok (),⟨o+2+(body ++ text "*/").length,after⟩,[]⟩ := by
  have short : t.length ≤ sourceSizeMax := by
    have size := here.length
    have fits := here.fits
    rw [List.length_append] at size
    omega
  refine ⟨⟨handle_blockComment x o t,?_,?_,?_⟩,?_⟩
  · intro read rest cut zero before
    exact consumeBlockComment_closed short o cut ⟨zero,before⟩
  · intro never
    exact consumeBlockComment_open here.fits here.inside short never
  · intro s reached
    obtain ⟨read,cut,moved,counts⟩ := rounds_count short reached
    exact ⟨read,⟨_,cut.symm⟩,moved,counts.count⟩
  · rintro body after rfl nested
    exact consumeBlockComment_body x o short nested

-- A comment in a comment, and what follows it.
def commentInComment : Context := ⟨⟨text "/* a /* b */ c */ d",""⟩,.none,4⟩

theorem block_comments_commentInComment : CommentRead commentInComment 0 (text " a /* b */ c */ d") ∧
    ∀ body after, text " a /* b */ c */ d" = body ++ (text "*/" ++ after) → Body Apart body →
      consumeBlockComment commentInComment 0 ⟨2,text " a /* b */ c */ d"⟩ = .ok ⟨.ok (),⟨2+(body ++ text "*/").length,after⟩,[]⟩ :=
  block_comments commentInComment 0 _ ⟨by decide,by decide,by decide⟩

-- The slash of the body makes a delimiter with the star behind it.
def slashInComment : Context := ⟨⟨text "/*/*/",""⟩,.none,4⟩

theorem block_comments_slash : ¬ ∀ (x : Context) (o : Nat) (t : Bytes), At x.source ⟨o,text "/*" ++ t⟩ →
    CommentRead x o t ∧ ∀ body after, t = body ++ (text "*/" ++ after) → Body (fun u _ => Free u) body →
      consumeBlockComment x o ⟨o+2,t⟩ = .ok ⟨.ok (),⟨o+2+(body ++ text "*/").length,after⟩,[]⟩ := by
  intro always
  obtain ⟨_,exactly⟩ := always slashInComment 0 (text "/*/") ⟨by decide,by decide,by decide⟩
  have free : Free (text "/") := by
    intro v w
    constructor <;> intro same <;> have length := congrArg List.length same <;> simp [text] at length <;> omega
  have loose : Body (fun u _ => Free u) (text "/" ++ []) := .plain free .nil
  have ran := exactly (text "/") [] rfl loose
  have never : Nesting.NeverZero Piece.change 1 [.opening,.single (ch '/')] :=
    .extend (by decide) (.extend (by decide) (.nil (by decide)))
  obtain ⟨made,unclosed,_⟩ : ∃ made, consumeBlockComment slashInComment 0 ⟨2,text "/*/"⟩ = .ok ⟨.ok (),⟨2+(text "/*/").length,[]⟩,[.report made]⟩ ∧
      ReportAt slashInComment 0 .unterminatedBlockComment made := consumeBlockComment_open (by decide) (by decide) (by decide) never
  cases unclosed.symm.trans ran
end Cero.Lexer
