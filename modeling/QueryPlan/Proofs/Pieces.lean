import QueryPlan.Proofs.Evaluation
import QueryPlan.Proofs.Lists
import QueryPlan.Sql.Expr

/-!
# SQL text in pieces

The SQL text of an expression is made of fixed text and of references to columns.  `Expr.pieces`
takes it apart: joined again the pieces are the text (`Expr.sql_eq_render`), and the references
among them are those that the expression makes (`Expr.printed_pieces`).  So what is said of the
references of an expression is said of the qualifiers that are printed for it, and no qualifier is
read out of a string literal or a name.
-/

set_option autoImplicit false

namespace QueryPlan

/-- A piece of SQL text. -/
inductive Piece where
  | text (s : String)
  /-- A reference to a column, which is written under its qualifiers. -/
  | reference (c : Column)

namespace Piece

/-- A piece as text. -/
def sql : Piece → String
  | text s => s
  | reference c => c.sql

/-- The reference that a piece is. -/
def reference? : Piece → Option Column
  | text _ => none
  | reference c => some c

end Piece

namespace Sql

/-- The text that pieces make. -/
def render (pieces : List Piece) : String := String.join (pieces.map Piece.sql)

/-- The references that are printed among pieces. -/
def printed (pieces : List Piece) : List Column := pieces.filterMap Piece.reference?

/-- Items one after the other, with a separator in between. -/
def separated (separator : String) (items : List (List Piece)) : List Piece :=
  [Piece.text separator].intercalate items

@[simp] theorem render_nil : render [] = "" := rfl

@[simp] theorem render_cons (p : Piece) (ps : List Piece) : render (p :: ps) = p.sql ++ render ps :=
  String.join_cons

@[simp] theorem render_append (ps qs : List Piece) :
    render (ps ++ qs) = render ps ++ render qs := by
  rw [render, List.map_append, String.join_append]
  rfl

@[simp] theorem printed_nil : printed [] = [] := rfl

@[simp] theorem printed_text (s : String) (ps : List Piece) :
    printed (.text s :: ps) = printed ps := rfl

@[simp] theorem printed_reference (c : Column) (ps : List Piece) :
    printed (.reference c :: ps) = c :: printed ps := rfl

@[simp] theorem printed_append (ps qs : List Piece) :
    printed (ps ++ qs) = printed ps ++ printed qs := List.filterMap_append

theorem render_separated (separator : String) (items : List (List Piece)) :
    render (separated separator items) = String.intercalate separator (items.map render) := by
  induction items with
  | nil => simp [separated]
  | cons item items ih =>
    cases items with
    | nil => simp [separated]
    | cons next items =>
      rw [separated, List.intercalate_cons_cons, ← separated, render_append, render_append, ih]
      simp [Piece.sql, String.append_assoc]

@[simp] theorem printed_separated (separator : String) (items : List (List Piece)) :
    printed (separated separator items) = items.flatMap printed := by
  induction items with
  | nil => rfl
  | cons item items ih =>
    cases items with
    | nil => simp [separated]
    | cons next items =>
      rw [separated, List.intercalate_cons_cons, ← separated, printed_append,
        printed_append, ih]
      simp

end Sql

namespace Expr

open Sql

/-! ## Expressions -/

/-- The pieces of an operand. -/
def parenthesizedPieces (e : Expr) (pieces : List Piece) : List Piece :=
  if e.isConnective then .text "(" :: (pieces ++ [.text ")"]) else pieces

/-- What comes after an expression under an alias. -/
def aliasPieces (operand : Expr) (output : Column) : List Piece :=
  match operand with
  | col c => if c.name = output.name then [] else [.text (" AS " ++ output.name)]
  | _ => [.text (" AS " ++ output.name)]

/-- The pieces of an aggregate call. -/
def callPieces (func : AggregateFunction) (args : List (List Piece)) (distinct : Bool) :
    List Piece :=
  .text (Text.upper func.name ++ "(") ::
    ((if args.isEmpty then [.text "*"]
      else .text (if distinct then "DISTINCT " else "") :: separated ", " args) ++ [.text ")"])

mutual

/-- The pieces of an expression in SQL. -/
def pieces : Expr → List Piece
  | lit l => [.text l.sql]
  | col c => [.reference c]
  | call name args =>
    .text (Text.upper name ++ "(") :: (separated ", " (piecesList args) ++ [.text ")"])
  | compare left op right =>
    left.parenthesizedPieces (pieces left) ++
      .text (" " ++ op.symbol ++ " ") :: right.parenthesizedPieces (pieces right)
  | and operands => separated " AND " (piecesOperands operands)
  | or operands => separated " OR " (piecesOperands operands)
  | not operand => .text "NOT (" :: (pieces operand ++ [.text ")"])
  | isNull operand negated =>
    operand.parenthesizedPieces (pieces operand) ++ [.text (" IS " ++ notWord negated ++ "NULL")]
  | inList operand members negated =>
    operand.parenthesizedPieces (pieces operand) ++
      .text (" " ++ notWord negated ++ "IN (") ::
        (separated ", " (piecesList members) ++ [.text ")"])
  | like operand pattern negated =>
    operand.parenthesizedPieces (pieces operand) ++
      .text (" " ++ notWord negated ++ "LIKE ") :: pattern.parenthesizedPieces (pieces pattern)
  | aggregate func args distinct => callPieces func (piecesList args) distinct
  | named operand output => pieces operand ++ operand.aliasPieces output

/-- The pieces of several expressions. -/
def piecesList : List Expr → List (List Piece)
  | [] => []
  | e :: rest => pieces e :: piecesList rest

/-- The pieces of several operands. -/
def piecesOperands : List Expr → List (List Piece)
  | [] => []
  | e :: rest => e.parenthesizedPieces (pieces e) :: piecesOperands rest

end

theorem piecesList_eq_map (es : List Expr) : piecesList es = es.map pieces := by
  induction es with
  | nil => rfl
  | cons e es ih => rw [piecesList, ih, List.map_cons]

theorem piecesOperands_eq_map (es : List Expr) :
    piecesOperands es = es.map fun e => e.parenthesizedPieces e.pieces := by
  induction es with
  | nil => rfl
  | cons e es ih => rw [piecesOperands, ih, List.map_cons]

theorem render_parenthesizedPieces (e : Expr) (ps : List Piece) :
    render (e.parenthesizedPieces ps) = e.parenthesized (render ps) := by
  rw [parenthesizedPieces, parenthesized]
  split <;> simp [Piece.sql, String.append_assoc]

theorem render_aliasPieces (operand : Expr) (output : Column) (s : String) :
    s ++ render (operand.aliasPieces output) = aliasSql operand s output := by
  cases operand with
  | col c =>
    rw [aliasPieces, aliasSql]
    split <;> simp [Piece.sql, String.append_assoc]
  | _ => simp [aliasPieces, aliasSql, Piece.sql, String.append_assoc]

theorem render_callPieces (func : AggregateFunction) (args : List (List Piece)) (distinct : Bool) :
    render (callPieces func args distinct) = callSql func (args.map render) distinct := by
  rw [callPieces, callSql, List.isEmpty_map]
  split <;> simp [Piece.sql, render_separated, String.append_assoc]

section Render

variable {es : List Expr} {grouped : Bool} {ss : List String}

theorem sqlList_eq_map (hes : ∀ e ∈ es, ∀ s, e.sql grouped = .ok s → s = render e.pieces)
    (h : sqlList grouped es = .ok ss) : ss = (piecesList es).map render := by
  rw [sqlList_eq_mapM] at h
  rw [piecesList_eq_map, List.map_map]
  exact eq_map_of_mapM_eq_ok h hes

theorem sqlOperands_eq_map (hes : ∀ e ∈ es, ∀ s, e.sql grouped = .ok s → s = render e.pieces)
    (h : sqlOperands grouped es = .ok ss) : ss = (piecesOperands es).map render := by
  rw [sqlOperands_eq_mapM] at h
  rw [piecesOperands_eq_map, List.map_map]
  refine eq_map_of_mapM_eq_ok h fun e he s hs => ?_
  obtain ⟨t, ht, rfl⟩ := map_eq_ok_iff.mp hs
  rw [hes e he t ht, Function.comp_apply, render_parenthesizedPieces]

end Render

/-- The pieces of an expression make its text. -/
theorem sql_eq_render {e : Expr} {grouped : Bool} {s : String} (h : e.sql grouped = .ok s) :
    s = render e.pieces := by
  induction e using children_induction generalizing grouped s with
  | step e ih =>
    have hlist (es : List Expr) (hes : ∀ e' ∈ es, e' ∈ e.children) {grouped : Bool}
        {ss : List String} (h : sqlList grouped es = .ok ss) : ss = (piecesList es).map render :=
      sqlList_eq_map (fun e' he' _ => ih e' (hes e' he')) h
    have hoperands (es : List Expr) (hes : ∀ e' ∈ es, e' ∈ e.children) {grouped : Bool}
        {ss : List String} (h : sqlOperands grouped es = .ok ss) :
        ss = (piecesOperands es).map render :=
      sqlOperands_eq_map (fun e' he' _ => ih e' (hes e' he')) h
    cases e with
    | lit l =>
      cases h
      simp [pieces, Piece.sql]
    | col c =>
      cases h
      simp [pieces, Piece.sql]
    | call name args =>
      simp only [sql, bind_eq_ok_iff, pure_eq_ok_iff] at h
      obtain ⟨ss, hss, rfl⟩ := h
      simp [pieces, Piece.sql, hlist args (fun _ h => h) hss, render_separated, String.append_assoc]
    | compare left op right =>
      simp only [sql, bind_eq_ok_iff, pure_eq_ok_iff] at h
      obtain ⟨l, hl, r, hr, rfl⟩ := h
      simp [pieces, Piece.sql, ih left (by simp [children]) hl, ih right (by simp [children]) hr,
        render_parenthesizedPieces, String.append_assoc]
    | and operands =>
      simp only [sql, bind_eq_ok_iff, pure_eq_ok_iff] at h
      obtain ⟨ss, hss, rfl⟩ := h
      rw [pieces, render_separated, hoperands operands (fun _ h => h) hss]
    | or operands =>
      simp only [sql, bind_eq_ok_iff, pure_eq_ok_iff] at h
      obtain ⟨ss, hss, rfl⟩ := h
      rw [pieces, render_separated, hoperands operands (fun _ h => h) hss]
    | not operand =>
      simp only [sql, bind_eq_ok_iff, pure_eq_ok_iff] at h
      obtain ⟨o, ho, rfl⟩ := h
      simp [pieces, Piece.sql, ih operand (by simp [children]) ho, String.append_assoc]
    | isNull operand negated =>
      simp only [sql, bind_eq_ok_iff, pure_eq_ok_iff] at h
      obtain ⟨o, ho, rfl⟩ := h
      simp [pieces, Piece.sql, ih operand (by simp [children]) ho, render_parenthesizedPieces,
        String.append_assoc]
    | inList operand members negated =>
      simp only [sql, bind_eq_ok_iff, pure_eq_ok_iff] at h
      obtain ⟨o, ho, ms, hms, rfl⟩ := h
      simp [pieces, Piece.sql, ih operand (by simp [children]) ho,
        hlist members (fun _ h => List.mem_cons_of_mem _ h) hms, render_separated,
        render_parenthesizedPieces, String.append_assoc]
    | like operand pattern negated =>
      simp only [sql, bind_eq_ok_iff, pure_eq_ok_iff] at h
      obtain ⟨o, ho, p, hp, rfl⟩ := h
      simp [pieces, Piece.sql, ih operand (by simp [children]) ho,
        ih pattern (by simp [children]) hp, render_parenthesizedPieces, String.append_assoc]
    | aggregate func args distinct =>
      cases grouped with
      | false => cases h
      | true =>
        simp only [sql, if_pos, bind_eq_ok_iff, pure_eq_ok_iff] at h
        obtain ⟨ss, hss, rfl⟩ := h
        rw [pieces, render_callPieces, hlist args (fun _ h => h) hss]
    | named operand output =>
      simp only [sql, bind_eq_ok_iff, pure_eq_ok_iff] at h
      obtain ⟨o, ho, rfl⟩ := h
      rw [pieces, render_append, render_aliasPieces, ih operand (by simp [children]) ho]

@[simp] theorem printed_parenthesizedPieces (e : Expr) (ps : List Piece) :
    printed (e.parenthesizedPieces ps) = printed ps := by
  rw [parenthesizedPieces]
  split <;> simp

@[simp] theorem printed_aliasPieces (operand : Expr) (output : Column) :
    printed (operand.aliasPieces output) = [] := by
  cases operand with
  | col c =>
    rw [aliasPieces]
    split <;> rfl
  | _ => rfl

@[simp] theorem printed_callPieces (func : AggregateFunction) (args : List (List Piece))
    (distinct : Bool) : printed (callPieces func args distinct) = args.flatMap printed := by
  rw [callPieces]
  cases args <;> simp

/-- The references among the pieces of an expression are those that it makes. -/
theorem printed_pieces (e : Expr) : printed e.pieces = e.columns := by
  induction e using children_induction with
  | step e ih =>
    have hparts : (e.children.flatMap fun x => printed x.pieces) = e.children.flatMap columns :=
      List.flatMap_congr ih
    cases hcol : e.column? with
    | some c =>
      obtain rfl := eq_col_of_column? hcol
      rfl
    | none =>
      rw [columns_eq hcol, ← hparts]
      cases e with
      | col c => cases hcol
      | _ => simp [pieces, children, piecesList_eq_map, piecesOperands_eq_map, List.flatMap_map]

end Expr

end QueryPlan
