import QueryPlan.Proofs.Passing
import QueryPlan.Proofs.Pieces
import QueryPlan.Sql.Plan

/-!
# Where an operator is written

The SQL text of a plan is nested as the plan is.  This file says so for texts as they are written,
line breaks and indentation included.

* **Text within text.**  `Within` is that a text stands somewhere in another one, and it is kept by
  all that is written around a text.
* **Blocks.**  An operator that has clauses is written as a block, in which its clauses stand around
  the items of its `FROM` clause.  `Plan.block` gives the block in pieces, so that the references
  printed in it can be told: they are those that the operator makes (`mem_printed_block`).
* **Aliases.**  An item brings its alias into the `FROM` clause, and a join the aliases of both its
  sides (`Plan.introduced`).  Each alias that an item introduces is named in it
  (`within_of_mem_introduced`).
* **Blocks in a text.**  `Plan.IsBlock` says that the block of an operator stands in a text, around
  items that name what its inputs introduce.  The text of an operator has its block
  (`exists_isBlock_self`), and the text of each input stands within it (`exists_child_text`), so the
  text of a plan has the blocks of all operators in it (`exists_isBlock`).

Walks and aliases have no block of their own.  A walk is written with its clauses around its input,
and an alias ends the item that it names.
-/

set_option autoImplicit false

namespace QueryPlan

namespace Sql

/-! ## Text within text -/

/-- A text stands somewhere in another one. -/
def Within (s text : String) : Prop := s.toList <:+: text.toList

namespace Within

variable {s t u : String}

theorem refl (s : String) : Within s s := List.infix_refl _

theorem trans (h : Within s t) (h' : Within t u) : Within s u := List.IsInfix.trans h h'

theorem append_left (h : Within s t) (u : String) : Within s (u ++ t) := by
  rw [Within, String.toList_append]
  exact List.IsInfix.trans h (List.suffix_append _ _).isInfix

theorem append_right (h : Within s t) (u : String) : Within s (t ++ u) := by
  rw [Within, String.toList_append]
  exact List.IsInfix.trans h (List.prefix_append _ _).isInfix

theorem nextLine (h : Within s t) (indent : Nat) : Within s (Sql.nextLine indent t) :=
  (h.append_left _).append_left _

theorem selectFrom (h : Within s t) (indent : Nat) (u : String) :
    Within s (Sql.selectFrom indent u t) := ((h.append_left _).nextLine _).append_left _

theorem derived (h : Within s t) (indent : Nat) : Within s (Sql.derived indent t) :=
  (h.append_left _).append_right _

end Within

theorem exists_of_place {indent : Nat} {block : Nat → Except PlanError String} {spot : Place}
    {text : String} (h : place indent block spot = .ok text) :
    ∃ i body, block i = .ok body ∧ Within body text := by
  cases spot with
  | block owner => exact ⟨indent, text, h, .refl text⟩
  | item =>
    obtain ⟨body, hbody, h⟩ := bind_eq_ok_iff.mp h
    cases h
    exact ⟨_, body, hbody, (Within.refl body).derived indent⟩
  | named label =>
    obtain ⟨body, hbody, h⟩ := bind_eq_ok_iff.mp h
    cases h
    exact ⟨_, body, hbody, ((Within.refl body).derived indent).append_right _ |>.append_right _⟩

theorem within_withAlias (item label : String) :
    Within (" AS " ++ label) (withAlias item label) := by
  rw [withAlias, String.append_assoc]
  exact (Within.refl _).append_left item

theorem within_of_place_named {indent : Nat} {block : Nat → Except PlanError String}
    {label text : String} (h : place indent block (.named label) = .ok text) :
    Within (" AS " ++ label) text := by
  obtain ⟨body, -, h⟩ := bind_eq_ok_iff.mp h
  cases h
  exact within_withAlias _ label

theorem exists_of_walk {indent : Nat} {input : Except PlanError String} {startWith : Option Expr}
    {connectBy : Expr} {noCycle : Bool} {body : String}
    (h : walk indent input startWith connectBy noCycle = .ok body) :
    ∃ t, input = .ok t ∧ Within t body := by
  cases startWith <;> simp only [walk, bind_eq_ok_iff, pure_eq_ok_iff] at h
  · obtain ⟨t, ht, start, rfl, connect, -, rfl⟩ := h
    exact ⟨t, ht, (((Within.refl t).selectFrom indent "*").append_right _).append_right _⟩
  · obtain ⟨t, ht, condition, -, start, rfl, connect, -, rfl⟩ := h
    exact ⟨t, ht, (((Within.refl t).selectFrom indent "*").append_right _).append_right _⟩

/-- The first two lines of a block, with the select list in pieces. -/
def selectPieces (indent : Nat) (select : List Piece) (item : String) : List Piece :=
  .text (indented indent "SELECT ") :: (select ++ [.text (nextLine indent ("FROM " ++ item))])

/-- A further line, with what follows its keyword in pieces. -/
def clausePieces (indent : Nat) (keyword : String) (clause : List Piece) : List Piece :=
  .text (nextLine indent keyword) :: clause

@[simp] theorem render_selectPieces (indent : Nat) (select : List Piece) (item : String) :
    render (selectPieces indent select item) = selectFrom indent (render select) item := by
  simp [selectPieces, selectFrom, indented, Piece.sql, String.append_assoc]

@[simp] theorem render_clausePieces (indent : Nat) (keyword : String) (clause : List Piece) :
    render (clausePieces indent keyword clause) = nextLine indent (keyword ++ render clause) := by
  simp [clausePieces, nextLine, indented, Piece.sql, String.append_assoc]

@[simp] theorem printed_selectPieces (indent : Nat) (select : List Piece) (item : String) :
    printed (selectPieces indent select item) = printed select := by
  simp [selectPieces]

@[simp] theorem printed_clausePieces (indent : Nat) (keyword : String) (clause : List Piece) :
    printed (clausePieces indent keyword clause) = printed clause := rfl

end Sql

open Sql

/-- The pieces of a sort key. -/
def SortKey.pieces (k : SortKey) : List Piece :=
  k.expr.pieces ++ [.text (if k.ascending then " ASC" else " DESC")]

namespace Plan

/-! ## Blocks -/

/-- Whether an operator is written as a block around the items of its inputs. -/
def hasBlock : Plan → Bool
  | relation .. | scan .. | aliased .. | hierarchical .. => false
  | _ => true

theorem join_or_unary_of_hasBlock {n : Plan} (hn : n.hasBlock = true) :
    (∃ kind left right condition, n = join kind left right condition) ∨
      ∃ op x, Unary op ∧ n = op x := by
  cases n with
  | join kind left right condition => exact .inl ⟨kind, left, right, condition, rfl⟩
  | project exprs x => exact .inr ⟨_, x, .project exprs, rfl⟩
  | filter predicate x => exact .inr ⟨_, x, .filter predicate, rfl⟩
  | aggregate isPartial groupBy aggregates x =>
    exact .inr ⟨_, x, .aggregate isPartial groupBy aggregates, rfl⟩
  | sort keys x => exact .inr ⟨_, x, .sort keys, rfl⟩
  | limit count offset x => exact .inr ⟨_, x, .limit count offset, rfl⟩
  | _ => cases hn

/-- The block of an operator in pieces, around the items of its inputs.  A join is part of a block:
the sides that stand in its `FROM` clause, with the condition. -/
def block (indent : Nat) : Plan → List String → List Piece
  | join kind _ _ condition, [left, right] =>
    .text (left ++ nextLine indent (kind.text ++ " " ++ right)) ::
      condition.elim [] fun e => clausePieces indent "  ON " e.pieces
  | project exprs _, [item] => selectPieces indent (separated ", " (exprs.map Expr.pieces)) item
  | filter predicate _, [item] =>
    selectPieces indent [.text "*"] item ++ clausePieces indent "WHERE " predicate.pieces
  | aggregate _ groupBy aggregates _, [item] =>
    let groups := groupBy.map fun c => [Piece.reference c]
    selectPieces indent (separated ", " (groups ++ aggregates.map Expr.pieces)) item ++
      if groupBy.isEmpty then [] else clausePieces indent "GROUP BY " (separated ", " groups)
  | sort keys _, [item] =>
    selectPieces indent [.text "*"] item ++
      clausePieces indent "ORDER BY " (separated ", " (keys.map SortKey.pieces))
  | limit count offset _, [item] =>
    selectPieces indent [.text "*"] item ++ [.text (limitLines indent count offset)]
  | _, _ => []

section Block

variable {n : Plan} {indent : Nat} {items : List String}

/-- The references printed in a block are those that the operator makes. -/
theorem mem_printed_block (hn : n.hasBlock = true) (hitems : items.length = n.children.length)
    (c : Column) : c ∈ printed (n.block indent items) ↔ c ∈ n.ownReferences := by
  rcases join_or_unary_of_hasBlock hn with ⟨kind, left, right, condition, rfl⟩ | ⟨op, x, hop, rfl⟩
  · obtain ⟨l, r, rfl⟩ := List.length_eq_two.mp hitems
    cases condition <;> simp [block, ownReferences, expressions, Expr.printed_pieces]
  · rw [hop.children] at hitems
    obtain ⟨item, rfl⟩ := List.length_eq_one_iff.mp hitems
    cases hop with
    | aggregate isPartial groupBy aggregates =>
      -- the grouping columns are printed twice, unless there are none
      have hgroups : c ∈ printed (if groupBy.isEmpty then []
          else clausePieces indent "GROUP BY "
            (separated ", " (groupBy.map fun c => [Piece.reference c]))) ↔ c ∈ groupBy := by
        cases groupBy <;> simp [List.flatMap_map]
      simp only [block, printed_append, List.mem_append, hgroups]
      simp [ownReferences, expressions, Expr.printed_pieces, List.flatMap_map, or_right_comm]
    | _ =>
      simp [block, ownReferences, expressions, Expr.printed_pieces, List.flatMap_map,
        SortKey.pieces]

/-- The items of a block stand in it. -/
theorem within_block (hn : n.hasBlock = true) (hitems : items.length = n.children.length)
    {item : String} (hitem : item ∈ items) : Within item (render (n.block indent items)) := by
  rcases join_or_unary_of_hasBlock hn with ⟨kind, left, right, condition, rfl⟩ | ⟨op, x, hop, rfl⟩
  · obtain ⟨l, r, rfl⟩ := List.length_eq_two.mp hitems
    rw [block, render_cons]
    refine Within.append_right ?_ _
    obtain rfl | rfl : item = l ∨ item = r := by simpa using hitem
    · exact (Within.refl item).append_right _
    · exact (((Within.refl item).append_left _).nextLine indent).append_left _
  · rw [hop.children] at hitems
    obtain ⟨item', rfl⟩ := List.length_eq_one_iff.mp hitems
    obtain rfl := List.mem_singleton.mp hitem
    have hselect (select : List Piece) :
        Within item (render (selectPieces indent select item)) := by
      rw [render_selectPieces]
      exact (Within.refl item).selectFrom indent _
    cases hop with
    | project exprs => exact hselect _
    | _ =>
      simp only [block, render_append]
      exact (hselect _).append_right _

end Block

/-! ## Aliases in a `FROM` clause -/

/-- The aliases that a plan brings into a `FROM` clause, where it is an item: its own, or those of
the sides of a join.  Anything else is written in parentheses, which hide the aliases inside. -/
def introduced : Plan → List String
  | aliased label _ => [label]
  | join _ left right _ => introduced left ++ introduced right
  | _ => []

/-- An item under an alias ends with it. -/
theorem within_of_named {p : Plan} {label : String} {indent : Nat} {text : String}
    (h : p.sqlAt (.named label) indent = .ok text) : Within (" AS " ++ label) text := by
  cases p using unaryInduction with
  | leaf p hleaf =>
    cases p with
    | relation name columns tableLike => cases h; exact within_withAlias name label
    | scan table columns source => cases h; exact within_withAlias table label
    | _ => cases hleaf
  | aliased own input => exact within_of_place_named h
  | hierarchical input startWith connectBy noCycle =>
    rw [sqlAt] at h
    exact within_of_place_named h
  | join kind left right condition =>
    simp only [sqlAt] at h
    exact within_of_place_named h
  | unary op hop input => cases hop <;> exact within_of_place_named h

theorem exists_of_place_selectFrom {indent : Nat} {item : Nat → Except PlanError String}
    {spot : Place} {text : String}
    (h : place indent (fun i => do return selectFrom i "*" (← item i)) spot = .ok text) :
    ∃ i t, item i = .ok t ∧ Within t text := by
  obtain ⟨i, body, hbody, htext⟩ := exists_of_place h
  simp only [bind_eq_ok_iff, pure_eq_ok_iff] at hbody
  obtain ⟨t, ht, rfl⟩ := hbody
  exact ⟨i, t, ht, ((Within.refl t).selectFrom i "*").trans htext⟩

/-- A join stands as an item wherever it is written. -/
theorem exists_item_of_join {kind : JoinKind} {left right : Plan} {condition : Option Expr}
    {spot : Place} {indent : Nat} {text : String}
    (h : (join kind left right condition).sqlAt spot indent = .ok text) :
    ∃ i item, (join kind left right condition).sqlAt .item i = .ok item ∧ Within item text := by
  cases spot with
  | item => exact ⟨indent, text, h, .refl text⟩
  | block owner => exact @exists_of_place_selectFrom indent _ (.block owner) text h
  | named label => exact @exists_of_place_selectFrom indent _ (.named label) text h

/-- The item of a join is made of the items of its sides and of its condition. -/
theorem sides_of_join {kind : JoinKind} {left right : Plan} {condition : Option Expr} {i : Nat}
    {item : String} (h : (join kind left right condition).sqlAt .item i = .ok item) :
    ∃ l r, left.sqlAt .item i = .ok l ∧ right.sqlAt .item i = .ok r ∧
      item = render ((join kind left right condition).block i [l, r]) := by
  simp only [sqlAt, bind_eq_ok_iff] at h
  obtain ⟨l, hl, r, hr, h⟩ := h
  refine ⟨l, r, hl, hr, ?_⟩
  cases condition with
  | none =>
    cases kind with
    | cross => cases h; simp [block, Piece.sql]
    | _ => cases h
  | some e =>
    cases kind with
    | cross => cases h
    | _ =>
      simp only [joined, bind_eq_ok_iff, pure_eq_ok_iff] at h
      obtain ⟨s, hs, rfl⟩ := h
      simp [block, Piece.sql, Expr.sql_eq_render hs]

/-- The item of a plan names each alias that it introduces. -/
theorem within_of_mem_introduced {p : Plan} {label : String} {indent : Nat} {item : String}
    (h : p.sqlAt .item indent = .ok item) (hlabel : label ∈ p.introduced) :
    Within (" AS " ++ label) item := by
  induction p generalizing indent item with
  | aliased own input =>
    obtain rfl := List.mem_singleton.mp hlabel
    exact within_of_named h
  | join kind left right condition ihl ihr =>
    obtain ⟨l, r, hl, hr, rfl⟩ := sides_of_join h
    rcases List.mem_append.mp hlabel with hlabel | hlabel
    · exact (ihl hl hlabel).trans (within_block rfl rfl (by simp))
    · exact (ihr hr hlabel).trans (within_block rfl rfl (by simp))
  | _ => cases hlabel

/-! ## Blocks in a text -/

/-- The block of an operator around the items of its inputs, which name the aliases that they
introduce, where it stands in a text. -/
def IsBlock (n : Plan) (text : String) (pieces : List Piece) : Prop :=
  ∃ indent items, List.Forall₂ (fun x item => x.sqlAt .item indent = .ok item ∧
      ∀ label ∈ x.introduced, Within (" AS " ++ label) item) n.children items ∧
    pieces = n.block indent items ∧ Within (render pieces) text

theorem IsBlock.mono {n : Plan} {text whole : String} {pieces : List Piece}
    (h : n.IsBlock text pieces) (hwhole : Within text whole) : n.IsBlock whole pieces := by
  obtain ⟨indent, items, hitems, hpieces, htext⟩ := h
  exact ⟨indent, items, hitems, hpieces, htext.trans hwhole⟩

section Parts

variable {ss : List String}

theorem sqlList_eq_map_pieces {es : List Expr} {grouped : Bool}
    (h : Expr.sqlList grouped es = .ok ss) : ss = (es.map Expr.pieces).map render := by
  rw [Expr.sqlList_eq_map (fun _ _ _ => Expr.sql_eq_render) h, Expr.piecesList_eq_map]

theorem sortKeys_eq_map_pieces {keys : List SortKey} (h : sortKeys keys = .ok ss) :
    ss = (keys.map SortKey.pieces).map render := by
  rw [sortKeys_eq_mapM] at h
  rw [List.map_map]
  refine eq_map_of_mapM_eq_ok h fun k _ s hs => ?_
  obtain ⟨t, ht, rfl⟩ := map_eq_ok_iff.mp hs
  rw [Expr.sql_eq_render ht, Function.comp_apply, SortKey.pieces, render_append]
  simp [Piece.sql]

theorem map_sql_eq_map_pieces (cs : List Column) :
    cs.map Column.sql = (cs.map fun c => [Piece.reference c]).map render := by
  simp [Function.comp_def, Piece.sql]

end Parts

/-- What an aggregation is written as. -/
theorem aggregation_eq_block {indent : Nat} {groupBy : List Column} {aggregates : List Expr}
    {input : Except PlanError String} {body : String}
    (h : aggregation indent groupBy aggregates input = .ok body) (isPartial : Bool) (x : Plan) :
    ∃ item, input = .ok item ∧
      body = render ((aggregate isPartial groupBy aggregates x).block indent [item]) := by
  simp only [aggregation, bind_eq_ok_iff] at h
  obtain ⟨item, hitem, ss, hss, h⟩ := h
  rw [sqlList_eq_map_pieces hss, map_sql_eq_map_pieces, ← List.map_append, ← render_separated,
    ← render_separated, List.isEmpty_map, List.isEmpty_map] at h
  refine ⟨item, hitem, ?_⟩
  split at h
  · cases h
  · simp only [block, render_append, render_selectPieces]
    split at h <;> cases h <;> simp_all

/-- An operator over one input is written as its block around the item of the input. -/
theorem Unary.exists_block {op : Plan → Plan} (hop : Unary op) {x : Plan} {spot : Place}
    {indent : Nat} {text : String} (h : (op x).sqlAt spot indent = .ok text) :
    ∃ i item, x.sqlAt .item i = .ok item ∧ Within (render ((op x).block i [item])) text := by
  cases hop with
  | project exprs =>
    obtain ⟨i, body, hbody, htext⟩ := exists_of_place h
    simp only [projection] at hbody
    split at hbody
    · cases hbody
    · simp only [bind_eq_ok_iff, pure_eq_ok_iff] at hbody
      obtain ⟨ss, hss, item, hitem, rfl⟩ := hbody
      rw [sqlList_eq_map_pieces hss, ← render_separated, ← render_selectPieces] at htext
      exact ⟨i, item, hitem, htext⟩
  | filter predicate =>
    obtain ⟨i, body, hbody, htext⟩ := exists_of_place h
    simp only [bind_eq_ok_iff, pure_eq_ok_iff] at hbody
    obtain ⟨item, hitem, s, hs, rfl⟩ := hbody
    refine ⟨i, item, hitem, ?_⟩
    simpa [block, Piece.sql, Expr.sql_eq_render hs] using htext
  | aggregate isPartial groupBy aggregates =>
    obtain ⟨i, body, hbody, htext⟩ := exists_of_place h
    obtain ⟨item, hitem, rfl⟩ := aggregation_eq_block hbody isPartial x
    exact ⟨i, item, hitem, htext⟩
  | sort keys =>
    obtain ⟨i, body, hbody, htext⟩ := exists_of_place h
    simp only [bind_eq_ok_iff, pure_eq_ok_iff] at hbody
    obtain ⟨item, hitem, ss, hss, rfl⟩ := hbody
    refine ⟨i, item, hitem, ?_⟩
    simpa [block, Piece.sql, sortKeys_eq_map_pieces hss, render_separated] using htext
  | limit count offset =>
    obtain ⟨i, body, hbody, htext⟩ := exists_of_place h
    simp only [bind_eq_ok_iff, pure_eq_ok_iff] at hbody
    obtain ⟨item, hitem, rfl⟩ := hbody
    refine ⟨i, item, hitem, ?_⟩
    simpa [block, Piece.sql] using htext

/-- An operator that has a block is written with it. -/
theorem exists_isBlock_self {n : Plan} (hn : n.hasBlock = true) {spot : Place} {indent : Nat}
    {text : String} (h : n.sqlAt spot indent = .ok text) : ∃ pieces, n.IsBlock text pieces := by
  rcases join_or_unary_of_hasBlock hn with ⟨kind, left, right, condition, rfl⟩ | ⟨op, x, hop, rfl⟩
  · obtain ⟨i, item, hitem, htext⟩ := exists_item_of_join h
    obtain ⟨l, r, hl, hr, rfl⟩ := sides_of_join hitem
    exact ⟨_, i, [l, r], .cons ⟨hl, fun _ => within_of_mem_introduced hl⟩
      (.cons ⟨hr, fun _ => within_of_mem_introduced hr⟩ .nil), rfl, htext⟩
  · obtain ⟨i, item, hitem, htext⟩ := hop.exists_block h
    refine ⟨_, i, [item], ?_, rfl, htext⟩
    rw [hop.children]
    exact .cons ⟨hitem, fun _ => within_of_mem_introduced hitem⟩ .nil

/-! ## Inputs within their operators -/

theorem exists_text_of_walk {input : Plan} {startWith : Option Expr} {connectBy : Expr}
    {noCycle : Bool} {spot : Place} {indent : Nat} {text : String}
    (h : (hierarchical input startWith connectBy noCycle).sqlAt spot indent = .ok text) :
    ∃ spot' i t, input.sqlAt spot' i = .ok t ∧ Within t text := by
  have hplace {spot' within : Place}
      (h : place indent (fun i => walk i (input.sqlAt within i) startWith connectBy noCycle) spot'
        = .ok text) : ∃ spot' i t, input.sqlAt spot' i = .ok t ∧ Within t text := by
    obtain ⟨i, body, hbody, htext⟩ := exists_of_place h
    obtain ⟨t, ht, hin⟩ := exists_of_walk hbody
    exact ⟨_, _, t, ht, hin.trans htext⟩
  cases spot with
  | block owner =>
    obtain ⟨t, ht, htext⟩ := exists_of_walk h
    exact ⟨_, _, t, ht, htext⟩
  | item => exact @hplace .item .item h
  | named label => exact @hplace (.named label) (.named label) h

theorem exists_text_of_aliased {label : String} {input : Plan} {spot : Place} {indent : Nat}
    {text : String} (h : (aliased label input).sqlAt spot indent = .ok text) :
    ∃ spot' i t, input.sqlAt spot' i = .ok t ∧ Within t text := by
  have hblock (h : place indent (fun i =>
      if input.isHierarchical then input.sqlAt (.block (some label)) i
      else do return selectFrom i "*" (← input.sqlAt (.named label) i)) spot = .ok text) :
      ∃ spot' i t, input.sqlAt spot' i = .ok t ∧ Within t text := by
    split at h
    · obtain ⟨i, t, ht, htext⟩ := exists_of_place h
      exact ⟨_, i, t, ht, htext⟩
    · obtain ⟨i, t, ht, htext⟩ := exists_of_place_selectFrom h
      exact ⟨_, i, t, ht, htext⟩
  cases spot with
  | item => exact ⟨_, indent, text, h, .refl text⟩
  | block owner => exact hblock h
  | named owner => exact hblock h

/-- The text of an operator holds the text of each of its inputs. -/
theorem exists_child_text {p : Plan} {spot : Place} {indent : Nat} {text : String}
    (h : p.sqlAt spot indent = .ok text) {x : Plan} (hx : x ∈ p.children) :
    ∃ spot' i t, x.sqlAt spot' i = .ok t ∧ Within t text := by
  cases hp : p.hasBlock with
  | true =>
    obtain ⟨_, i, items, hitems, rfl, htext⟩ := exists_isBlock_self hp h
    obtain ⟨item, hitem, hx, -⟩ := forall₂_exists_of_mem hitems hx
    exact ⟨.item, i, item, hx, (within_block hp hitems.length_eq.symm hitem).trans htext⟩
  | false =>
    -- an alias and a walk hand their place on to the input, so they have no block of this kind
    cases p with
    | aliased label input =>
      obtain rfl := List.mem_singleton.mp hx
      exact exists_text_of_aliased h
    | hierarchical input startWith connectBy noCycle =>
      obtain rfl := List.mem_singleton.mp hx
      exact exists_text_of_walk h
    | relation name columns tableLike => cases hx
    | scan table columns source => cases hx
    | _ => cases hp

/-- The block of every operator that has one stands in the text of the plan. -/
theorem exists_isBlock {p n : Plan} {spot : Place} {indent : Nat} {text : String}
    (h : p.sqlAt spot indent = .ok text) (hn : n ∈ p.nodes) (hblock : n.hasBlock = true) :
    ∃ pieces, n.IsBlock text pieces := by
  induction p using children_induction generalizing spot indent text with
  | step p ih =>
    rw [nodes_eq] at hn
    rcases List.mem_cons.mp hn with rfl | hn
    · exact exists_isBlock_self hblock h
    · obtain ⟨x, hx, hn⟩ := List.mem_flatMap.mp hn
      obtain ⟨spot', i, t, ht, hin⟩ := exists_child_text h hx
      obtain ⟨pieces, hpieces⟩ := ih x hx ht hn
      exact ⟨pieces, hpieces.mono hin⟩

end Plan

end QueryPlan
