import QueryPlan.Proofs.Erasure
import QueryPlan.Sql.Plan

/-!
# Which plans can be written in SQL

Writing a plan fails for four reasons: a projection or an aggregation without columns, a join whose
kind and condition do not go together, an aggregate call where rows are not grouped, and an
aggregate call inside another one.  `Plan.Writable` says that a plan has none of these faults at any
node, and `Plan.exists_sqlAt_iff` that nothing else matters: not the place where the plan is
written, and not the route on which a node is reached.

* **Expressions.**  An expression can be written if its parts can (`exists_sql_iff_children`).
  Without groups that excludes every aggregate call (`exists_sql_iff`); with groups a call forbids
  further ones below it, and only nested calls are excluded (`exists_sql_grouped_iff`).
* **The parts of a block.**  For each of the texts that a block is made of there is one statement of
  when it can be written, given when its input can (`exists_projection_iff`,
  `exists_aggregation_iff` and so on).  Operators are then put together from these.
* **Whole plans.**  By induction over the plan, at all places at once: what is a block at the top is
  an item in parentheses inside a `FROM` clause, and that can be written as well.
* **Qualifying.**  An alias has no fault of its own and no qualifier makes one, so being writable
  can be read off what qualifying leaves alone (`Plan.writable_erase`).
-/

set_option autoImplicit false

namespace QueryPlan

section Success

variable {α β ε : Type}

@[simp] theorem exists_bind_eq_ok_iff {x : Except ε α} {f : α → Except ε β} :
    (∃ b, (x >>= f) = .ok b) ↔ ∃ a, x = .ok a ∧ ∃ b, f a = .ok b := by
  simp only [bind_eq_ok_iff]
  rw [exists_comm]
  simp only [exists_and_left]

@[simp] theorem exists_map_eq_ok_iff {x : Except ε α} {f : α → β} :
    (∃ b, f <$> x = .ok b) ↔ ∃ a, x = .ok a := by
  cases x <;> simp [Functor.map, Except.map]

end Success

namespace Expr

/-! ## Expressions -/

/-- Whether an aggregate call stands inside the arguments of another one. -/
def hasNestedAggregate (e : Expr) : Bool :=
  e.subexprs.any fun x => x.isAggregate && x.children.any hasAggregate

theorem hasAggregate_eq (e : Expr) :
    e.hasAggregate = (e.isAggregate || e.children.any hasAggregate) := by
  rw [hasAggregate, subexprs_eq, List.any_cons, List.any_flatMap]
  rfl

theorem hasNestedAggregate_eq (e : Expr) : e.hasNestedAggregate
    = ((e.isAggregate && e.children.any hasAggregate) || e.children.any hasNestedAggregate) := by
  rw [hasNestedAggregate, subexprs_eq, List.any_cons, List.any_flatMap]
  rfl

theorem hasAggregate_of_hasNestedAggregate {e : Expr} (h : e.hasNestedAggregate = true) :
    e.hasAggregate = true := by
  obtain ⟨x, hx, hnested⟩ := List.any_eq_true.mp h
  exact List.any_eq_true.mpr ⟨x, hx, (Bool.and_eq_true _ _ ▸ hnested).1⟩

theorem exists_sqlList_iff {grouped : Bool} {es : List Expr} :
    (∃ ss, sqlList grouped es = .ok ss) ↔ ∀ e ∈ es, ∃ s, e.sql grouped = .ok s := by
  rw [sqlList_eq_mapM]
  exact exists_mapM_eq_ok_iff

theorem exists_sqlOperands_iff {grouped : Bool} {es : List Expr} :
    (∃ ss, sqlOperands grouped es = .ok ss) ↔ ∀ e ∈ es, ∃ s, e.sql grouped = .ok s := by
  rw [sqlOperands_eq_mapM, exists_mapM_eq_ok_iff]
  simp [map_eq_ok_iff]

/-- An expression can be written if its parts can.  Below an aggregate call there may not be
another one. -/
theorem exists_sql_iff_children {grouped : Bool} {e : Expr} :
    (∃ s, e.sql grouped = .ok s) ↔
      if e.isAggregate then grouped = true ∧ ∀ x ∈ e.children, ∃ s, x.sql false = .ok s
      else ∀ x ∈ e.children, ∃ s, x.sql grouped = .ok s := by
  cases e with
  | aggregate func args distinct =>
    cases grouped <;>
      simp [sql, isAggregate, children,
        exists_sqlList_iff]
  | _ =>
    simp [sql, isAggregate, children,
      exists_sqlList_iff, exists_sqlOperands_iff]

/-- Where rows are not grouped, exactly the expressions without aggregate calls can be written. -/
theorem exists_sql_iff {e : Expr} : (∃ s, e.sql false = .ok s) ↔ e.hasAggregate = false := by
  induction e using children_induction with
  | step e ih =>
    rw [exists_sql_iff_children, hasAggregate_eq]
    cases e.isAggregate with
    | true => simp
    | false => simpa using forall₂_congr ih

/-- Where rows are grouped, aggregate calls only have to stay apart. -/
theorem exists_sql_grouped_iff {e : Expr} :
    (∃ s, e.sql true = .ok s) ↔ e.hasNestedAggregate = false := by
  induction e using children_induction with
  | step e ih =>
    rw [exists_sql_iff_children, hasNestedAggregate_eq]
    cases e.isAggregate with
    | true =>
      simp only [if_true, true_and, exists_sql_iff, Bool.true_and, Bool.or_eq_false_iff,
        List.any_eq_false, Bool.not_eq_true]
      refine ⟨fun h => ⟨h, fun x hx => ?_⟩, fun h => h.1⟩
      -- what has no aggregate call at all has none inside another
      by_contra hnested
      rw [Bool.not_eq_false] at hnested
      exact Bool.false_ne_true ((h x hx).symm.trans (hasAggregate_of_hasNestedAggregate hnested))
    | false => simpa using forall₂_congr ih

section Columns

variable (g : Column → Column)

theorem isAggregate_mapColumns (e : Expr) : (e.mapColumns g).isAggregate = e.isAggregate := by
  cases e <;> rfl

theorem children_mapColumns (e : Expr) :
    (e.mapColumns g).children = e.children.map (mapColumns g) := by
  cases e <;> simp [mapColumns, bind, children, bindList_eq_map]

theorem hasAggregate_mapColumns (e : Expr) : (e.mapColumns g).hasAggregate = e.hasAggregate := by
  induction e using children_induction with
  | step e ih =>
    have hparts : e.children.any (hasAggregate ∘ mapColumns g) = e.children.any hasAggregate :=
      any_congr_of_mem ih
    rw [hasAggregate_eq, isAggregate_mapColumns, children_mapColumns, List.any_map, hparts,
      ← hasAggregate_eq]

theorem hasNestedAggregate_mapColumns (e : Expr) :
    (e.mapColumns g).hasNestedAggregate = e.hasNestedAggregate := by
  induction e using children_induction with
  | step e ih =>
    have hparts : e.children.any (hasAggregate ∘ mapColumns g) = e.children.any hasAggregate :=
      any_congr_of_mem fun x _ => hasAggregate_mapColumns g x
    have hnested : e.children.any (hasNestedAggregate ∘ mapColumns g)
        = e.children.any hasNestedAggregate := any_congr_of_mem ih
    rw [hasNestedAggregate_eq, isAggregate_mapColumns, children_mapColumns, List.any_map,
      List.any_map, hparts, hnested, ← hasNestedAggregate_eq]

end Columns

end Expr

namespace Plan

open Sql

/-! ## Plans -/

/-- What an operator needs itself to be written. -/
def Fits : Plan → Prop
  | relation .. | scan .. | aliased .. | limit .. => True
  | join kind _ _ condition =>
    (kind = .cross ↔ condition = none) ∧ ∀ e ∈ condition, e.hasAggregate = false
  | hierarchical _ startWith connectBy _ =>
    (∀ e ∈ startWith, e.hasAggregate = false) ∧ connectBy.hasAggregate = false
  | project exprs _ => exprs ≠ [] ∧ ∀ e ∈ exprs, e.hasAggregate = false
  | filter predicate _ => predicate.hasAggregate = false
  | aggregate _ groupBy aggregates _ =>
    (groupBy ≠ [] ∨ aggregates ≠ []) ∧ ∀ e ∈ aggregates, e.hasNestedAggregate = false
  | sort keys _ => ∀ k ∈ keys, k.expr.hasAggregate = false

/-- A plan in which every operator has what it needs to be written. -/
def Writable (p : Plan) : Prop := ∀ n ∈ p.nodes, n.Fits

theorem writable_iff {p : Plan} : p.Writable ↔ p.Fits ∧ ∀ x ∈ p.children, x.Writable := by
  rw [Writable, nodes_eq, List.forall_mem_cons, List.forall_mem_flatMap]
  rfl

/-! ### The parts of a block -/

section Parts

variable {indent : Nat}

theorem exists_place_iff {block : Nat → Except PlanError String} {P : Prop}
    (h : ∀ i, (∃ s, block i = .ok s) ↔ P) (spot : Place) :
    (∃ s, place indent block spot = .ok s) ↔ P := by
  cases spot <;> simp [place, h]

theorem exists_sortKeys_iff {keys : List SortKey} :
    (∃ ss, sortKeys keys = .ok ss) ↔ ∀ k ∈ keys, k.expr.hasAggregate = false := by
  rw [sortKeys_eq_mapM, exists_mapM_eq_ok_iff]
  simp [map_eq_ok_iff, Expr.exists_sql_iff]

theorem exists_joined_iff {kind : JoinKind} {l r : String} {condition : Option Expr} :
    (∃ s, joined indent kind l r condition = .ok s) ↔
      (kind = .cross ↔ condition = none) ∧ ∀ e ∈ condition, e.hasAggregate = false := by
  cases kind <;> cases condition <;>
    simp [joined, Expr.exists_sql_iff]

theorem exists_projection_iff {exprs : List Expr} {input : Except PlanError String} :
    (∃ s, projection indent exprs input = .ok s) ↔
      (exprs ≠ [] ∧ ∀ e ∈ exprs, e.hasAggregate = false) ∧ ∃ s, input = .ok s := by
  cases exprs with
  | nil => simp [projection]
  | cons e es =>
    simp [projection, Expr.exists_sqlList_iff,
      Expr.exists_sql_iff]

theorem exists_aggregation_iff {groupBy : List Column} {aggregates : List Expr}
    {input : Except PlanError String} :
    (∃ s, aggregation indent groupBy aggregates input = .ok s) ↔
      ((groupBy ≠ [] ∨ aggregates ≠ []) ∧ ∀ e ∈ aggregates, e.hasNestedAggregate = false) ∧
        ∃ s, input = .ok s := by
  cases aggregates with
  | nil => cases groupBy <;> simp [aggregation, Expr.sqlList]
  | cons e es =>
    cases groupBy <;>
      simp [aggregation, Expr.sqlList, Expr.exists_sqlList_iff, Expr.exists_sql_grouped_iff,
        and_comm]

theorem exists_walk_iff {input : Except PlanError String} {startWith : Option Expr}
    {connectBy : Expr} {noCycle : Bool} :
    (∃ s, walk indent input startWith connectBy noCycle = .ok s) ↔
      ((∀ e ∈ startWith, e.hasAggregate = false) ∧ connectBy.hasAggregate = false) ∧
        ∃ s, input = .ok s := by
  cases startWith <;>
    simp [walk, Expr.exists_sql_iff, and_comm]

end Parts

/-! ### Whole plans -/

/-- A plan can be written at a place if it is writable, whatever the place. -/
theorem exists_sqlAt_iff {p : Plan} (spot : Place) (indent : Nat) :
    (∃ s, p.sqlAt spot indent = .ok s) ↔ p.Writable := by
  induction p generalizing spot indent with
  | relation name columns tableLike =>
    rw [writable_iff]
    simp [sqlAt, Fits, children]
  | scan table columns source =>
    rw [writable_iff]
    simp [sqlAt, Fits, children]
  | aliased label input ih =>
    have hinput : (aliased label input).Writable ↔ input.Writable := by
      rw [writable_iff]
      simp [Fits, children]
    rw [hinput]
    -- an alias is passed on to a relation or to a walk, or stands outside a block
    cases spot with
    | item => exact ih (.named label) indent
    | _ =>
      refine exists_place_iff (fun i => ?_) _
      split
      · exact ih (.block (some label)) i
      · simp [ih]
  | hierarchical input startWith connectBy noCycle ih =>
    have hwalk (spot : Place) (i : Nat) :
        (∃ s, walk i (input.sqlAt spot i) startWith connectBy noCycle = .ok s) ↔
          (hierarchical input startWith connectBy noCycle).Writable := by
      rw [writable_iff]
      simp [exists_walk_iff, ih, Fits, children]
    cases spot with
    | block owner => exact hwalk _ indent
    | item => exact exists_place_iff (hwalk .item) .item
    | named label => exact exists_place_iff (hwalk (.named label)) (.named label)
  | join kind left right condition ihl ihr =>
    have hitem (i : Nat) : (∃ s, (join kind left right condition).sqlAt .item i = .ok s) ↔
        (join kind left right condition).Writable := by
      rw [writable_iff]
      simp [sqlAt, exists_joined_iff, ihl, ihr, Fits, children]
      tauto
    have hblock (i : Nat) : (∃ s, (do
        return selectFrom i "*" (← (join kind left right condition).sqlAt .item i)) = .ok s) ↔
          (join kind left right condition).Writable := by
      simpa using hitem i
    cases spot with
    | item => exact hitem indent
    | block owner => exact exists_place_iff hblock (.block owner)
    | named label => exact exists_place_iff hblock (.named label)
  | project exprs input ih =>
    rw [writable_iff]
    refine exists_place_iff (fun i => ?_) _
    simp [exists_projection_iff, ih, Fits, children]
  | aggregate isPartial groupBy aggregates input ih =>
    rw [writable_iff]
    refine exists_place_iff (fun i => ?_) _
    simp [exists_aggregation_iff, ih, Fits, children]
  | filter predicate input ih =>
    rw [writable_iff]
    refine exists_place_iff (fun i => ?_) _
    simp [Expr.exists_sql_iff, ih, Fits, children, and_comm]
  | sort keys input ih =>
    rw [writable_iff]
    refine exists_place_iff (fun i => ?_) _
    simp [exists_sortKeys_iff, ih, Fits, children, and_comm]
  | limit count offset input ih =>
    rw [writable_iff]
    refine exists_place_iff (fun i => ?_) _
    simp [ih, Fits, children]

/-! ### Qualifying -/

theorem fits_mapColumns (g : Column → Column) {p : Plan} : (p.mapColumns g).Fits ↔ p.Fits := by
  cases p <;>
    simp [mapColumns, mapExprs, Fits, Expr.hasAggregate_mapColumns,
      Expr.hasNestedAggregate_mapColumns]

/-- Neither aliases nor qualifiers make a plan writable or unwritable. -/
theorem writable_erase {p : Plan} : p.erase.Writable ↔ p.Writable := by
  induction p using unaryInduction with
  | leaf p hleaf => rw [erase_of_isLeaf hleaf]
  | aliased label p ih =>
    rw [erase_aliased, ih, writable_iff (p := aliased label p)]
    simp [Fits, children]
  | hierarchical p startWith connectBy noCycle ih =>
    rw [erase_hierarchical, writable_iff, fits_mapColumns, children_mapColumns,
      writable_iff (p := hierarchical p ..)]
    simp [Fits, children, ih]
  | join kind p q condition ihp ihq =>
    rw [erase_join, writable_iff, fits_mapColumns, children_mapColumns,
      writable_iff (p := join kind p q condition)]
    simp [Fits, children, ihp, ihq]
  | unary op hop p ih =>
    rw [hop.erase, writable_iff, fits_mapColumns, children_mapColumns, writable_iff (p := op p),
      hop.children, hop.children]
    cases hop <;> simp [Fits, ih]

/-- **A plan can be written in SQL exactly if it is well formed, and qualifying keeps that.**  So a
plan that has been qualified can be written exactly if the plan that it came from can. -/
theorem writable_iff_sql (config : Config) (p : Plan) :
    ((∃ s, p.sql = .ok s) ↔ p.Writable) ∧
      ∀ q, p.qualify config = .ok q → ((∃ s, q.plan.sql = .ok s) ↔ ∃ s, p.sql = .ok s) := by
  refine ⟨exists_sqlAt_iff _ _, fun q h => ?_⟩
  obtain ⟨r, hpass, hr⟩ := bind_eq_ok_iff.mp h
  cases hr
  calc (∃ s, r.plan.sql = .ok s)
    _ ↔ r.plan.Writable := exists_sqlAt_iff _ _
    _ ↔ r.plan.erase.Writable := writable_erase.symm
    _ ↔ p.erase.Writable := by rw [(pass_eq_ok_iff.mp hpass).erase_eq]
    _ ↔ p.Writable := writable_erase
    _ ↔ ∃ s, p.sql = .ok s := (exists_sqlAt_iff _ _).symm

theorem writable_iff_sql_staff : staff.Writable ∧ ∃ s, qualifiedStaff.sql = .ok s := by
  obtain ⟨hsql, hqualified⟩ := writable_iff_sql {} staff
  have hstaff : staff.Writable := by
    simp [Writable, staff, nodes, Fits, Expr.hasAggregate, Expr.subexprs, Expr.isAggregate]
  exact ⟨hstaff, (hqualified _ qualify_staff).mpr (hsql.mpr hstaff)⟩

end Plan

end QueryPlan
