import QueryPlan.Plan.Basic
import QueryPlan.Sql.Expr

/-!
# Plans in SQL

The SQL text of a plan whose references have been qualified.  One plan can be written at three
kinds of place, and `Place` says which:

* as a `SELECT` block of its own;
* as an item of a `FROM` clause, where a relation is just its name, a join is written out, and
  anything else is a block in parentheses;
* as such an item under an alias.

A hierarchical walk keeps its alias outside while its clauses use it, so a block may come with the
alias, and then gives it to the relation that is walked.
-/

set_option autoImplicit false

namespace QueryPlan

/-- Where a plan is written. -/
inductive Place where
  /-- A block; the alias belongs to the relation inside a hierarchical walk. -/
  | block (owner : Option String)
  /-- An item of a `FROM` clause. -/
  | item
  /-- An item of a `FROM` clause under an alias. -/
  | named (label : String)
deriving DecidableEq

namespace Sql

/-- The start of a line. -/
def indented (indent : Nat) (line : String) : String :=
  String.join (List.replicate indent "  ") ++ line

/-- A line after another one. -/
def nextLine (indent : Nat) (line : String) : String := "\n" ++ indented indent line

/-- The first two lines of a block. -/
def selectFrom (indent : Nat) (items fromItem : String) : String :=
  indented indent ("SELECT " ++ items) ++ nextLine indent ("FROM " ++ fromItem)

/-- A block in parentheses. -/
def derived (indent : Nat) (body : String) : String := "(\n" ++ body ++ nextLine indent ")"

/-- An item under an alias. -/
def withAlias (item label : String) : String := item ++ " AS " ++ label

/-- The select list of a relation. -/
def columnList (columns : List Column) : String :=
  if columns.isEmpty then "*" else String.intercalate ", " (columns.map (·.name))

/-- A block put at its place.  An owner given with a block is not of interest to it. -/
def place (indent : Nat) (block : Nat → Except PlanError String) :
    Place → Except PlanError String
  | .block _ => block indent
  | .item => do return derived indent (← block (indent + 1))
  | .named label => do return withAlias (derived indent (← block (indent + 1))) label

/-- A relation put at its place. -/
def placeRelation (indent : Nat) (name : String) (columns : List Column) : Place → String
  | .block _ => selectFrom indent (columnList columns) name
  | .item => name
  | .named label => withAlias name label

/-- The keys of a sort. -/
def sortKeys : List SortKey → Except PlanError (List String)
  | [] => .ok []
  | k :: rest => do
    let e ← k.expr.sql false
    return (e ++ (if k.ascending then " ASC" else " DESC")) :: (← sortKeys rest)

theorem sortKeys_eq_mapM (keys : List SortKey) :
    sortKeys keys = keys.mapM fun k =>
      (k.expr.sql false).map (· ++ if k.ascending then " ASC" else " DESC") := by
  induction keys with
  | nil => rfl
  | cons k keys ih =>
    rw [sortKeys, List.mapM_cons, ih]
    cases k.expr.sql false <;> rfl

/-- Two sides of a join as one item. -/
def joined (indent : Nat) (kind : JoinKind) (left right : String) (condition : Option Expr) :
    Except PlanError String :=
  let sides := left ++ nextLine indent (kind.text ++ " " ++ right)
  match kind, condition with
  | .cross, none => .ok sides
  | .cross, some _ => .error .conditionOnCross
  | _, some c => do return sides ++ nextLine indent ("  ON " ++ (← c.sql false))
  | kind, none => .error (.missingCondition kind)

/-- The block of a projection. -/
def projection (indent : Nat) (exprs : List Expr) (input : Except PlanError String) :
    Except PlanError String :=
  if exprs.isEmpty then .error .emptyProjection
  else do
    let items ← Expr.sqlList false exprs
    return selectFrom indent (String.intercalate ", " items) (← input)

/-- The block of an aggregation. -/
def aggregation (indent : Nat) (groupBy : List Column) (aggregates : List Expr)
    (input : Except PlanError String) : Except PlanError String := do
  let fromItem ← input
  let groups := groupBy.map Column.sql
  let items := groups ++ (← Expr.sqlList true aggregates)
  if items.isEmpty then .error .emptyAggregation
  else
    let select := selectFrom indent (String.intercalate ", " items) fromItem
    if groups.isEmpty then return select
    else return select ++ nextLine indent ("GROUP BY " ++ String.intercalate ", " groups)

/-- The block of a hierarchical walk. -/
def walk (indent : Nat) (input : Except PlanError String) (startWith : Option Expr)
    (connectBy : Expr) (noCycle : Bool) : Except PlanError String := do
  let select := selectFrom indent "*" (← input)
  let start ← match startWith with
    | some e => do pure (nextLine indent ("START WITH " ++ (← e.sql false)))
    | none => pure ""
  let connect ← connectBy.sql false
  return select ++ start ++
    nextLine indent ("CONNECT BY " ++ (if noCycle then "NOCYCLE " else "") ++ connect)

/-- The lines of a limit. -/
def limitLines (indent : Nat) (count offset : Option Int) : String :=
  let line (word : String) (n : Option Int) : String := match n with
    | some n => nextLine indent (word ++ " " ++ toString n)
    | none => ""
  line "LIMIT" count ++ line "OFFSET" offset

end Sql

namespace Plan

open Sql

/-- Whether a plan is a hierarchical walk. -/
def isHierarchical : Plan → Bool
  | hierarchical .. => true
  | _ => false

/-- A plan in SQL at a place. -/
def sqlAt : Plan → Place → Nat → Except PlanError String
  | relation name columns _, spot, indent => .ok (placeRelation indent name columns spot)
  | scan table columns _, spot, indent => .ok (placeRelation indent table columns spot)
  | aliased label input, .item, indent => sqlAt input (.named label) indent
  | aliased label input, spot, indent =>
    place indent (fun i =>
      if input.isHierarchical then sqlAt input (.block (some label)) i
      else do return selectFrom i "*" (← sqlAt input (.named label) i)) spot
  | join kind left right condition, spot, indent =>
    let item (i : Nat) : Except PlanError String := do
      let l ← sqlAt left .item i
      let r ← sqlAt right .item i
      joined i kind l r condition
    match spot with
    | .item => item indent
    | spot => place indent (fun i => do return selectFrom i "*" (← item i)) spot
  | hierarchical input startWith connectBy noCycle, spot, indent =>
    let block (owner : Option String) (i : Nat) : Except PlanError String :=
      walk i (sqlAt input (match owner with | some label => .named label | none => .item) i)
        startWith connectBy noCycle
    match spot with
    | .block owner => block owner indent
    | .item => place indent (block none) .item
    | .named label => place indent (block (some label)) (.named label)
  | project exprs input, spot, indent =>
    place indent (fun i => projection i exprs (sqlAt input .item i)) spot
  | filter predicate input, spot, indent =>
    place indent (fun i => do
      let fromItem ← sqlAt input .item i
      return selectFrom i "*" fromItem ++ nextLine i ("WHERE " ++ (← predicate.sql false))) spot
  | aggregate _ groupBy aggregates input, spot, indent =>
    place indent (fun i => aggregation i groupBy aggregates (sqlAt input .item i)) spot
  | sort keys input, spot, indent =>
    place indent (fun i => do
      let fromItem ← sqlAt input .item i
      return selectFrom i "*" fromItem ++
        nextLine i ("ORDER BY " ++ String.intercalate ", " (← sortKeys keys))) spot
  | limit count offset input, spot, indent =>
    place indent (fun i => do
      return selectFrom i "*" (← sqlAt input .item i) ++ limitLines i count offset) spot

/-- A plan in SQL. -/
def sql (p : Plan) : Except PlanError String := p.sqlAt (.block none) 0

end Plan

end QueryPlan
