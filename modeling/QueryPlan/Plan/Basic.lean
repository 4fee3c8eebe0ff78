import QueryPlan.Plan.JoinKind
import QueryPlan.Source

/-!
# Plans

A logical plan is a tree of operators over relations and scans.  `Plan.output` says which columns an
operator produces, and `Plan.expressions` which expressions it holds itself, in a fixed order of
their places.
-/

set_option autoImplicit false

namespace QueryPlan

/-- One key of a sort. -/
structure SortKey where
  expr : Expr
  ascending : Bool

/-- A logical plan. -/
inductive Plan where
  /-- A relation with a name.  A table-like one is a plain table in SQL. -/
  | relation (name : String) (columns : List Column) (tableLike : Bool)
  /-- A plan under an alias, which qualifies the columns it produces. -/
  | aliased (label : String) (input : Plan)
  | join (kind : JoinKind) (left right : Plan) (condition : Option Expr)
  /-- A walk along a parent relation. -/
  | hierarchical (input : Plan) (startWith : Option Expr) (connectBy : Expr) (noCycle : Bool)
  /-- Named expressions over the rows of the input. -/
  | project (exprs : List Expr) (input : Plan)
  | filter (predicate : Expr) (input : Plan)
  /-- Groups of the input's rows.  A partial aggregation is the first of several stages. -/
  | aggregate (isPartial : Bool) (groupBy : List Column) (aggregates : List Expr) (input : Plan)
  | sort (keys : List SortKey) (input : Plan)
  | limit (count offset : Option Int) (input : Plan)
  /-- The rows of a source. -/
  | scan (table : String) (columns : List Column) (source : Source)

namespace Plan

/-- The word for an operator. -/
def kind : Plan → String
  | relation .. => "BaseRelation"
  | aliased .. => "Subquery"
  | join .. => "Join"
  | hierarchical .. => "Hierarchical"
  | project .. => "Project"
  | filter .. => "Filter"
  | aggregate .. => "Aggregate"
  | sort .. => "Sort"
  | limit .. => "Limit"
  | scan .. => "Scan"

/-- Whether a plan has no input. -/
def isLeaf : Plan → Bool
  | relation .. | scan .. => true
  | _ => false

/-- Whether a plan is a table-like relation. -/
def isTableLike : Plan → Bool
  | relation _ _ tableLike => tableLike
  | _ => false

/-- The columns that a plan produces, in their order. -/
def output : Plan → List Column
  | relation _ columns _ | scan _ columns _ => columns
  | aliased _ input | hierarchical input .. | filter _ input | sort _ input | limit _ _ input =>
    output input
  | join _ left right _ => output left ++ output right
  | project exprs _ => exprs.filterMap Expr.output?
  | aggregate _ groupBy aggregates _ => groupBy ++ aggregates.filterMap Expr.output?

/-- The inputs of an operator, from left to right. -/
def children : Plan → List Plan
  | relation .. | scan .. => []
  | join _ left right _ => [left, right]
  | aliased _ input | hierarchical input .. | project _ input | filter _ input
  | aggregate _ _ _ input | sort _ input | limit _ _ input => [input]

/-- The expressions that an operator holds itself, in the order of their places.  Grouping columns
count as expressions. -/
def expressions : Plan → List Expr
  | relation .. | scan .. | aliased .. | limit .. => []
  | join _ _ _ condition => condition.toList
  | hierarchical _ startWith connectBy _ => startWith.toList ++ [connectBy]
  | project exprs _ => exprs
  | filter predicate _ => [predicate]
  | aggregate _ groupBy aggregates _ => groupBy.map .col ++ aggregates
  | sort keys _ => keys.map (·.expr)

/-- A plan and all plans below it, a node before its inputs and the left before the right. -/
def nodes : Plan → List Plan
  | relation name columns tableLike => [relation name columns tableLike]
  | aliased label input => aliased label input :: nodes input
  | join kind left right condition => join kind left right condition :: (nodes left ++ nodes right)
  | hierarchical input startWith connectBy noCycle =>
    hierarchical input startWith connectBy noCycle :: nodes input
  | project exprs input => project exprs input :: nodes input
  | filter predicate input => filter predicate input :: nodes input
  | aggregate isPartial groupBy aggregates input =>
    aggregate isPartial groupBy aggregates input :: nodes input
  | sort keys input => sort keys input :: nodes input
  | limit count offset input => limit count offset input :: nodes input
  | scan table columns source => [scan table columns source]

/-- Every reference to a column that an operator's own expressions make. -/
def ownReferences (p : Plan) : List Column := p.expressions.flatMap Expr.columns

/-- Every reference to a column in a plan, each as often as it occurs. -/
def allReferences (p : Plan) : List Column := p.nodes.flatMap ownReferences

/-- The columns that are read anywhere in a plan, each once. -/
def references (p : Plan) : List Column :=
  Column.distinct (p.nodes.flatMap fun n => n.expressions.flatMap Expr.references)

/-- A plan comes before what is below it. -/
theorem nodes_eq (p : Plan) : p.nodes = p :: p.children.flatMap nodes := by
  cases p <;> simp [nodes, children]

end Plan

end QueryPlan
