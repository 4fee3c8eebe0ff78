import QueryPlan.Aggregate.Accumulator
import QueryPlan.Expr.Eval

/-!
# Grouping and projecting rows

`projectEach` evaluates named expressions on each row.  `groupAndFold` groups rows by the values
of some expressions and folds the aggregate calls over each group.

Two rows are in one group when the texts of their key values agree.  Groups come out in the order in
which their first rows came in.  Without keys all rows are one group, and there is one even when
there are no rows.  A distinct call passes over arguments that it has met in the same group.

Rows are taken one after the other, and on each the calls in their order, so the first failure in
this order is the one reported.
-/

set_option autoImplicit false

namespace QueryPlan

namespace Expr

/-- The key of the cell that a named expression fills. -/
def outputKey (e : Expr) : Except PlanError String :=
  match e.output? with
  | some c => .ok c.rowKey
  | none => .error (.unnamed e)

/-- The aggregate call of an expression. -/
def aggregateCall (e : Expr) : Except PlanError AggregateCall :=
  match e.aggregateCall? with
  | some c => .ok c
  | none => .error (.notAggregate e)

end Expr

/-! ## Projection -/

/-- One row of expressions evaluated under keys. -/
def projectOne (keys : List String) (exprs : List Expr) (row : Row) : Row :=
  .ofCells (keys.zip (exprs.map (Expr.eval row)))

/-- Named expressions evaluated on each row. -/
def projectEach (rows : List Row) (exprs : List Expr) : Except PlanError (List Row) := do
  let keys ← exprs.mapM Expr.outputKey
  return rows.map (projectOne keys exprs)

/-! ## Groups -/

/-- One call in one group: its state, and the argument tuples that a distinct call has met. -/
structure CallState where
  call : AggregateCall
  state : Accumulator
  met : List String

namespace CallState

/-- A call before any row. -/
def fresh (call : AggregateCall) : CallState := ⟨call, .fresh call.func, []⟩

/-- A call after one more row. -/
def feed (s : CallState) (row : Row) : Except PlanError CallState :=
  let args := s.call.args.map (Expr.eval row)
  if s.call.distinct then
    let text := Value.tupleText args
    if text ∈ s.met then .ok s
    else do return { s with state := ← s.state.update args, met := text :: s.met }
  else do return { s with state := ← s.state.update args }

end CallState

/-- The rows with one tuple of key values. -/
structure Group where
  key : List Value
  calls : List CallState

namespace Group

/-- A group before any row. -/
def fresh (calls : List AggregateCall) (key : List Value) : Group :=
  ⟨key, calls.map .fresh⟩

/-- The text that tells groups apart. -/
def text (g : Group) : String := Value.tupleText g.key

/-- A group after one more row. -/
def feed (g : Group) (row : Row) : Except PlanError Group := do
  return { g with calls := ← g.calls.mapM (·.feed row) }

/-- The row for a group: key values first, then results. -/
def row (keyNames resultNames : List String) (g : Group) : Row :=
  .ofCells (keyNames.zip g.key ++ resultNames.zip (g.calls.map (·.state.result)))

end Group

/-- Feeds a row to the group with its key, which is opened at the end if it is new. -/
def feedGroups (calls : List AggregateCall) (key : List Value) (row : Row) :
    List Group → Except PlanError (List Group)
  | [] => do return [← (Group.fresh calls key).feed row]
  | g :: rest =>
    if g.text = Value.tupleText key then do return (← g.feed row) :: rest
    else do return g :: (← feedGroups calls key row rest)

/-- The groups of rows by the values of `keys`. -/
def groupRows (keys : List Expr) (calls : List AggregateCall) (rows : List Row) :
    Except PlanError (List Group) :=
  rows.foldlM (fun groups row => feedGroups calls (keys.map (Expr.eval row)) row groups) []

/-- One row for each group of rows: the values of the keys and the results of the aggregates. -/
def groupAndFold (rows : List Row) (keys aggregates : List Expr) :
    Except PlanError (List Row) := do
  let calls ← aggregates.mapM Expr.aggregateCall
  let keyNames ← keys.mapM Expr.outputKey
  let resultNames ← aggregates.mapM Expr.outputKey
  let groups ← groupRows keys calls rows
  let groups := if groups.isEmpty && keys.isEmpty then [Group.fresh calls []] else groups
  return groups.map (Group.row keyNames resultNames)

end QueryPlan
