import QueryPlan.Aggregate.Rows
import QueryPlan.Filter.Basic
import QueryPlan.IdMap

/-!
# Sources

A source is a storage backend that holds its rows in memory.  It declares columns, and keeps the
cells of a column under a name of its own, the column's stored name.  A request asks it either for
columns of its rows or for groups of them; in both cases it first drops the rows that some filter
does not accept.

Which filters and aggregates a source offers to take is up to it; whatever it is asked for, it
computes.
-/

set_option autoImplicit false

namespace QueryPlan

/-- What a source is asked for: columns of its rows, or groups of its rows. -/
structure Request where
  columns : List Column := []
  filters : List Filter := []
  groupBy : List Expr := []
  aggregates : List Expr := []

namespace Request

/-- Whether a request asks for groups. -/
def isAggregate (r : Request) : Bool := !r.groupBy.isEmpty || !r.aggregates.isEmpty

/-- The columns of the rows that answer a request. -/
def output (r : Request) : List Column :=
  if r.isAggregate then (r.groupBy ++ r.aggregates).filterMap Expr.output? else r.columns

end Request

/-- A storage backend.  A source is known by its name: no two sources have the same. -/
structure Source where
  name : String
  /-- The declared columns, each with its stored name. -/
  declared : List (Column × String)
  /-- The rows, keyed by stored names. -/
  rows : List Row
  /-- Whether predicates on a column may be handed over. -/
  takesFiltersOn : Column → Bool
  /-- Whether an aggregate may be handed over. -/
  takesAggregate : Expr → Bool

namespace Source

/-- The name with its label. -/
def inspect (s : Source) : String := "SourceHandle(" ++ s.name ++ ")"

/-- The declared columns. -/
def columns (s : Source) : List Column := s.declared.map (·.1)

/-- The columns as the source names them, under the identities of the declared ones. -/
def storedColumns (s : Source) : IdMap Column :=
  .ofList (s.declared.map fun (c, name) => (c.id, Column.plain c.id name))

/-- Whether the source has a column of its own with a name. -/
def stores (s : Source) (name : String) : Bool :=
  s.storedColumns.values.any fun c => c.name == name

/-- The cell of a declared column in a stored row. -/
def storedCell (s : Source) (row : Row) (c : Column) : Value :=
  match s.storedColumns.get? c.id with
  | some stored => row.cell stored.name
  | none => .null

/-- A stored row keyed as the plan keys it. -/
def engineRow (s : Source) (row : Row) : Row :=
  .ofCells (s.columns.map fun c => (c.rowKey, s.storedCell row c))

/-- A column in a filter that the source does not have. -/
def unknownColumn? (s : Source) (filters : List Filter) : Option String :=
  filters.findSome? fun f => f.columns.find? fun c => !s.stores c

/-- The rows that every filter accepts, keyed as the plan keys them. -/
def matching (s : Source) (filters : List Filter) : List Row :=
  (s.rows.filter fun r => filters.all fun f => (f.truth r).accepts).map s.engineRow

/-- The cells under some keys, each taken out of the row as it is asked for. -/
def takeCells : List String → Row → List (String × Value)
  | [], _ => []
  | key :: rest, row => (key, row.cell key) :: takeCells rest (row.erase key)

/-- The rows that answer a request. -/
def scan (s : Source) (request : Request) : Except PlanError (List Row) :=
  match s.unknownColumn? request.filters with
  | some column => .error (.unknownFilterColumn s.name column)
  | none =>
    let rows := s.matching request.filters
    if request.isAggregate then groupAndFold rows request.groupBy request.aggregates
    else .ok (rows.map fun row => .ofCells (takeCells (request.columns.map Column.rowKey) row))

end Source

end QueryPlan
