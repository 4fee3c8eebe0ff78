import QueryPlan.Source

/-!
# Physical plans

A physical plan is a scan of one source with a chain of local operators over it.  Running it scans
the source and hands the rows up the chain.
-/

set_option autoImplicit false

namespace QueryPlan

/-- A scan with local operators over it. -/
inductive Physical where
  /-- Groups of the input's rows. -/
  | aggregate (isPartial : Bool) (groupBy : List Column) (aggregates : List Expr)
    (input : Physical)
  /-- The rows of the input that a predicate accepts. -/
  | filter (predicate : Expr) (input : Physical)
  /-- Named expressions over the rows of the input. -/
  | project (exprs : List Expr) (input : Physical)
  /-- The answer of a source to a request. -/
  | scan (source : Source) (request : Request)

namespace Physical

/-- The columns of the rows that a plan gives. -/
def output : Physical → List Column
  | aggregate _ groupBy aggregates _ => groupBy ++ aggregates.filterMap Expr.output?
  | filter _ input => output input
  | project exprs _ => exprs.filterMap Expr.output?
  | scan _ request => request.output

/-- The source at the bottom of a plan. -/
def source : Physical → Source
  | aggregate _ _ _ input | filter _ input | project _ input => source input
  | scan source _ => source

/-- The request at the bottom of a plan. -/
def request : Physical → Request
  | aggregate _ _ _ input | filter _ input | project _ input => request input
  | scan _ request => request

/-- How many local aggregations a plan has. -/
def stages : Physical → Nat
  | aggregate _ _ _ input => stages input + 1
  | filter _ input | project _ input => stages input
  | scan _ _ => 0

/-- The rows that a plan gives. -/
def run : Physical → Except PlanError (List Row)
  | aggregate _ groupBy aggregates input => do
    groupAndFold (← run input) (groupBy.map .col) aggregates
  | filter predicate input => do
    return (← run input).filter fun row => (predicate.truth row).accepts
  | project exprs input => do projectEach (← run input) exprs
  | scan source request => source.scan request

end Physical

end QueryPlan
