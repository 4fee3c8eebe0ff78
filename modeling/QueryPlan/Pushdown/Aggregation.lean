import QueryPlan.Config
import QueryPlan.Plan.Basic
import QueryPlan.Pushdown.Filters
import QueryPlan.Pushdown.Inline
import QueryPlan.Pushdown.Prune

/-!
# Handing an aggregation to a source

A partial aggregation over filters, at most one projection, and a scan can be done by the source of
the scan.  There are three outcomes, and `Plan.pushDown?` chooses between them.

* Every filter can be handed over exactly and the source computes every aggregate.  Then the source
  groups and folds, and a local stage passes its rows on.
* Every filter can be handed over exactly, and the source computes some of the aggregates.  If the
  others ignore duplicates, the source groups more finely, by all columns that the others read as
  well, and a local stage folds the others and merges what the source has folded.
* Some filter cannot be handed over exactly.  If the settings allow it, the source gives plain rows
  and everything else is done locally.

In all other cases there is no plan.
-/

set_option autoImplicit false

namespace QueryPlan

/-! ## The shape of the input -/

namespace Plan

/-- The conjuncts of the filters at the top of a plan, and the plan below them. -/
def peelFilters : Plan → List Expr × Plan
  | filter predicate input =>
    let (rest, bottom) := peelFilters input
    (predicate.conjuncts ++ rest, bottom)
  | p => ([], p)

end Plan

/-- A scan under filters and at most one projection.  The filters read the scan. -/
structure FilteredScan where
  projection : Option (List Expr)
  filters : List Expr
  source : Source

namespace FilteredScan

/-- What the projection defines. -/
def definitions (s : FilteredScan) : IdMap Expr := definitionsOf (s.projection.getD [])

/-- The shape of a plan that has it.  Conjuncts above the projection are moved below it. -/
def ofPlan? (p : Plan) : Option FilteredScan :=
  let (above, bottom) := p.peelFilters
  match bottom with
  | .scan _ _ source => some ⟨none, above, source⟩
  | .project exprs input =>
    let (below, bottom) := input.peelFilters
    match bottom with
    | .scan _ _ source =>
      some ⟨some exprs, below ++ above.map (readThrough (definitionsOf exprs)), source⟩
    | _ => none
  | _ => none

end FilteredScan

/-! ## Aggregates after a first stage -/

namespace Expr

/-- Whether an expression is an aggregate call under a name. -/
def isNamedAggregate (e : Expr) : Bool := e.aggregateCall?.isSome && e.output?.isSome

/-- The aggregate that combines the partial results of this one, found under its own name. -/
def merged? (e : Expr) : Option Expr := do
  let out ← e.output?
  let merge ← (← e.aggregateCall?).mergeOver? out
  return named merge.expr out

/-- The aggregate that passes a single result on, found under its own name. -/
def passedThrough? (e : Expr) : Option Expr := do
  let out ← e.output?
  return named (aggregate .max [col out] false) out

/-- The aggregate over the one row that comes for each group. -/
def finished? (e : Expr) : Option Expr := e.merged?.or e.passedThrough?

/-- Whether an aggregate ignores duplicates. -/
def ignoresDuplicates (e : Expr) : Bool :=
  match e.aggregateCall? with
  | some c => c.ignoresDuplicates
  | none => false

/-- Whether an aggregate counts. -/
def isCount (e : Expr) : Bool :=
  match e.aggregateCall? with
  | some c => c.func == .count
  | none => false

/-- Whether an expression produces a column with an identity. -/
def produces (id : ColumnId) (e : Expr) : Bool :=
  match e.output? with
  | some c => c.id == id
  | none => false

/-- The grouping of a first stage that has to keep some columns apart as well. -/
def groupingWith (groups : List Expr) (columns : List Column) : List Expr :=
  columns.foldl (fun gs c => if gs.any (produces c.id) then gs else gs ++ [col c]) groups

end Expr

/-! ## The plans -/

namespace FilteredScan

/-- A grouping column as the source has to compute it. -/
def pushedGroup (s : FilteredScan) (g : Column) : Expr :=
  match s.definitions.get? g.id with
  | some definition => .named definition g
  | none => .col g

/-- The scan that groups and folds. -/
def groupedScan (s : FilteredScan) (filters : List Filter) (groupBy aggregates : List Expr) :
    Physical :=
  let projection := match s.projection with
    | some exprs => exprs
    | none => (Expr.referencesOf (groupBy ++ aggregates)).map .col
  prunedScan projection s.filters s.source { filters, groupBy, aggregates }

/-- The columns that are needed above a plain scan. -/
def plainColumns (s : FilteredScan) (groupBy : List Column) (aggregates remaining : List Expr) :
    List Column :=
  match s.projection with
  | some exprs => Expr.referencesOf (exprs ++ remaining)
  | none => Expr.referencesOf (groupBy.map .col ++ aggregates ++ remaining)

/-- A plain scan of what the filters leave, with everything else done locally. -/
def localPlan (s : FilteredScan) (groupBy : List Column) (aggregates : List Expr) (h : Handover) :
    Physical :=
  let scan := Physical.scan s.source
    { columns := s.plainColumns groupBy aggregates h.remaining, filters := h.pushed }
  let filtered := match Expr.conjunction? h.remaining with
    | some predicate => .filter predicate scan
    | none => scan
  let projected := match s.projection with
    | some exprs => .project exprs filtered
    | none => filtered
  .aggregate false groupBy aggregates projected

/-- The plan in which the source computes every aggregate.  It groups by the grouping columns
themselves, so one row comes for each group. -/
def wholePlan? (s : FilteredScan) (groupBy : List Column) (aggregates : List Expr)
    (filters : List Filter) : Option Physical := do
  let finals ← aggregates.mapM Expr.finished?
  return .aggregate false groupBy finals
    (s.groupedScan filters (groupBy.map s.pushedGroup) aggregates)

/-- The plan in which the source computes some aggregates and the others follow locally.  A count
over no rows at all would be lost between two stages without a group, so it is not split. -/
def splitPlan? (config : Config) (s : FilteredScan) (groupBy : List Column)
    (supported unsupported : List Expr) (filters : List Filter) : Option Physical := do
  let merged ← supported.mapM Expr.merged?
  let groups := Expr.groupingWith (groupBy.map s.pushedGroup) (Expr.referencesOf unsupported)
  if config.allowSplit && unsupported.all Expr.ignoresDuplicates &&
      !(groupBy.isEmpty && !groups.isEmpty && supported.any Expr.isCount) then
    some (.aggregate false groupBy (unsupported ++ merged) (s.groupedScan filters groups supported))
  else none

/-- The plan for an aggregation over a scan. -/
def plan? (config : Config) (s : FilteredScan) (groupBy : List Column) (aggregates : List Expr) :
    Option Physical :=
  let h := s.source.handOverAll s.filters
  if h.isExact then
    let inlined := aggregates.map (readThrough s.definitions)
    let supported := inlined.filter s.source.takesAggregate
    let unsupported := inlined.filter fun e => !s.source.takesAggregate e
    if unsupported.isEmpty then s.wholePlan? groupBy supported h.pushed
    else s.splitPlan? config groupBy supported unsupported h.pushed
  else if config.exactFiltersOnly then none
  else some (s.localPlan groupBy aggregates h)

end FilteredScan

namespace Plan

/-- The physical plan for a partial aggregation, where there is one. -/
def pushDown? (config : Config) : Plan → Option Physical
  | aggregate true groupBy aggregates input =>
    if aggregates.all Expr.isNamedAggregate then
      (FilteredScan.ofPlan? input).bind fun s => s.plan? config groupBy aggregates
    else none
  | _ => none

/-- The first physical plan that one of several settings gives. -/
def pushDownFirst? (configs : List Config) (p : Plan) : Option Physical :=
  configs.findSome? fun config => p.pushDown? config

end Plan

end QueryPlan
