import QueryPlan.Expr.Replace
import QueryPlan.Plan.Basic

/-!
# Changing plans in place

Two ways to change a plan and keep the rest of it: at the expressions of one operator (`mapExprs`),
and at the operators themselves, from the leaves up (`mapUp`).  Both come with a form for functions
that may fail or keep a record.  Those meet the expressions in the order of `Plan.expressions`, and
the operators with the inputs before the node and the left input before the right.  With functions
that do neither they agree with the plain ones (`mapExprsM_pure`, `mapUpM_pure`).
-/

set_option autoImplicit false

namespace QueryPlan.Plan

/-! ## The expressions of one operator -/

/-- A grouping column in whose place an expression has come.  What is no named expression produces
no column, and leaves the old one. -/
def groupingColumn (old : Column) (e : Expr) : Column := e.output?.getD old

/-- A function applied to each expression of an operator. -/
def mapExprs (f : Expr → Expr) : Plan → Plan
  | relation name columns tableLike => relation name columns tableLike
  | aliased label input => aliased label input
  | join kind left right condition => join kind left right (condition.map f)
  | hierarchical input startWith connectBy noCycle =>
    hierarchical input (startWith.map f) (f connectBy) noCycle
  | project exprs input => project (exprs.map f) input
  | filter predicate input => filter (f predicate) input
  | aggregate isPartial groupBy aggregates input =>
    aggregate isPartial (groupBy.map fun c => groupingColumn c (f (.col c))) (aggregates.map f)
      input
  | sort keys input => sort (keys.map fun k => { k with expr := f k.expr }) input
  | limit count offset input => limit count offset input
  | scan table columns source => scan table columns source

/-- Every column in the expressions of an operator replaced by a column. -/
def mapColumns (g : Column → Column) (p : Plan) : Plan := p.mapExprs (Expr.mapColumns g)

/-- A function with effects applied to each expression of an operator. -/
def mapExprsM {m : Type → Type} [Monad m] (f : Expr → m Expr) : Plan → m Plan
  | relation name columns tableLike => pure (relation name columns tableLike)
  | aliased label input => pure (aliased label input)
  | join kind left right condition => do
    let condition ← condition.mapM f
    return join kind left right condition
  | hierarchical input startWith connectBy noCycle => do
    let startWith ← startWith.mapM f
    return hierarchical input startWith (← f connectBy) noCycle
  | project exprs input => return project (← exprs.mapM f) input
  | filter predicate input => return filter (← f predicate) input
  | aggregate isPartial groupBy aggregates input => do
    let groupBy ← groupBy.mapM fun c => do return groupingColumn c (← f (.col c))
    return aggregate isPartial groupBy (← aggregates.mapM f) input
  | sort keys input => do
    return sort (← keys.mapM fun k => do return { k with expr := ← f k.expr }) input
  | limit count offset input => pure (limit count offset input)
  | scan table columns source => pure (scan table columns source)

theorem mapExprsM_pure {m : Type → Type} [Monad m] [LawfulMonad m] (f : Expr → Expr) (p : Plan) :
    p.mapExprsM (fun e => (pure (f e) : m Expr)) = pure (p.mapExprs f) := by
  have option (o : Option Expr) : o.mapM (fun e => (pure (f e) : m Expr)) = pure (o.map f) := by
    cases o <;> simp
  cases p <;> simp [mapExprsM, mapExprs, option]

/-! ## Operators from the leaves up -/

/-- A function applied to each input of an operator. -/
def mapChildren (f : Plan → Plan) : Plan → Plan
  | relation name columns tableLike => relation name columns tableLike
  | aliased label input => aliased label (f input)
  | join kind left right condition => join kind (f left) (f right) condition
  | hierarchical input startWith connectBy noCycle =>
    hierarchical (f input) startWith connectBy noCycle
  | project exprs input => project exprs (f input)
  | filter predicate input => filter predicate (f input)
  | aggregate isPartial groupBy aggregates input =>
    aggregate isPartial groupBy aggregates (f input)
  | sort keys input => sort keys (f input)
  | limit count offset input => limit count offset (f input)
  | scan table columns source => scan table columns source

/-- A function applied to every operator, after its inputs. -/
def mapUp (f : Plan → Plan) : Plan → Plan
  | relation name columns tableLike => f (relation name columns tableLike)
  | aliased label input => f (aliased label (mapUp f input))
  | join kind left right condition => f (join kind (mapUp f left) (mapUp f right) condition)
  | hierarchical input startWith connectBy noCycle =>
    f (hierarchical (mapUp f input) startWith connectBy noCycle)
  | project exprs input => f (project exprs (mapUp f input))
  | filter predicate input => f (filter predicate (mapUp f input))
  | aggregate isPartial groupBy aggregates input =>
    f (aggregate isPartial groupBy aggregates (mapUp f input))
  | sort keys input => f (sort keys (mapUp f input))
  | limit count offset input => f (limit count offset (mapUp f input))
  | scan table columns source => f (scan table columns source)

/-- The function meets an operator over inputs that were gone through. -/
theorem mapUp_eq (f : Plan → Plan) (p : Plan) : p.mapUp f = f (p.mapChildren (mapUp f)) := by
  cases p <;> rfl

/-- A function with effects applied to every operator, after its inputs. -/
def mapUpM {m : Type → Type} [Monad m] (f : Plan → m Plan) : Plan → m Plan
  | relation name columns tableLike => f (relation name columns tableLike)
  | aliased label input => do f (aliased label (← mapUpM f input))
  | join kind left right condition => do
    let left ← mapUpM f left
    let right ← mapUpM f right
    f (join kind left right condition)
  | hierarchical input startWith connectBy noCycle => do
    f (hierarchical (← mapUpM f input) startWith connectBy noCycle)
  | project exprs input => do f (project exprs (← mapUpM f input))
  | filter predicate input => do f (filter predicate (← mapUpM f input))
  | aggregate isPartial groupBy aggregates input => do
    f (aggregate isPartial groupBy aggregates (← mapUpM f input))
  | sort keys input => do f (sort keys (← mapUpM f input))
  | limit count offset input => do f (limit count offset (← mapUpM f input))
  | scan table columns source => f (scan table columns source)

theorem mapUpM_pure {m : Type → Type} [Monad m] [LawfulMonad m] (f : Plan → Plan) (p : Plan) :
    p.mapUpM (fun q => (pure (f q) : m Plan)) = pure (p.mapUp f) := by
  induction p <;> simp_all [mapUpM, mapUp]

end QueryPlan.Plan
