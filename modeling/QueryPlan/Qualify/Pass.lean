import QueryPlan.Config
import QueryPlan.Error
import QueryPlan.Plan.Traverse
import QueryPlan.Qualify.Scope

/-!
# Qualifying the references of a plan

`Plan.qualify` gives each reference in a plan the alias under which its column is seen.  It goes
through the plan from the leaves up.

* A table-like relation gets a generated alias, numbered in the order in which relations are met.
  When the node above it is an alias of the plan's own, the generated one is taken back together
  with its number, and the references that already use it are renamed.
* The alias below a hierarchical walk is moved above it, after the clauses of the walk were
  qualified, so that the node above sees an aliased relation.
* A projection over an alias at the side of a join gets the same alias once more around it, so that
  the alias is seen at the join.
* At every other node, and at hierarchical walks, each reference gets its alias from the scope of
  the node.  A reference without alias is left alone and reported.

It fails at a reference that comes with more than one qualifier.  It would fail as well if a walk
were no walk any more after its clauses were qualified.
-/

set_option autoImplicit false

namespace QueryPlan

/-- A reference for which no alias is in scope, and the kind of the node that makes it. -/
structure Unresolved where
  column : Column
  node : String
deriving DecidableEq

/-- A plan with qualified references, and the references that could not be qualified. -/
structure Qualified where
  plan : Plan
  unresolved : List Unresolved

namespace Plan

/-! ## One node -/

/-- The references of a node that have no alias in a scope. -/
def unresolved (scope : Scope) (p : Plan) : List Unresolved :=
  (p.ownReferences.filter fun c => (scope.aliasOf? c).isNone).map fun c => ⟨c, p.kind⟩

/-- The first reference of a node that comes with several qualifiers. -/
def ambiguous? (p : Plan) : Option Column :=
  p.ownReferences.find? fun c => decide (1 < c.qualifiers.length)

/-- A node with its own references qualified from its scope. -/
def qualifyNode (p : Plan) : Except PlanError Qualified :=
  match p.ambiguous? with
  | some c => .error (.ambiguousQualifier c)
  | none => .ok ⟨p.mapColumns p.scope.resolve, p.unresolved p.scope⟩

/-- A reference that is qualified by exactly `old`, qualified by `new` instead. -/
def renameQualifier (old new : String) (c : Column) : Column :=
  if c.qualifier? = some old then c.qualify [new] else c

/-- A node with its own references moved from one alias to another. -/
def moveQualifiers (old new : String) (p : Plan) : Plan := p.mapColumns (renameQualifier old new)

/-- The side of a join: a projection over an alias gets the alias around it as well. -/
def raiseAlias : Plan → Plan
  | project exprs (aliased label input) => aliased label (project exprs (aliased label input))
  | p => p

/-! ## The pass -/

/-- A plan that has been gone through. -/
structure Pass where
  plan : Plan
  /-- Whether the alias at the top was generated by this pass and may still be taken back. -/
  generated : Bool
  /-- How many generated aliases are in use. -/
  counter : Nat
  unresolved : List Unresolved

namespace Pass

/-- A node over what has been gone through, with its references qualified. -/
def qualified (node : Plan) (counter : Nat) (below : List Unresolved) : Except PlanError Pass := do
  let q ← node.qualifyNode
  return ⟨q.plan, false, counter, below ++ q.unresolved⟩

/-- An alias over what has been gone through.  A generated alias right below it is taken back. -/
def underAlias (label : String) (below : Pass) : Pass :=
  match below.generated, below.plan with
  | true, aliased old input =>
    ⟨aliased label (input.moveQualifiers old label), false, below.counter - 1, below.unresolved⟩
  | _, input => ⟨aliased label input, false, below.counter, below.unresolved⟩

/-- A hierarchical walk that has been qualified: the alias below it moves above it, and stays
generated if it was. -/
def floatAlias (generated : Bool) (walk : Pass) : Except PlanError Pass :=
  match walk.plan with
  | hierarchical (aliased label input) startWith connectBy noCycle =>
    .ok { walk with
      plan := aliased label (hierarchical input startWith connectBy noCycle)
      generated }
  | hierarchical .. => .ok walk
  | _ => .error .changedWalk

end Pass

/-- Goes through a plan in which `counter` generated aliases are in use already. -/
def pass (config : Config) (counter : Nat) : Plan → Except PlanError Pass
  | relation name columns tableLike =>
    if tableLike && config.aliasTables then
      .ok ⟨aliased (config.generatedAlias (counter + 1)) (relation name columns tableLike), true,
        counter + 1, []⟩
    else .ok ⟨relation name columns tableLike, false, counter, []⟩
  | scan table columns source => .ok ⟨scan table columns source, false, counter, []⟩
  | aliased label input => do
    let below ← pass config counter input
    return below.underAlias label
  | hierarchical input startWith connectBy noCycle => do
    let below ← pass config counter input
    let walk ← Pass.qualified (hierarchical below.plan startWith connectBy noCycle) below.counter
      below.unresolved
    walk.floatAlias below.generated
  | join kind left right condition => do
    let l ← pass config counter left
    let r ← pass config l.counter right
    Pass.qualified (join kind l.plan.raiseAlias r.plan.raiseAlias condition) r.counter
      (l.unresolved ++ r.unresolved)
  | project exprs input => do
    let below ← pass config counter input
    Pass.qualified (project exprs below.plan) below.counter below.unresolved
  | filter predicate input => do
    let below ← pass config counter input
    Pass.qualified (filter predicate below.plan) below.counter below.unresolved
  | aggregate isPartial groupBy aggregates input => do
    let below ← pass config counter input
    Pass.qualified (aggregate isPartial groupBy aggregates below.plan) below.counter
      below.unresolved
  | sort keys input => do
    let below ← pass config counter input
    Pass.qualified (sort keys below.plan) below.counter below.unresolved
  | limit count offset input => do
    let below ← pass config counter input
    Pass.qualified (limit count offset below.plan) below.counter below.unresolved

/-- The plan with its references qualified. -/
def qualify (config : Config) (p : Plan) : Except PlanError Qualified := do
  let done ← pass config 0 p
  return ⟨done.plan, done.unresolved⟩

end Plan

end QueryPlan
