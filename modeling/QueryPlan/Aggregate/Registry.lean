import QueryPlan.Aggregate.Accumulator

/-!
# Registered aggregate functions

A registry knows some of the aggregate functions and hands out fresh accumulators for those it
knows.  Names are looked up in either case of their letters and listed in ascending order.
-/

set_option autoImplicit false

namespace QueryPlan

/-- The functions that are known. -/
structure Registry where
  functions : List AggregateFunction

namespace Registry

/-- The registry that knows no function. -/
def empty : Registry := ⟨[]⟩

/-- The registry that knows all functions. -/
def standard : Registry := ⟨AggregateFunction.all⟩

/-- The registry that knows one function more. -/
def register (r : Registry) (f : AggregateFunction) : Registry :=
  if f ∈ r.functions then r else ⟨f :: r.functions⟩

/-- The known function with a name. -/
def get? (r : Registry) (name : String) : Option AggregateFunction :=
  r.functions.find? fun f => f.name == Text.foldName name

/-- The names of the known functions, in ascending order. -/
def names (r : Registry) : List String :=
  (r.functions.map AggregateFunction.name).mergeSort fun a b => decide (a ≤ b)

/-- A fresh accumulator for a call. -/
def fresh (r : Registry) (call : AggregateCall) : Except PlanError Accumulator :=
  match r.get? call.func.name with
  | some f => .ok (.fresh f)
  | none => .error (.unknownAggregate call.func.name)

end Registry

end QueryPlan
