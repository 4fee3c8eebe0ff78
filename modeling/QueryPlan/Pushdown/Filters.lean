import QueryPlan.Expr.Replace
import QueryPlan.Filter.Handover
import QueryPlan.Source

/-!
# Handing filters to a source

A predicate is offered to a source only when the source accepts filters on every column that the
predicate reads, and knows each of them.  The predicate is then written in the source's own names
before it is made a filter.
-/

set_option autoImplicit false

namespace QueryPlan

/-- The column of a map for a reference; an unknown reference stays. -/
def IdMap.columnFor (stored : IdMap Column) (c : Column) : Column := (stored.get? c.id).getD c

/-- An expression in a source's names, if the source knows every column in it. -/
def Expr.inStoredNames? (stored : IdMap Column) (e : Expr) : Option Expr :=
  if e.columns.all fun c => stored.contains c.id then some (e.mapColumns stored.columnFor)
  else none

namespace Source

/-- Whether a predicate may be offered to a source at all. -/
def acceptsPredicate (s : Source) (p : Expr) : Bool := p.references.all s.takesFiltersOn

/-- The handover of one predicate to a source.  A predicate that remains keeps its own names. -/
def handOver (s : Source) (p : Expr) : Handover :=
  if s.acceptsPredicate p then
    match p.inStoredNames? s.storedColumns with
    | some renamed =>
      let h := Handover.ofPredicate renamed
      ⟨h.pushed, if h.isExact then [] else [p]⟩
    | none => ⟨[], [p]⟩
  else ⟨[], [p]⟩

/-- The handover of several predicates to a source. -/
def handOverAll (s : Source) (predicates : List Expr) : Handover :=
  .concat (predicates.map s.handOver)

end Source

end QueryPlan
