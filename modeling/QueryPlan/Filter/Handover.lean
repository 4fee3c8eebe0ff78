import QueryPlan.Expr.Basic
import QueryPlan.Filter.Basic

/-!
# From predicates to filters

A predicate becomes a filter when each of its leaves tests one column against literals.  Where some
operands of a conjunction do not, the others still make a filter, one that admits more rows.  That
is allowed as long as nothing negates it: under a negation a weaker filter would be a stronger one,
so there every leaf has to fit.  A disjunction needs all its operands in any case.

`Expr.toFilter?` takes the permission to weaken as its first argument.  `Handover.ofPredicates`
hands over what can be handed over, and gives back the predicates that still have to be tested
afterwards.
-/

set_option autoImplicit false

namespace QueryPlan

namespace Expr

/-- The literal that an expression is. -/
def literal? : Expr → Option Literal
  | lit l => some l
  | _ => none

mutual

/-- The filter for a predicate; with `weaken`, one that may admit more rows. -/
def toFilter? : Bool → Expr → Option Filter
  | _, compare (col c) op (lit l) => some (.ofComparison c.name op l)
  | _, compare (lit l) op (col c) => some (.ofComparison c.name op.flip l)
  | _, inList (col c) members negated =>
    (members.mapM literal?).map fun values => (Filter.oneOf c.name values).negateIf negated
  | _, isNull (col c) negated => some (if negated then .isNotNull c.name else .isNull c.name)
  | weaken, and operands =>
    let filters := toFilters weaken operands
    if !weaken && filters.any Option.isNone then none
    else Filter.conjunction? (filters.filterMap id)
  | weaken, or operands => ((toFilters weaken operands).mapM id).bind Filter.disjunction?
  | _, not operand => (toFilter? false operand).map .not
  | _, _ => none

/-- The filters for several predicates. -/
def toFilters : Bool → List Expr → List (Option Filter)
  | _, [] => []
  | weaken, e :: rest => toFilter? weaken e :: toFilters weaken rest

end

theorem toFilters_eq_map (weaken : Bool) (es : List Expr) :
    toFilters weaken es = es.map (toFilter? weaken) := by
  induction es with
  | nil => rfl
  | cons e es ih => rw [toFilters, ih, List.map_cons]

end Expr

/-- Predicates handed to a backend: the filters it takes, and what is left to test. -/
structure Handover where
  pushed : List Filter
  remaining : List Expr

namespace Handover

/-- Nothing to hand over. -/
def empty : Handover := ⟨[], []⟩

/-- Whether the filters say all that the predicates said. -/
def isExact (h : Handover) : Bool := h.remaining.isEmpty

/-- Two handovers, one after the other. -/
def append (a b : Handover) : Handover := ⟨a.pushed ++ b.pushed, a.remaining ++ b.remaining⟩

/-- Handovers, one after the other. -/
def concat (hs : List Handover) : Handover := hs.foldr append empty

/-- The handover of one predicate: its exact filter, or a weaker one and the predicate itself. -/
def ofPredicate (p : Expr) : Handover :=
  match p.toFilter? false with
  | some f => ⟨[f], []⟩
  | none => ⟨(p.toFilter? true).toList, [p]⟩

end Handover

/-- The handover of several predicates. -/
def Handover.ofPredicates (predicates : List Expr) : Handover :=
  .concat (predicates.map .ofPredicate)

end QueryPlan
