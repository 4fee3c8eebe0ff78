import QueryPlan.Aggregate.Function
import QueryPlan.Column
import QueryPlan.Literal

/-!
# Expressions

The expressions of a plan: scalars, predicates and aggregate calls in one type.  A column or an
alias is *named*; only named expressions can stand in the list of a projection or an aggregation,
since only they say which column they produce.

The functions here read an expression.  They go through it in one order, a node before its
children and the children from left to right.
-/

set_option autoImplicit false

namespace QueryPlan

/-- An expression. -/
inductive Expr where
  | lit (l : Literal)
  | col (c : Column)
  | call (name : String) (args : List Expr)
  | compare (left : Expr) (op : Comparison) (right : Expr)
  | and (operands : List Expr)
  | or (operands : List Expr)
  | not (operand : Expr)
  | isNull (operand : Expr) (negated : Bool)
  | inList (operand : Expr) (members : List Expr) (negated : Bool)
  | like (operand pattern : Expr) (negated : Bool)
  | aggregate (func : AggregateFunction) (args : List Expr) (distinct : Bool)
  | named (operand : Expr) (output : Column)

/-- A call of an aggregate function; no arguments count whole rows. -/
structure AggregateCall where
  func : AggregateFunction
  args : List Expr
  distinct : Bool

namespace Expr

/-! ## Parts and kinds -/

/-- The direct parts of an expression, from left to right. -/
def children : Expr → List Expr
  | lit _ | col _ => []
  | call _ args => args
  | compare left _ right => [left, right]
  | and operands | or operands => operands
  | not operand | isNull operand _ | named operand _ => [operand]
  | inList operand members _ => operand :: members
  | like operand pattern _ => [operand, pattern]
  | aggregate _ args _ => args

/-- The column produced by a named expression. -/
def output? : Expr → Option Column
  | col c => some c
  | named _ output => some output
  | _ => none

/-- The column that an expression is. -/
def column? : Expr → Option Column
  | col c => some c
  | _ => none

/-- Whether an expression is nothing but a column. -/
def isColumn (e : Expr) : Bool := e.column?.isSome

/-- The expression under one alias. -/
def unalias : Expr → Expr
  | named operand _ => operand
  | e => e

/-- The aggregate call that an expression is, once an alias is taken off. -/
def aggregateCall? (e : Expr) : Option AggregateCall :=
  match e.unalias with
  | aggregate func args distinct => some ⟨func, args, distinct⟩
  | _ => none

/-- Whether the node itself is an aggregate call. -/
def isAggregate : Expr → Bool
  | aggregate .. => true
  | _ => false

/-! ## Going through an expression -/

mutual

/-- An expression and all expressions inside it. -/
def subexprs : Expr → List Expr
  | lit l => [lit l]
  | col c => [col c]
  | call name args => call name args :: subexprsOf args
  | compare left op right => compare left op right :: (subexprs left ++ subexprs right)
  | and operands => and operands :: subexprsOf operands
  | or operands => or operands :: subexprsOf operands
  | not operand => not operand :: subexprs operand
  | isNull operand negated => isNull operand negated :: subexprs operand
  | inList operand members negated =>
    inList operand members negated :: (subexprs operand ++ subexprsOf members)
  | like operand pattern negated =>
    like operand pattern negated :: (subexprs operand ++ subexprs pattern)
  | aggregate func args distinct => aggregate func args distinct :: subexprsOf args
  | named operand output => named operand output :: subexprs operand

/-- All expressions inside those of a list. -/
def subexprsOf : List Expr → List Expr
  | [] => []
  | e :: rest => subexprs e ++ subexprsOf rest

end

theorem subexprsOf_eq_flatMap (es : List Expr) : subexprsOf es = es.flatMap subexprs := by
  induction es with
  | nil => rfl
  | cons e es ih => rw [subexprsOf, ih, List.flatMap_cons]

/-- An expression comes before what is inside its children. -/
theorem subexprs_eq (e : Expr) : e.subexprs = e :: e.children.flatMap subexprs := by
  cases e <;> simp [subexprs, children, subexprsOf_eq_flatMap]

/-- Every reference to a column, each as often as it occurs.  The output of an alias is produced
and not read. -/
def columns (e : Expr) : List Column := e.subexprs.filterMap column?

/-- The columns that an expression reads, each once. -/
def references (e : Expr) : List Column := Column.distinct e.columns

/-- The columns that several expressions read, each once. -/
def referencesOf (es : List Expr) : List Column := Column.distinct (es.flatMap references)

/-- Whether an aggregate call stands anywhere in an expression. -/
def hasAggregate (e : Expr) : Bool := e.subexprs.any isAggregate

/-- Whether an expression has the same value for every row. -/
def isConstant (e : Expr) : Bool := !e.subexprs.any fun x => x.isColumn || x.isAggregate

/-! ## Conjunctions -/

mutual

/-- The conjuncts of a predicate, taken out of conjunctions at any depth. -/
def conjuncts : Expr → List Expr
  | and operands => conjunctsOf operands
  | e => [e]

/-- The conjuncts of several predicates. -/
def conjunctsOf : List Expr → List Expr
  | [] => []
  | e :: rest => conjuncts e ++ conjunctsOf rest

end

/-- One predicate for a list of them, if there are any. -/
def conjunction? : List Expr → Option Expr
  | [] => none
  | [e] => some e
  | es => some (and es)

end Expr

namespace AggregateCall

/-- The call as an expression. -/
def expr (c : AggregateCall) : Expr := .aggregate c.func c.args c.distinct

/-- Whether rows with the same arguments may be counted once or many times alike. -/
def ignoresDuplicates (c : AggregateCall) : Bool := c.distinct || c.func.ignoresDuplicates

/-- Whether the call counts whole rows. -/
def countsRows (c : AggregateCall) : Bool := c.func == .count && c.args.isEmpty

/-- The call that combines partial results of this one, found in the column `part`. -/
def mergeOver? (c : AggregateCall) (part : Column) : Option AggregateCall :=
  (c.func.merge? c.distinct).map fun func => ⟨func, [.col part], false⟩

end AggregateCall

end QueryPlan
