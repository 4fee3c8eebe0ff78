import QueryPlan.Text.Case

/-!
# Aggregate functions

The five functions that fold the values of a group into one, and which of them combines results
that were already folded group by group.
-/

set_option autoImplicit false

namespace QueryPlan

/-- A function over the values of a group. -/
inductive AggregateFunction where
  | count
  | sum
  | avg
  | min
  | max
deriving DecidableEq

namespace AggregateFunction

/-- The function's name. -/
def name : AggregateFunction → String
  | count => "count"
  | sum => "sum"
  | avg => "avg"
  | min => "min"
  | max => "max"

/-- All functions, in the order of their declaration. -/
def all : List AggregateFunction := [count, sum, avg, min, max]

/-- The function with a name, in either case of its letters. -/
def ofName? (s : String) : Option AggregateFunction :=
  all.find? fun f => f.name == Text.foldName s

/-- Whether a value that occurs twice counts no more than once. -/
def ignoresDuplicates : AggregateFunction → Bool
  | min | max => true
  | count | sum | avg => false

/-- The function that combines the results for the parts of a group into the result for the whole.
Distinct values of two parts may coincide, so only extremes can be combined then. -/
def merge? (f : AggregateFunction) (distinct : Bool) : Option AggregateFunction :=
  match f with
  | min => some min
  | max => some max
  | count | sum => if distinct then none else some sum
  | avg => none

end AggregateFunction

end QueryPlan
