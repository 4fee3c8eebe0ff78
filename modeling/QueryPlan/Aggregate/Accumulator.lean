import QueryPlan.Error

/-!
# Accumulators

An accumulator holds what one aggregate call has seen of a group so far.  `update` takes the
arguments of the call on one more row, `result` says what the call gives for the rows up to now.
Nulls among the arguments are passed over.

A sum is exact as long as it has met nothing but integers that fit a signed word; from the first
other number on it is a binary64 number.  Extremes keep a value of whatever kind they meet first,
and then only take values of the same kind.
-/

set_option autoImplicit false

namespace QueryPlan

/-- The running total of a sum. -/
inductive Total where
  | nothing
  | exact (total : Int)
  | rounded (total : Float)

namespace Total

/-- The total with one more number. -/
def add (t : Total) (n : Number) : Total :=
  match t, n.word? with
  | nothing, some i => exact i
  | nothing, none => rounded n.toFloat
  | exact total, some i => exact (total + i)
  | exact total, none => rounded (Float.ofInt total + n.toFloat)
  | rounded total, _ => rounded (total + n.toFloat)

/-- The total as a value: null if there were no numbers, and an integer if it is exact and fits a
signed word. -/
def value : Total → Value
  | nothing => .null
  | exact total => if Number.fitsWord total then .int total else .ofFloat (Float.ofInt total)
  | rounded total => .ofFloat total

end Total

/-- The order in which extremes are sought.  Integers that fit a signed word are compared exactly,
other numbers as binary64 numbers. -/
def Value.extremeOrder? : Value → Value → Option Ordering
  | .bool a, .bool b => some (Ord.compare a b)
  | .num a, .num b =>
    match a.word?, b.word? with
    | some i, some j => some (Ord.compare i j)
    | _, _ => some (a.order b)
  | .str a, .str b => some (Ord.compare a b)
  | _, _ => none

/-- Which extreme is sought. -/
inductive Extreme where
  | least
  | greatest
deriving DecidableEq

namespace Extreme

/-- The function that seeks the extreme. -/
def function : Extreme → AggregateFunction
  | least => .min
  | greatest => .max

/-- Whether a candidate takes the place of the value kept, given how the kept one compares. -/
def improves : Extreme → Ordering → Bool
  | least, o => o == .gt
  | greatest, o => o == .lt

/-- The better of the value kept and a candidate. -/
def better (x : Extreme) (kept candidate : Value) : Except PlanError Value :=
  match kept.extremeOrder? candidate with
  | some o => .ok (if x.improves o then candidate else kept)
  | none => .error .notComparable

end Extreme

/-- What a call has seen so far. -/
inductive Accumulator where
  | count (n : Nat)
  | sum (total : Total)
  | avg (total : Float) (n : Nat)
  | extreme (which : Extreme) (kept : Option Value)

namespace Accumulator

/-- The state before any row. -/
def fresh : AggregateFunction → Accumulator
  | .count => count 0
  | .sum => sum .nothing
  | .avg => avg 0 0
  | .min => extreme .least none
  | .max => extreme .greatest none

/-- The function whose state it is. -/
def function : Accumulator → AggregateFunction
  | count _ => .count
  | sum _ => .sum
  | avg _ _ => .avg
  | extreme which _ => which.function

/-- The state after one more value, for a call with one argument. -/
def updateOne (a : Accumulator) (v : Value) : Except PlanError Accumulator :=
  if v.isNull then .ok a
  else
    match a, v with
    | count n, _ => .ok (count (n + 1))
    | sum total, .num n => .ok (sum (total.add n))
    | sum _, v => .error (.notNumeric .sum v)
    | avg total n, .num x => .ok (avg (total + x.toFloat) (n + 1))
    | avg _ _, v => .error (.notNumeric .avg v)
    | extreme which none, v => .ok (extreme which (some v))
    | extreme which (some kept), v => do return extreme which (some (← which.better kept v))

/-- The state after one more row, given the arguments of the call on it. -/
def update (a : Accumulator) (args : List Value) : Except PlanError Accumulator :=
  match a, args with
  | count n, [] => .ok (count (n + 1))
  | a, [v] => a.updateOne v
  | a, _ => .error (.wrongArguments a.function)

/-- The result for the rows up to now. -/
def result : Accumulator → Value
  | count n => .int n
  | sum total => total.value
  | avg total n => if n = 0 then .null else .ofFloat (total / Float.ofNat n)
  | extreme _ kept => kept.getD .null

end Accumulator

end QueryPlan
