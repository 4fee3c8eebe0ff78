import QueryPlan.Expr.Text
import QueryPlan.Plan.JoinKind

/-!
# What can go wrong

`PlanError` names every cause for which qualifying, printing or running a plan gives up.  The causes
fall into six kinds, and each cause has one message.
-/

set_option autoImplicit false

namespace QueryPlan

/-- A cause of failure. -/
inductive PlanError where
  /-- A reference has several qualifiers before any is given to it. -/
  | ambiguousQualifier (column : Column)
  /-- Qualifying made something else of a hierarchical walk. -/
  | changedWalk
  /-- No aggregate function is registered under a name. -/
  | unknownAggregate (name : String)
  /-- An aggregate function got the wrong number of arguments. -/
  | wrongArguments (func : AggregateFunction)
  /-- A sum or an average got a value that is no number. -/
  | notNumeric (func : AggregateFunction) (value : Value)
  /-- A minimum or maximum got two values that have no order. -/
  | notComparable
  /-- An expression in a list of outputs produces no column. -/
  | unnamed (e : Expr)
  /-- An expression in a list of aggregates is none. -/
  | notAggregate (e : Expr)
  /-- A projection without expressions has no SQL. -/
  | emptyProjection
  /-- An aggregation without any output has no SQL. -/
  | emptyAggregation
  /-- A cross join takes no condition. -/
  | conditionOnCross
  /-- Every other join takes one. -/
  | missingCondition (kind : JoinKind)
  /-- An aggregate call stands where rows are not grouped. -/
  | misplacedAggregate (call : AggregateCall)
  /-- A filter reads a column that its source does not have. -/
  | unknownFilterColumn (source column : String)

/-- The kinds of causes. -/
inductive PlanError.Kind where
  | ambiguousQualifier
  | unknownAggregate
  | argumentMismatch
  | typeMismatch
  | unsupportedExpression
  | source
deriving DecidableEq

namespace PlanError

/-- The kind of a cause. -/
def kind : PlanError → Kind
  | ambiguousQualifier _ => .ambiguousQualifier
  | unknownAggregate _ => .unknownAggregate
  | wrongArguments _ => .argumentMismatch
  | notNumeric .. | notComparable => .typeMismatch
  | unnamed _ | notAggregate _ | emptyProjection | emptyAggregation | conditionOnCross
  | missingCondition _ | misplacedAggregate _ | changedWalk => .unsupportedExpression
  | unknownFilterColumn .. => .source

/-- The name of a function in messages about its arguments. -/
def functionLabel : AggregateFunction → String
  | .count => "COUNT"
  | .sum => "SUM"
  | .avg => "AVG"
  | .min | .max => "MIN/MAX"

/-- The arguments that a function expects. -/
def expectedArguments : AggregateFunction → String
  | .count => "*|expr"
  | .sum | .avg | .min | .max => "expr"

/-- What a message says about its cause, without the kind. -/
def detail : PlanError → String
  | ambiguousQualifier c =>
    "column " ++ c.name ++ " carries " ++ toString c.qualifiers.length ++ " qualifiers (" ++
      String.intercalate ", " c.qualifiers ++ "); expected at most one"
  | changedWalk => "hierarchical node changed shape"
  | unknownAggregate name => "'" ++ name ++ "'"
  | wrongArguments f =>
    functionLabel f ++ ": expected " ++ functionLabel f ++ "(" ++ expectedArguments f ++ ")"
  | notNumeric f v => functionLabel f ++ " got non numeric arg: " ++ v.text
  | notComparable => "MIN/MAX mixed or unsupported types"
  | unnamed e => e.text ++ " has no output name"
  | notAggregate e => e.text ++ " is not an aggregate"
  | emptyProjection => "empty projection"
  | emptyAggregation => "aggregation with no output"
  | conditionOnCross => "CROSS JOIN with a join condition"
  | missingCondition kind => kind.text ++ " without a join condition"
  | misplacedAggregate call => call.text ++ " outside an aggregation"
  | unknownFilterColumn source column => source ++ ": filter on unknown column " ++ column

/-- What a message says about the kind of its cause. -/
def Kind.lead : Kind → String
  | .ambiguousQualifier => ""
  | .unknownAggregate => "unknown aggregate function "
  | .argumentMismatch => "invalid arguments for "
  | .typeMismatch => "type mismatch: "
  | .unsupportedExpression => "unsupported expression: "
  | .source => "source error: "

/-- The message for a cause. -/
def message (e : PlanError) : String := e.kind.lead ++ e.detail

end PlanError

end QueryPlan
