import QueryPlan.Expr.Basic

/-!
# Expressions as text

The text of an expression for messages.  Columns are written with their identities, so it is no
SQL.
-/

set_option autoImplicit false

namespace QueryPlan

namespace Expr

/-- The word that a negated predicate has in addition. -/
def notWord (negated : Bool) : String := if negated then "NOT " else ""

/-- A call with the texts of its arguments. -/
def callText (func : AggregateFunction) (args : List String) (distinct : Bool) : String :=
  func.name ++ "(" ++ (if distinct then "DISTINCT " else "") ++
    (if args.isEmpty then "*" else String.intercalate ", " args) ++ ")"

mutual

/-- The text of an expression. -/
def text : Expr → String
  | lit l => l.sql
  | col c => c.text
  | call name args => name ++ "(" ++ String.intercalate ", " (texts args) ++ ")"
  | compare left op right => text left ++ " " ++ op.symbol ++ " " ++ text right
  | and operands => "(" ++ String.intercalate " AND " (texts operands) ++ ")"
  | or operands => "(" ++ String.intercalate " OR " (texts operands) ++ ")"
  | not operand => "NOT " ++ text operand
  | isNull operand negated => text operand ++ " IS " ++ notWord negated ++ "NULL"
  | inList operand members negated =>
    text operand ++ " " ++ notWord negated ++ "IN (" ++
      String.intercalate ", " (texts members) ++ ")"
  | like operand pattern negated =>
    text operand ++ " " ++ notWord negated ++ "LIKE " ++ text pattern
  | aggregate func args distinct => callText func (texts args) distinct
  | named operand output => text operand ++ " AS " ++ output.text

/-- The texts of several expressions. -/
def texts : List Expr → List String
  | [] => []
  | e :: rest => text e :: texts rest

end

/-- The text with a label for the kind of the node. -/
def inspect (e : Expr) : String :=
  let label := match e with
    | lit _ => "Literal"
    | col _ => "Column"
    | aggregate .. => "Aggregate"
    | named .. => "Alias"
    | _ => "Expr"
  label ++ "(" ++ e.text ++ ")"

end Expr

namespace AggregateCall

/-- The text of a call. -/
def text (c : AggregateCall) : String := c.expr.text

/-- The text with its label. -/
def inspect (c : AggregateCall) : String := "AggregateCall(" ++ c.text ++ ")"

end AggregateCall

end QueryPlan
