import QueryPlan.Error

/-!
# Expressions in SQL

The SQL text of an expression.  Columns are written under their qualifiers and without identities.
A conjunction or disjunction stands in parentheses where it is an operand, and a negation puts its
operand in parentheses always.

Aggregate calls may only stand where rows are grouped, and not inside one another.
-/

set_option autoImplicit false

namespace QueryPlan

/-- A column in SQL. -/
def Column.sql (c : Column) : String := String.intercalate "." (c.qualifiers ++ [c.name])

namespace Expr

/-- Whether an expression needs parentheses as an operand. -/
def isConnective : Expr → Bool
  | and _ | or _ => true
  | _ => false

/-- The text of an operand. -/
def parenthesized (e : Expr) (sql : String) : String :=
  if e.isConnective then "(" ++ sql ++ ")" else sql

/-- An aggregate call in SQL, with its arguments in SQL. -/
def callSql (func : AggregateFunction) (args : List String) (distinct : Bool) : String :=
  Text.upper func.name ++ "(" ++
    (if args.isEmpty then "*"
      else (if distinct then "DISTINCT " else "") ++ String.intercalate ", " args) ++ ")"

/-- An alias in SQL; a column under its own name needs none. -/
def aliasSql (operand : Expr) (sql : String) (output : Column) : String :=
  match operand with
  | col c => if c.name = output.name then sql else sql ++ " AS " ++ output.name
  | _ => sql ++ " AS " ++ output.name

mutual

/-- An expression in SQL; with `grouped`, aggregate calls are allowed. -/
def sql (grouped : Bool) : Expr → Except PlanError String
  | lit l => .ok l.sql
  | col c => .ok c.sql
  | call name args => do
    return Text.upper name ++ "(" ++ String.intercalate ", " (← sqlList grouped args) ++ ")"
  | compare left op right => do
    let l ← sql grouped left
    let r ← sql grouped right
    return left.parenthesized l ++ " " ++ op.symbol ++ " " ++ right.parenthesized r
  | and operands => do return String.intercalate " AND " (← sqlOperands grouped operands)
  | or operands => do return String.intercalate " OR " (← sqlOperands grouped operands)
  | not operand => do return "NOT (" ++ (← sql grouped operand) ++ ")"
  | isNull operand negated => do
    let o ← sql grouped operand
    return operand.parenthesized o ++ " IS " ++ notWord negated ++ "NULL"
  | inList operand members negated => do
    let o ← sql grouped operand
    let ms ← sqlList grouped members
    return operand.parenthesized o ++ " " ++ notWord negated ++ "IN (" ++
      String.intercalate ", " ms ++ ")"
  | like operand pattern negated => do
    let o ← sql grouped operand
    let p ← sql grouped pattern
    return operand.parenthesized o ++ " " ++ notWord negated ++ "LIKE " ++ pattern.parenthesized p
  | aggregate func args distinct =>
    if grouped then do return callSql func (← sqlList false args) distinct
    else .error (.misplacedAggregate ⟨func, args, distinct⟩)
  | named operand output => do return aliasSql operand (← sql grouped operand) output

/-- Several expressions in SQL. -/
def sqlList (grouped : Bool) : List Expr → Except PlanError (List String)
  | [] => .ok []
  | e :: rest => do
    let s ← sql grouped e
    return s :: (← sqlList grouped rest)

/-- Several operands in SQL. -/
def sqlOperands (grouped : Bool) : List Expr → Except PlanError (List String)
  | [] => .ok []
  | e :: rest => do
    let s ← sql grouped e
    return e.parenthesized s :: (← sqlOperands grouped rest)

end

theorem sqlList_eq_mapM (grouped : Bool) (es : List Expr) :
    sqlList grouped es = es.mapM (sql grouped) := by
  induction es with
  | nil => rfl
  | cons e es ih => rw [sqlList, List.mapM_cons, ih]

theorem sqlOperands_eq_mapM (grouped : Bool) (es : List Expr) :
    sqlOperands grouped es = es.mapM fun e => (e.sql grouped).map e.parenthesized := by
  induction es with
  | nil => rfl
  | cons e es ih =>
    rw [sqlOperands, List.mapM_cons, ih]
    cases e.sql grouped <;> rfl

end Expr

end QueryPlan
