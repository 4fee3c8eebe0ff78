import QueryPlan.Expr.Basic
import QueryPlan.Row
import QueryPlan.Text.Blank
import QueryPlan.Text.Pattern

/-!
# Evaluating an expression on a row

`Expr.eval` gives the value of an expression on one row.  A predicate leaves its answer in the
value, a null when it is unknown, so one evaluator serves scalars and predicates, and
`Expr.truth` reads the answer back out of the value.

Nothing fails: a function that does not fit its arguments, or that is not known, gives a null.
-/

set_option autoImplicit false

namespace QueryPlan

/-- The size of a number.  An integer that fits a signed word stays one; the size of the least word
does not fit, and wraps around to that word. -/
def Number.size (n : Number) : Value :=
  match n.word? with
  | some i => .int (wrap i.natAbs)
  | none => .ofFloat n.toFloat.abs

/-- The first value that is not null. -/
def Value.firstPresent (vs : List Value) : Value :=
  (vs.find? fun v => !v.isNull).getD .null

namespace Expr

/-- The scalar functions, by their names in small letters. -/
def applyFolded (name : String) (args : List Value) : Value :=
  match name, args with
  | "upper", [.str s] => .str (Text.upper s)
  | "lower", [.str s] => .str (Text.lower s)
  | "trim", [.str s] => .str (Text.trim s)
  | "length", [.str s] => .int s.length
  | "abs", [.num n] => n.size
  | "coalesce", vs => .firstPresent vs
  | _, _ => .null

/-- A scalar function applied to values; the case of its name does not matter. -/
def applyFunction (name : String) (args : List Value) : Value :=
  applyFolded (Text.foldName name) args

/-- The answer of LIKE: only strings match or fail to match. -/
def likeTruth : Value → Value → Truth
  | .str s, .str p => Truth.ofBool (Text.like s p)
  | _, _ => .unknown

mutual

/-- The value of an expression on a row.  An aggregate call has no value on one row. -/
def eval (row : Row) : Expr → Value
  | lit l => l.value
  | col c => row.cell c.rowKey
  | call name args => applyFunction name (evalList row args)
  | compare left op right => .ofTruth ((eval row left).compare op (eval row right))
  | and operands => .ofTruth (evalAll row operands)
  | or operands => .ofTruth (evalAny row operands)
  | not operand => .ofTruth (eval row operand).truth.not
  | isNull operand negated =>
    .ofTruth ((Truth.ofBool (eval row operand).isNull).negateIf negated)
  | inList operand members negated =>
    .ofTruth (((eval row operand).among (evalList row members)).negateIf negated)
  | like operand pattern negated =>
    .ofTruth ((likeTruth (eval row operand) (eval row pattern)).negateIf negated)
  | aggregate .. => .null
  | named operand _ => eval row operand

/-- The values of several expressions. -/
def evalList (row : Row) : List Expr → List Value
  | [] => []
  | e :: rest => eval row e :: evalList row rest

/-- The answer of a conjunction. -/
def evalAll (row : Row) : List Expr → Truth
  | [] => .holds
  | e :: rest => (eval row e).truth.and (evalAll row rest)

/-- The answer of a disjunction. -/
def evalAny (row : Row) : List Expr → Truth
  | [] => .fails
  | e :: rest => (eval row e).truth.or (evalAny row rest)

end

/-- The answer of an expression as a predicate. -/
def truth (row : Row) (e : Expr) : Truth := (eval row e).truth

theorem evalList_eq_map (row : Row) (es : List Expr) : evalList row es = es.map (eval row) := by
  induction es with
  | nil => rfl
  | cons e es ih => rw [evalList, ih, List.map_cons]

end Expr

end QueryPlan
