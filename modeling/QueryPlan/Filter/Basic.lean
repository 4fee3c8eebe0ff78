import QueryPlan.Literal
import QueryPlan.Row

/-!
# Filters

A filter is a predicate in the form that a storage backend takes: it tests columns by *name*
against literals, and combines the tests with the three connectives.  It knows nothing of column
identities or expressions.

There is no test for inequality; `Filter.ofComparison` writes it as the negation of equality.
-/

set_option autoImplicit false

namespace QueryPlan

/-- The comparisons that a filter can make. -/
inductive FilterTest where
  | equals
  | greater
  | less
  | atLeast
  | atMost
deriving DecidableEq

namespace FilterTest

/-- The operator of a test. -/
def operator : FilterTest → Comparison
  | equals => .eq
  | greater => .gt
  | less => .lt
  | atLeast => .ge
  | atMost => .le

/-- The name under which a test is stored. -/
def name : FilterTest → String
  | equals => "Equals"
  | greater => "GreaterThan"
  | less => "LessThan"
  | atLeast => "GreaterOrEqual"
  | atMost => "LessOrEqual"

/-- All tests, in the order of their declaration. -/
def all : List FilterTest := [equals, greater, less, atLeast, atMost]

/-- The test stored under a name. -/
def ofName? (s : String) : Option FilterTest := all.find? fun t => t.name == s

theorem ofName?_name (t : FilterTest) : ofName? t.name = some t := by cases t <;> rfl

end FilterTest

/-- A predicate over named columns. -/
inductive Filter where
  | test (column : String) (kind : FilterTest) (value : Literal)
  | oneOf (column : String) (values : List Literal)
  | isNull (column : String)
  | isNotNull (column : String)
  | and (left right : Filter)
  | or (left right : Filter)
  | not (operand : Filter)
deriving DecidableEq

namespace Filter

/-- The filter for a comparison of a column with a literal. -/
def ofComparison (column : String) (op : Comparison) (value : Literal) : Filter :=
  match op with
  | .eq => test column .equals value
  | .ne => not (test column .equals value)
  | .lt => test column .less value
  | .le => test column .atMost value
  | .gt => test column .greater value
  | .ge => test column .atLeast value

/-- The negation of a filter under a flag. -/
def negateIf (negated : Bool) (f : Filter) : Filter := if negated then not f else f

/-- The conjunction of filters, nested to the left, if there are any. -/
def conjunction? : List Filter → Option Filter
  | [] => none
  | f :: rest => some (rest.foldl and f)

/-- The disjunction of filters, nested to the left, if there are any. -/
def disjunction? : List Filter → Option Filter
  | [] => none
  | f :: rest => some (rest.foldl or f)

/-- Every mention of a column, from left to right. -/
def mentions : Filter → List String
  | test column _ _ | oneOf column _ | isNull column | isNotNull column => [column]
  | and left right | or left right => mentions left ++ mentions right
  | not operand => mentions operand

/-- The columns that a filter reads, each once. -/
def columns (f : Filter) : List String := f.mentions.eraseDups

/-- The answer of a filter on a row keyed by column names. -/
def truth (row : Row) : Filter → Truth
  | test column kind value => (row.cell column).compare kind.operator value.value
  | oneOf column values => (row.cell column).among (values.map Literal.value)
  | isNull column => Truth.ofBool (row.cell column).isNull
  | isNotNull column => Truth.ofBool !(row.cell column).isNull
  | and left right => (truth row left).and (truth row right)
  | or left right => (truth row left).or (truth row right)
  | not operand => (truth row operand).not

/-- The text of a filter. -/
def text : Filter → String
  | test column kind value => column ++ " " ++ kind.operator.symbol ++ " " ++ value.sql
  | oneOf column values =>
    column ++ " IN (" ++ String.intercalate ", " (values.map Literal.sql) ++ ")"
  | isNull column => column ++ " IS NULL"
  | isNotNull column => column ++ " IS NOT NULL"
  | and left right => "(" ++ text left ++ " AND " ++ text right ++ ")"
  | or left right => "(" ++ text left ++ " OR " ++ text right ++ ")"
  | not operand => "NOT (" ++ text operand ++ ")"

end Filter

end QueryPlan
