import QueryPlan.Filter.Basic
import QueryPlan.Json.Numeral

/-!
# Stored filters

The JSON form of operators, literals and filters.  A value is stored as an object with one member,
named for the kind of the value; a kind without content may also be stored as its bare name.

Reading accepts a little more than writing produces: the fields of a test may come in any order or
as an array, and fields with other names are passed over.  What it does not accept is depth: each
object and array on the way to a value takes one level, and there are 127 of them.

The serializer is a library outside this project, and so are the rules by which it derives the form
of a type from the declaration of it.  The functions named `toJson` and `ofJson?` stand for what it
derives, and `storedDepth` for its documented limit: it gives up at 128 levels of nesting.
-/

set_option autoImplicit false

namespace QueryPlan

/-- The levels of nesting that a stored value may have. -/
def storedDepth : Nat := 127

namespace Json

/-- The kind and the content of an object with one member. -/
def tagged? : Json → Option (String × Json)
  | .obj [(name, content)] => (unescape name).map fun name => (String.ofList name, content)
  | _ => none

/-- A kind without content: its name alone, or with a null. -/
def bareName? (depth : Nat) : Json → Option String
  | .str spelling => (Json.str spelling).string?
  | j =>
    match depth, j.tagged? with
    | _ + 1, some (name, .null) => some name
    | _, _ => none

/-- The contents of the fields of a record, in the order of `names`. -/
def fields? (depth : Nat) (names : List String) (j : Json) : Option (List Json) :=
  match depth, j with
  | _ + 1, .arr items => if items.length = names.length then some items else none
  | _ + 1, .obj members => do
    let members ← (Json.obj members).members?
    names.mapM (onlyMember? members)
  | _, _ => none

end Json

namespace Comparison

/-- An operator as JSON. -/
def toJson (op : Comparison) : Json := .ofText op.name

/-- The operator stored in a JSON text. -/
def ofJson? (j : Json) : Option Comparison := (j.bareName? storedDepth).bind ofName?

end Comparison

namespace Literal

/-- The content of a literal as JSON. -/
def content : Literal → Json
  | str s => .ofText s
  | int i => .num (toString i.toInt).toList
  | float f _ => (Value.ofFloat f).toJson
  | bool b => .bool b
  | null => .null

/-- A literal as JSON. -/
def toJson (l : Literal) : Json :=
  match l with
  | null => .ofText l.kind
  | _ => .ofMembers [(l.kind, l.content)]

/-- The integer literal of a number. -/
def ofWord? (n : Number) : Option Literal :=
  match n with
  | .int i => if Number.fitsWord i then some (int (Int64.ofInt i)) else none
  | .float _ _ => none

/-- The literal of a kind with a content. -/
def ofTagged? (kind : String) (content : Json) : Option Literal :=
  match kind, content with
  | "String", j => j.string?.map str
  | "Int", j => j.number?.bind ofWord?
  | "Float", j => j.number?.bind fun n => ofFloat? n.toFloat
  | "Bool", .bool b => some (bool b)
  | "Null", .null => some null
  | _, _ => none

/-- The literal stored in a JSON text, with so many levels left. -/
def ofJson? (depth : Nat) (j : Json) : Option Literal :=
  match j with
  | .str _ => if j.string? = some "Null" then some null else none
  | _ =>
    match depth with
    | 0 => none
    | _ + 1 => j.tagged?.bind fun (kind, content) => ofTagged? kind content

/-- The literals stored in an array, with so many levels left. -/
def listOfJson? (depth : Nat) (j : Json) : Option (List Literal) :=
  match depth, j with
  | depth + 1, .arr items => items.mapM (ofJson? depth)
  | _, _ => none

end Literal

namespace Filter

/-- A filter as JSON. -/
def toJson : Filter → Json
  | test column kind value =>
    .ofMembers [(kind.name, .ofMembers [("column", .ofText column), ("value", value.toJson)])]
  | oneOf column values =>
    .ofMembers [("In", .ofMembers
      [("column", .ofText column), ("values", .arr (values.map Literal.toJson))])]
  | isNull column => .ofMembers [("IsNull", .ofMembers [("column", .ofText column)])]
  | isNotNull column => .ofMembers [("IsNotNull", .ofMembers [("column", .ofText column)])]
  | and left right => .ofMembers [("And", .arr [left.toJson, right.toJson])]
  | or left right => .ofMembers [("Or", .arr [left.toJson, right.toJson])]
  | not operand => .ofMembers [("Not", operand.toJson)]

/-- The test of a kind with its fields. -/
def testOfFields? (depth : Nat) (kind : String) (content : Json) : Option Filter := do
  let kind ← FilterTest.ofName? kind
  match ← content.fields? depth ["column", "value"] with
  | [column, value] => return test (← column.string?) kind (← Literal.ofJson? (depth - 1) value)
  | _ => none

/-- A filter on one column alone. -/
def columnOfFields? (depth : Nat) (content : Json) : Option String := do
  match ← content.fields? depth ["column"] with
  | [column] => column.string?
  | _ => none

/-- The membership test with its fields. -/
def oneOfFields? (depth : Nat) (content : Json) : Option Filter := do
  match ← content.fields? depth ["column", "values"] with
  | [column, values] =>
    return oneOf (← column.string?) (← Literal.listOfJson? (depth - 1) values)
  | _ => none

/-- The filter stored in a JSON text, with so many levels left. -/
def ofJson? : Nat → Json → Option Filter
  | 0, _ => none
  | depth + 1, j => do
    let (kind, content) ← j.tagged?
    match kind, content with
    | "And", .arr [left, right] =>
      if depth = 0 then none
      else return and (← ofJson? (depth - 1) left) (← ofJson? (depth - 1) right)
    | "Or", .arr [left, right] =>
      if depth = 0 then none
      else return or (← ofJson? (depth - 1) left) (← ofJson? (depth - 1) right)
    | "Not", operand => return not (← ofJson? depth operand)
    | "IsNull", fields => (columnOfFields? depth fields).map isNull
    | "IsNotNull", fields => (columnOfFields? depth fields).map isNotNull
    | "In", fields => oneOfFields? depth fields
    | kind, fields => testOfFields? depth kind fields

/-- The stored text of a filter. -/
def stored (f : Filter) : String := f.toJson.text

/-- The filter with a stored text. -/
def ofStored? (s : String) : Option Filter := (Json.parse? s).bind (ofJson? storedDepth)

end Filter

namespace Literal

/-- The stored text of a literal. -/
def stored (l : Literal) : String := l.toJson.text

/-- The literal with a stored text. -/
def ofStored? (s : String) : Option Literal := (Json.parse? s).bind (ofJson? storedDepth)

end Literal

namespace Comparison

/-- The stored text of an operator. -/
def stored (op : Comparison) : String := op.toJson.text

/-- The operator with a stored text. -/
def ofStored? (s : String) : Option Comparison := (Json.parse? s).bind ofJson?

end Comparison

end QueryPlan
