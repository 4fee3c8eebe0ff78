import QueryPlan.Value

/-!
# Literals

The constants of a predicate.  Integers are signed words, and a float may be infinite but is always
a number.
-/

set_option autoImplicit false

namespace QueryPlan

/-- A constant. -/
inductive Literal where
  | str (s : String)
  | int (i : Int64)
  | float (f : Float) (notNaN : f.isNaN = false)
  | bool (b : Bool)
  | null
deriving DecidableEq

namespace Literal

/-- The literal of a float that is a number. -/
def ofFloat? (f : Float) : Option Literal :=
  if h : f.isNaN = false then some (float f h) else none

/-- Whether a literal is the null. -/
def isNull : Literal → Bool
  | null => true
  | _ => false

/-- The cell value of a literal; an infinite float has none and becomes null. -/
def value : Literal → Value
  | str s => .str s
  | int i => .int i.toInt
  | float f _ => .ofFloat f
  | bool b => .bool b
  | null => .null

/-- Whether two literals are equal; the two zeros are. -/
def equals : Literal → Literal → Bool
  | str a, str b => a == b
  | int a, int b => a == b
  | float a _, float b _ => a == b
  | bool a, bool b => a == b
  | null, null => true
  | _, _ => false

/-! ## Text -/

/-- A character inside a string of SQL: the quote is written twice. -/
def sqlChar (c : Char) : List Char := if c = '\x27' then ['\x27', '\x27'] else [c]

/-- A string of SQL. -/
def sqlString (s : List Char) : List Char := '\x27' :: (s.flatMap sqlChar ++ ['\x27'])

/-- The literal in SQL. -/
def sql : Literal → String
  | str s => String.ofList (sqlString s.toList)
  | int i => toString i.toInt
  | float f _ => String.ofList (Decimal.sql f)
  | bool true => "TRUE"
  | bool false => "FALSE"
  | null => "NULL"

/-- The literal with a letter for its kind. -/
def text : Literal → String
  | str s => "s: \"" ++ s ++ "\""
  | int i => "i: " ++ toString i.toInt
  | float f _ => "f: " ++ String.ofList (Decimal.sql f)
  | bool true => "b: true"
  | bool false => "b: false"
  | null => "n: NULL"

/-- The name of the literal's kind. -/
def kind : Literal → String
  | str _ => "String"
  | int _ => "Int"
  | float _ _ => "Float"
  | bool _ => "Bool"
  | null => "Null"

/-- The text with its label. -/
def inspect (l : Literal) : String := l.kind ++ "(" ++ l.text ++ ")"

end Literal

end QueryPlan
