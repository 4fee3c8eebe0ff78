import QueryPlan.Comparison
import QueryPlan.Json.Tree
import QueryPlan.Number
import QueryPlan.Truth

/-!
# Cell values

The values that a cell can hold, how they compare, and their compact text.

Comparison follows SQL: a comparison with a null, or between values of different kinds, is unknown;
truth values can only be told equal or different; lists and objects compare with nothing.  The
compact text, on the other hand, tells any two values apart, so the text of a tuple of values is
what decides whether two rows belong to the same group.
-/

set_option autoImplicit false

namespace QueryPlan

/-- A value in a cell.  The members of an object stand in ascending order of their names. -/
inductive Value where
  | null
  | bool (b : Bool)
  | num (n : Number)
  | str (s : String)
  | arr (items : List Value)
  | obj (members : List (String × Value))

namespace Value

/-- An integer. -/
def int (i : Int) : Value := num (.int i)

/-- A binary64 number; null where it is not finite. -/
def ofFloat (f : Float) : Value :=
  match Number.ofFloat? f with
  | some n => num n
  | none => null

/-- Whether a value is null. -/
def isNull : Value → Bool
  | null => true
  | _ => false

/-! ## Truth values in cells -/

/-- What a predicate leaves in a cell: an unknown answer is a null. -/
def ofTruth : Truth → Value
  | .holds => bool true
  | .fails => bool false
  | .unknown => null

/-- What a cell says as a predicate: only truth values are decided. -/
def truth : Value → Truth
  | bool b => Truth.ofBool b
  | _ => .unknown

@[simp] theorem truth_ofTruth (t : Truth) : (ofTruth t).truth = t := by cases t <;> rfl

/-! ## Comparison -/

/-- How two values compare, if they are both numbers or both strings.  Strings compare by their
characters' code points. -/
def order? : Value → Value → Option Ordering
  | num a, num b => some (a.order b)
  | str a, str b => some (compare a b)
  | _, _ => none

/-- The answer of a comparison. -/
def compare (l : Value) (op : Comparison) (r : Value) : Truth :=
  match l, r with
  | bool a, bool b =>
    match op with
    | .eq => Truth.ofBool (a == b)
    | .ne => Truth.ofBool (a != b)
    | _ => .unknown
  | _, _ =>
    match order? l r with
    | some o => Truth.ofBool (op.holds o)
    | none => .unknown

/-- Whether two values are equal as `IN` sees it.  A null equals a null, and no list or object
equals anything. -/
def equals : Value → Value → Bool
  | null, null => true
  | bool a, bool b => a == b
  | num a, num b => a.toFloat == b.toFloat
  | str a, str b => a == b
  | _, _ => false

/-- The answer of `v IN (list)`: a match decides it, and without a match a null in the list leaves
it open.  A null is in no list and outside none. -/
def among (v : Value) (list : List Value) : Truth :=
  if v.isNull then .unknown
  else if list.any fun item => !item.isNull && v.equals item then .holds
  else if list.any isNull then .unknown
  else .fails

/-! ## Text -/

mutual

/-- A value as JSON. -/
def toJson : Value → Json
  | null => .null
  | bool b => .bool b
  | num n => .num n.text
  | str s => .ofText s
  | arr items => .arr (itemsToJson items)
  | obj members => .obj (membersToJson members)

/-- Values as the items of an array. -/
def itemsToJson : List Value → List Json
  | [] => []
  | item :: rest => toJson item :: itemsToJson rest

/-- Named values as the members of an object. -/
def membersToJson : List (String × Value) → List (List Char × Json)
  | [] => []
  | (name, value) :: rest => (Json.escape name.toList, toJson value) :: membersToJson rest

end

/-- The compact text of a value. -/
def text (v : Value) : String := v.toJson.text

/-- The compact text of a tuple of values. -/
def tupleText (vs : List Value) : String := (arr vs).text

end Value

end QueryPlan
