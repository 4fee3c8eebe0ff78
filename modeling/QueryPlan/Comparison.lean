/-!
# Comparison operators

The six operators of a comparison, how each reads an ordering of its operands, and how it turns
when the operands change places.
-/

set_option autoImplicit false

namespace QueryPlan

/-- The operator between the two sides of a comparison. -/
inductive Comparison where
  | eq
  | ne
  | lt
  | le
  | gt
  | ge
deriving DecidableEq

namespace Comparison

/-- The operator that says the same with the operands exchanged. -/
def flip : Comparison → Comparison
  | eq => eq
  | ne => ne
  | lt => gt
  | le => ge
  | gt => lt
  | ge => le

/-- Whether the operator holds of operands in this order. -/
def holds : Comparison → Ordering → Bool
  | eq, o => o == .eq
  | ne, o => o != .eq
  | lt, o => o == .lt
  | le, o => o != .gt
  | gt, o => o == .gt
  | ge, o => o != .lt

/-- The operator in SQL. -/
def symbol : Comparison → String
  | eq => "="
  | ne => "<>"
  | lt => "<"
  | le => "<="
  | gt => ">"
  | ge => ">="

/-- The symbol with its label. -/
def inspect (op : Comparison) : String := "ComparatorOp(" ++ op.symbol ++ ")"

/-- The name under which the operator is stored. -/
def name : Comparison → String
  | eq => "Eq"
  | ne => "NotEq"
  | lt => "Lt"
  | le => "LtEq"
  | gt => "Gt"
  | ge => "GtEq"

/-- All operators, in the order of their declaration. -/
def all : List Comparison := [eq, ne, lt, le, gt, ge]

/-- The operator stored under a name. -/
def ofName? (s : String) : Option Comparison := all.find? (fun op => op.name == s)

@[simp] theorem flip_flip (op : Comparison) : op.flip.flip = op := by cases op <;> rfl

theorem holds_flip (op : Comparison) (o : Ordering) : op.flip.holds o.swap = op.holds o := by
  cases op <;> cases o <;> rfl

theorem ofName?_name (op : Comparison) : ofName? op.name = some op := by cases op <;> rfl

end Comparison

end QueryPlan
