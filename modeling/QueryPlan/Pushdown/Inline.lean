import QueryPlan.Expr.Replace
import QueryPlan.IdMap

/-!
# Reading through a projection

An expression above a projection reads what the projection defines.  `readThrough` puts the
definitions in the place of what is read, so that the expression can be moved below.

An alias that reads a column of its own identity defines nothing new, and is not inlined.  Where
definitions read one another, no chain of them can be longer than their number, so that number
bounds the depth to which replacements are gone through.
-/

set_option autoImplicit false

namespace QueryPlan

/-- What an entry of a projection list defines. -/
def Expr.definition? : Expr → Option (ColumnId × Expr)
  | named operand output =>
    if operand.references.any fun c => c.id == output.id then none else some (output.id, operand)
  | _ => none

/-- What a projection list defines; of two definitions of a column the later counts. -/
def definitionsOf (exprs : List Expr) : IdMap Expr :=
  .ofList (exprs.filterMap Expr.definition?)

/-- What a column stands for. -/
def IdMap.definitionOf (definitions : IdMap Expr) (c : Column) : Expr :=
  (definitions.get? c.id).getD (.col c)

/-- An expression with the definitions put in for what it reads. -/
def readThrough (definitions : IdMap Expr) (e : Expr) : Expr :=
  e.expand definitions.definitionOf definitions.entries.length

end QueryPlan
