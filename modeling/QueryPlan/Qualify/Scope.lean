import QueryPlan.Plan.Basic

/-!
# Aliases in scope

Seen from a node of a plan, a column belongs to the alias under which it is passed up.  The scope
of a plan gives each column the first alias, in the order of `Plan.nodes`, whose input produces the
column.  Aliases further out come first, so of several aliases around a column the nearest to the
reader counts.  An expression under a new name is a new column, so it belongs to the aliases above
the place where it got the name.
-/

set_option autoImplicit false

namespace QueryPlan

/-- The alias under which each column is seen. -/
abbrev Scope := IdMap String

/-- The columns that an alias covers, if the node is one. -/
def Plan.aliasEntries : Plan → List (ColumnId × String)
  | aliased label input => input.output.map fun c => (c.id, label)
  | _ => []

/-- The scope of a plan. -/
def Plan.scope (p : Plan) : Scope := .ofListFirst (p.nodes.flatMap aliasEntries)

/-- The alias of a column in a scope. -/
def Scope.aliasOf? (scope : Scope) (c : Column) : Option String := scope.get? c.id

/-- A reference under the alias that the scope gives it; without one it stays as it is. -/
def Scope.resolve (scope : Scope) (c : Column) : Column :=
  match scope.aliasOf? c with
  | some label => c.qualify [label]
  | none => c

end QueryPlan
