/-!
# Columns

A column reference carries the identity of the column, its name, and the qualifiers under which it
is written.  The identity says which column is meant: names repeat across a plan, identities do
not.  Rows are keyed by name and identity together.
-/

set_option autoImplicit false

namespace QueryPlan

/-- The identity of a column. -/
abbrev ColumnId := Nat

/-- A reference to a column. -/
structure Column where
  id : ColumnId
  name : String
  qualifiers : List String
deriving DecidableEq

namespace Column

/-- An unqualified reference. -/
def plain (id : ColumnId) (name : String) : Column := ⟨id, name, []⟩

/-- The same column under other qualifiers. -/
def qualify (c : Column) (qualifiers : List String) : Column := { c with qualifiers }

/-- The same column without qualifiers. -/
def unqualified (c : Column) : Column := c.qualify []

/-- The qualifier, when there is exactly one. -/
def qualifier? (c : Column) : Option String :=
  match c.qualifiers with
  | [q] => some q
  | _ => none

/-- The key of the column's cell in a row. -/
def rowKey (c : Column) : String := c.name ++ "#" ++ toString c.id

/-- The reference with all its qualifiers, its name and its identity. -/
def text (c : Column) : String := String.join (c.qualifiers.map (· ++ ".")) ++ c.rowKey

/-- The text with its label. -/
def inspect (c : Column) : String := "ColumnRef(" ++ c.text ++ ")"

/-- An identity with its label. -/
def inspectId (id : ColumnId) : String := "ColumnId(" ++ toString id ++ ")"

/-- Columns under successive new identities, from `next` on. -/
def freshFrom (next : ColumnId) : List String → List Column
  | [] => []
  | name :: rest => plain next name :: freshFrom (next + 1) rest

/-- The first reference to each column, in their order. -/
def distinct : List Column → List Column
  | [] => []
  | c :: rest => c :: (distinct rest).filter fun d => d.id != c.id

end Column

end QueryPlan
