import QueryPlan.Json.Escape

/-!
# JSON text as a tree

A `Json` is a JSON text without its blanks.  Numbers and strings keep the spelling they have in the
text: which value a spelling stands for is for the reader of that value to say, so a text can be
read although it holds, in a place nobody asks for, a number or a string that has no value.

`render` stands for what the serializer, a library outside this project, writes.  It follows the
documented form: compact, without blanks, and with the members of an object as they are given.
-/

set_option autoImplicit false

namespace QueryPlan

/-- A JSON text: leaves keep their spelling, strings without their quotes. -/
inductive Json where
  | null
  | bool (b : Bool)
  | num (spelling : List Char)
  | str (spelling : List Char)
  | arr (items : List Json)
  | obj (members : List (List Char × Json))

namespace Json

/-- A string of JSON with the given text. -/
def ofText (s : String) : Json := .str (escape s.toList)

/-- An object of JSON with the given names. -/
def ofMembers (members : List (String × Json)) : Json :=
  .obj (members.map fun (name, value) => (escape name.toList, value))

/-- Text in quotes. -/
def quote (spelling : List Char) : List Char := '"' :: (spelling ++ ['"'])

mutual

/-- The compact text of a tree: no blanks. -/
def render : Json → List Char
  | .null => ['n', 'u', 'l', 'l']
  | .bool true => ['t', 'r', 'u', 'e']
  | .bool false => ['f', 'a', 'l', 's', 'e']
  | .num spelling => spelling
  | .str spelling => quote spelling
  | .arr items => '[' :: (renderItems items ++ [']'])
  | .obj members => '\x7b' :: (renderMembers members ++ ['\x7d'])

/-- Items with commas between them. -/
def renderItems : List Json → List Char
  | [] => []
  | [item] => render item
  | item :: rest => render item ++ ',' :: renderItems rest

/-- Members with commas between them. -/
def renderMembers : List (List Char × Json) → List Char
  | [] => []
  | [(name, value)] => quote name ++ ':' :: render value
  | (name, value) :: rest => quote name ++ ':' :: (render value ++ ',' :: renderMembers rest)

end

/-- The compact text of a tree as a string. -/
def text (j : Json) : String := String.ofList j.render

/-! ## Reading a tree -/

/-- The text of a string. -/
def string? : Json → Option String
  | .str spelling => (unescape spelling).map String.ofList
  | _ => none

/-- The members of an object under their names. -/
def members? : Json → Option (List (String × Json))
  | .obj members => members.mapM fun (name, value) => do
      return (String.ofList (← unescape name), value)
  | _ => none

/-- The value of the only member with a name; a name that is missing or given twice has none. -/
def onlyMember? (members : List (String × Json)) (name : String) : Option Json :=
  match members.filter fun m => m.1 == name with
  | [(_, value)] => some value
  | _ => none

end Json

end QueryPlan
