import QueryPlan.Text.Regex

/-!
# Patterns of LIKE

In a pattern `%` stands for any text, `_` for any one character, a backslash takes the next
character literally, and everything else stands for itself.  A backslash at the very end stands for
nothing.

A pattern is put into a regular expression character by character, between two anchors and with the
flag that lets a dot take line breaks.  What stands for itself is escaped.  The rest is for an
engine to do; where it refuses the regular expression, nothing matches.
-/

set_option autoImplicit false

namespace QueryPlan.Text

/-- The regular expression for the characters of a pattern, without its anchors. -/
def translated : List Char → List Char
  | [] => []
  | '%' :: rest => '.' :: '*' :: translated rest
  | '_' :: rest => '.' :: translated rest
  | ['\\'] => []
  | '\\' :: c :: rest => Regex.escape c ++ translated rest
  | c :: rest => Regex.escape c ++ translated rest

/-- The regular expression for a pattern. -/
def patternRegex (pattern : List Char) : List Char :=
  ['(', '?', 's', ')', '^'] ++ translated pattern ++ ['$']

/-- Whether a pattern matches a text as a whole, as an engine says. -/
def likeBy (engine : Engine) (text pattern : String) : Bool :=
  match engine (patternRegex pattern.toList) with
  | some test => test text.toList
  | none => false

/-- Whether a pattern matches a text as a whole. -/
def like (text pattern : String) : Bool := likeBy Regex.engine text pattern

end QueryPlan.Text
