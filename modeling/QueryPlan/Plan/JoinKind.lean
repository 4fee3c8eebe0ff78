/-!
# Kinds of joins

The five joins and their SQL keywords.
-/

set_option autoImplicit false

namespace QueryPlan

/-- How the two sides of a join are matched. -/
inductive JoinKind where
  | inner
  | left
  | right
  | full
  | cross
deriving DecidableEq

/-- The keywords of a join. -/
def JoinKind.text : JoinKind → String
  | inner => "INNER JOIN"
  | left => "LEFT JOIN"
  | right => "RIGHT JOIN"
  | full => "FULL OUTER JOIN"
  | cross => "CROSS JOIN"

end QueryPlan
