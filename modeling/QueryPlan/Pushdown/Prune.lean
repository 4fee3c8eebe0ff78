import QueryPlan.Physical

/-!
# Asking for no more columns than are read

When a projection list is nothing but columns, and the filters read no other ones, the scan can ask
for exactly this list.  Otherwise it asks for everything that the projection and the filters read,
and a local projection narrows its rows to the output of the request.
-/

set_option autoImplicit false

namespace QueryPlan

/-- The scan for a request under a projection list and filters. -/
def prunedScan (projection filters : List Expr) (source : Source) (request : Request) : Physical :=
  let projected := Expr.referencesOf projection
  let needed := Expr.referencesOf (projection ++ filters)
  if projection.all Expr.isColumn && projected.length == needed.length then
    .scan source { request with columns := projection.filterMap Expr.output? }
  else
    .project (request.output.map .col) (.scan source { request with columns := needed })

end QueryPlan
