import QueryPlan.Expr.Basic

/-!
# Equality of expressions

Two expressions are the same when they have the same shape and the same leaves.  Float literals are
compared as numbers, so the two zeros make no difference.
-/

set_option autoImplicit false

namespace QueryPlan.Expr

mutual

/-- Whether two expressions are the same. -/
def same : Expr → Expr → Bool
  | lit a, lit b => a.equals b
  | col a, col b => a == b
  | call n as, call m bs => n == m && sameList as bs
  | compare l op r, compare l' op' r' => same l l' && op == op' && same r r'
  | and as, and bs => sameList as bs
  | or as, or bs => sameList as bs
  | not a, not b => same a b
  | isNull a n, isNull b m => same a b && n == m
  | inList a as n, inList b bs m => same a b && sameList as bs && n == m
  | like a p n, like b q m => same a b && same p q && n == m
  | aggregate f as d, aggregate g bs e => f == g && sameList as bs && d == e
  | named a c, named b d => same a b && c == d
  | _, _ => false

/-- Whether two lists of expressions are the same. -/
def sameList : List Expr → List Expr → Bool
  | [], [] => true
  | a :: as, b :: bs => same a b && sameList as bs
  | _, _ => false

end

end QueryPlan.Expr
