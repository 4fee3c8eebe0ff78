import QueryPlan.Expr.Same
import QueryPlan.Plan.Basic

/-!
# Equality of plans

Two plans are the same when they have the same operators with the same contents.  Scans are
compared by the names of their sources.
-/

set_option autoImplicit false

namespace QueryPlan

/-- Whether two optional expressions are the same. -/
def Expr.sameOption : Option Expr → Option Expr → Bool
  | none, none => true
  | some a, some b => a.same b
  | _, _ => false

/-- Whether two lists of sort keys are the same. -/
def SortKey.sameList : List SortKey → List SortKey → Bool
  | [], [] => true
  | a :: as, b :: bs => a.expr.same b.expr && a.ascending == b.ascending && sameList as bs
  | _, _ => false

/-- Whether two plans are the same. -/
def Plan.same : Plan → Plan → Bool
  | relation n cs t, relation n' cs' t' => n == n' && cs == cs' && t == t'
  | aliased a p, aliased b q => a == b && same p q
  | join k l r c, join k' l' r' c' => k == k' && same l l' && same r r' && Expr.sameOption c c'
  | hierarchical p s c n, hierarchical p' s' c' n' =>
    same p p' && Expr.sameOption s s' && c.same c' && n == n'
  | project es p, project es' p' => Expr.sameList es es' && same p p'
  | filter e p, filter e' p' => e.same e' && same p p'
  | aggregate i g a p, aggregate i' g' a' p' =>
    i == i' && g == g' && Expr.sameList a a' && same p p'
  | sort ks p, sort ks' p' => SortKey.sameList ks ks' && same p p'
  | limit l o p, limit l' o' p' => l == l' && o == o' && same p p'
  | scan n cs s, scan n' cs' s' => n == n' && cs == cs' && s.name == s'.name
  | _, _ => false

end QueryPlan
