import QueryPlan.Expr.Basic

/-!
# Replacing the columns of an expression

An expression is only ever changed at its columns; everything else in it keeps its place.
`Expr.bind` puts an expression in the place of each column.  `Expr.expand` does so again inside
what it has just put there, as often as its depth allows: what stands at the top of a replacement
is settled, its parts are gone through in turn.

`bindM` and `expandM` are the same for a replacement that may fail or keep a record; they meet the
columns in the order of reading.  With a replacement that does neither they agree with `bind` and
`expand`, as `bindM_pure` and `expandM_pure` say.
-/

set_option autoImplicit false

namespace QueryPlan.Expr

/-! ## Replacing columns -/

mutual

/-- Every column replaced by an expression. -/
def bind (f : Column → Expr) : Expr → Expr
  | lit l => lit l
  | col c => f c
  | call name args => call name (bindList f args)
  | compare left op right => compare (bind f left) op (bind f right)
  | and operands => and (bindList f operands)
  | or operands => or (bindList f operands)
  | not operand => not (bind f operand)
  | isNull operand negated => isNull (bind f operand) negated
  | inList operand members negated => inList (bind f operand) (bindList f members) negated
  | like operand pattern negated => like (bind f operand) (bind f pattern) negated
  | aggregate func args distinct => aggregate func (bindList f args) distinct
  | named operand output => named (bind f operand) output

/-- Every column replaced in several expressions. -/
def bindList (f : Column → Expr) : List Expr → List Expr
  | [] => []
  | e :: rest => bind f e :: bindList f rest

end

theorem bindList_eq_map (f : Column → Expr) (es : List Expr) : bindList f es = es.map (bind f) := by
  induction es with
  | nil => rfl
  | cons e es ih => rw [bindList, ih, List.map_cons]

/-- Every column replaced by a column. -/
def mapColumns (g : Column → Column) (e : Expr) : Expr := e.bind fun c => col (g c)

mutual

/-- Every column replaced by an expression, with effects. -/
def bindM {m : Type → Type} [Monad m] (f : Column → m Expr) : Expr → m Expr
  | lit l => pure (lit l)
  | col c => f c
  | call name args => return call name (← bindListM f args)
  | compare left op right => return compare (← bindM f left) op (← bindM f right)
  | and operands => return and (← bindListM f operands)
  | or operands => return or (← bindListM f operands)
  | not operand => return not (← bindM f operand)
  | isNull operand negated => return isNull (← bindM f operand) negated
  | inList operand members negated =>
    return inList (← bindM f operand) (← bindListM f members) negated
  | like operand pattern negated => return like (← bindM f operand) (← bindM f pattern) negated
  | aggregate func args distinct => return aggregate func (← bindListM f args) distinct
  | named operand output => return named (← bindM f operand) output

/-- Every column replaced in several expressions, with effects. -/
def bindListM {m : Type → Type} [Monad m] (f : Column → m Expr) : List Expr → m (List Expr)
  | [] => pure []
  | e :: rest => return (← bindM f e) :: (← bindListM f rest)

end

mutual

theorem bindM_pure {m : Type → Type} [Monad m] [LawfulMonad m] (f : Column → Expr) :
    ∀ e : Expr, e.bindM (fun c => (pure (f c) : m Expr)) = pure (e.bind f)
  | lit _ => rfl
  | col _ => rfl
  | call _ args => by simp [bindM, bind, bindListM_pure f args]
  | compare left _ right => by simp [bindM, bind, bindM_pure f left, bindM_pure f right]
  | and operands => by simp [bindM, bind, bindListM_pure f operands]
  | or operands => by simp [bindM, bind, bindListM_pure f operands]
  | not operand => by simp [bindM, bind, bindM_pure f operand]
  | isNull operand _ => by simp [bindM, bind, bindM_pure f operand]
  | inList operand members _ => by
    simp [bindM, bind, bindM_pure f operand, bindListM_pure f members]
  | like operand pattern _ => by simp [bindM, bind, bindM_pure f operand, bindM_pure f pattern]
  | aggregate _ args _ => by simp [bindM, bind, bindListM_pure f args]
  | named operand _ => by simp [bindM, bind, bindM_pure f operand]

theorem bindListM_pure {m : Type → Type} [Monad m] [LawfulMonad m] (f : Column → Expr) :
    ∀ es : List Expr, bindListM (fun c => (pure (f c) : m Expr)) es = pure (bindList f es)
  | [] => rfl
  | e :: rest => by simp [bindListM, bindList, bindM_pure f e, bindListM_pure f rest]

end

/-! ## Going on inside replacements -/

/-- A function applied to each direct part. -/
def mapChildren (g : Expr → Expr) : Expr → Expr
  | lit l => lit l
  | col c => col c
  | call name args => call name (args.map g)
  | compare left op right => compare (g left) op (g right)
  | and operands => and (operands.map g)
  | or operands => or (operands.map g)
  | not operand => not (g operand)
  | isNull operand negated => isNull (g operand) negated
  | inList operand members negated => inList (g operand) (members.map g) negated
  | like operand pattern negated => like (g operand) (g pattern) negated
  | aggregate func args distinct => aggregate func (args.map g) distinct
  | named operand output => named (g operand) output

/-- Every column replaced, and the parts of each replacement gone through in turn, down to a
depth. -/
def expand (f : Column → Expr) : Nat → Expr → Expr
  | 0, e => e
  | depth + 1, e => e.bind fun c => (f c).mapChildren (expand f depth)

/-- A function with effects applied to each direct part. -/
def mapChildrenM {m : Type → Type} [Monad m] (g : Expr → m Expr) : Expr → m Expr
  | lit l => pure (lit l)
  | col c => pure (col c)
  | call name args => return call name (← args.mapM g)
  | compare left op right => return compare (← g left) op (← g right)
  | and operands => return and (← operands.mapM g)
  | or operands => return or (← operands.mapM g)
  | not operand => return not (← g operand)
  | isNull operand negated => return isNull (← g operand) negated
  | inList operand members negated => return inList (← g operand) (← members.mapM g) negated
  | like operand pattern negated => return like (← g operand) (← g pattern) negated
  | aggregate func args distinct => return aggregate func (← args.mapM g) distinct
  | named operand output => return named (← g operand) output

/-- Every column replaced with effects, and the parts of each replacement in turn. -/
def expandM {m : Type → Type} [Monad m] (f : Column → m Expr) : Nat → Expr → m Expr
  | 0, e => pure e
  | depth + 1, e => e.bindM fun c => do mapChildrenM (expandM f depth) (← f c)

theorem mapChildrenM_pure {m : Type → Type} [Monad m] [LawfulMonad m] (g : Expr → Expr)
    (e : Expr) : e.mapChildrenM (fun x => (pure (g x) : m Expr)) = pure (e.mapChildren g) := by
  cases e <;> simp [mapChildrenM, mapChildren]

theorem expandM_pure {m : Type → Type} [Monad m] [LawfulMonad m] (f : Column → Expr) :
    ∀ (depth : Nat) (e : Expr),
      e.expandM (fun c => (pure (f c) : m Expr)) depth = pure (e.expand f depth)
  | 0, _ => rfl
  | depth + 1, e => by
    have ih : expandM (fun c => (pure (f c) : m Expr)) depth = fun e => pure (e.expand f depth) :=
      funext (expandM_pure f depth)
    simp only [expandM, expand, pure_bind, ih, mapChildrenM_pure]
    exact bindM_pure _ e

end QueryPlan.Expr
