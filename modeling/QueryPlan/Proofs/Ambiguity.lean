import QueryPlan.Proofs.Nearest

/-!
# Where qualifying fails

Qualifying fails in one way only, at a reference that comes with several qualifiers.  The pass meets
the references of a plan in the order of `Plan.operators` and, at one operator, in that of
`Plan.ownReferences`, and it gives up at the first such reference (`Plan.qualify_eq_error_iff`).
What else it would give up at, a walk that is none any more, it never meets
(`Plan.failure?_floatAlias`).

The pass changes the plan while it goes through it, so that this is the order in the plan it was
given has a reason: when it is the turn of an operator, its inputs are other plans than before, but
it still makes the references that it made before.  Aliases come and go around it, and references
change below it, but nothing that has been checked is checked again.

An operator is checked before any of its references gets an alias.  Checking each of them as it is
met, in the middle of the expressions that are being changed, comes to the same
(`Plan.traverse_eq_qualifyNode`): the effects of such a traversal are those at the references, one
after the other.
-/

set_option autoImplicit false

namespace QueryPlan

/-! ## Effects on the way -/

section Effects

variable {m : Type → Type} [Monad m] [LawfulMonad m]

/-- Going through a list with several effects at each element has all of them, in their order. -/
theorem mapM_forM {α β γ : Type} (parts : α → List β) (act : β → m PUnit) (g : α → γ)
    (l : List α) : l.mapM (fun a => (fun _ => g a) <$> forM (parts a) act) =
      (fun _ => l.map g) <$> forM (l.flatMap parts) act := by
  induction l with
  | nil => simp
  | cons a l ih => simp [ih, List.forM_append]

variable (act : Column → m PUnit) (g : Column → Column)

namespace Expr

theorem mapColumns_eq_bind : mapColumns g = bind fun c => col (g c) := rfl

mutual

/-- Replacing columns by columns with an effect at each has the effects at the columns, in the order
of reading. -/
theorem bindM_forM : ∀ e : Expr, e.bindM (fun c => (fun _ => col (g c)) <$> act c) =
    (fun _ => e.mapColumns g) <$> forM e.columns act
  | lit _ => by
    rw [columns_eq rfl]
    simp [bindM, children, mapColumns_eq_bind, bind]
  | col _ => by simp [bindM]
  | call _ args => by
    rw [columns_eq rfl, bindM, bindListM_forM args]
    simp [children, mapColumns_eq_bind, bind, bindList_eq_map]
  | compare left _ right => by
    rw [columns_eq rfl, bindM, bindM_forM left, bindM_forM right]
    simp [children, mapColumns_eq_bind, bind, List.forM_append]
  | and operands => by
    rw [columns_eq rfl, bindM, bindListM_forM operands]
    simp [children, mapColumns_eq_bind, bind, bindList_eq_map]
  | or operands => by
    rw [columns_eq rfl, bindM, bindListM_forM operands]
    simp [children, mapColumns_eq_bind, bind, bindList_eq_map]
  | not operand => by
    rw [columns_eq rfl, bindM, bindM_forM operand]
    simp [children, mapColumns_eq_bind, bind]
  | isNull operand _ => by
    rw [columns_eq rfl, bindM, bindM_forM operand]
    simp [children, mapColumns_eq_bind, bind]
  | inList operand members _ => by
    rw [columns_eq rfl, bindM, bindM_forM operand, bindListM_forM members]
    simp [children, mapColumns_eq_bind, bind, bindList_eq_map, List.forM_append]
  | like operand pattern _ => by
    rw [columns_eq rfl, bindM, bindM_forM operand, bindM_forM pattern]
    simp [children, mapColumns_eq_bind, bind, List.forM_append]
  | aggregate _ args _ => by
    rw [columns_eq rfl, bindM, bindListM_forM args]
    simp [children, mapColumns_eq_bind, bind, bindList_eq_map]
  | named operand _ => by
    rw [columns_eq rfl, bindM, bindM_forM operand]
    simp [children, mapColumns_eq_bind, bind]

theorem bindListM_forM : ∀ es : List Expr,
    bindListM (fun c => (fun _ => col (g c)) <$> act c) es =
      (fun _ => es.map (mapColumns g)) <$> forM (es.flatMap columns) act
  | [] => by simp [bindListM]
  | e :: rest => by
    rw [bindListM, bindM_forM e, bindListM_forM rest]
    simp [List.forM_append]

end

end Expr

/-- The same at an operator: the effects are those at its references, in the order of its places. -/
theorem Plan.mapExprsM_forM (p : Plan) :
    p.mapExprsM (Expr.bindM fun c => (fun _ => .col (g c)) <$> act c) =
      (fun _ => p.mapColumns g) <$> forM p.ownReferences act := by
  have hexprs (es : List Expr) : es.mapM (Expr.bindM fun c => (fun _ => .col (g c)) <$> act c) =
      (fun _ => es.map (Expr.mapColumns g)) <$> forM (es.flatMap Expr.columns) act := by
    rw [funext (Expr.bindM_forM act g), mapM_forM]
  cases p with
  | join kind left right condition =>
    cases condition <;>
      simp [mapExprsM, mapColumns, mapExprs, ownReferences, expressions, Expr.bindM_forM]
  | hierarchical input startWith connectBy noCycle =>
    cases startWith <;>
      simp [mapExprsM, mapColumns, mapExprs, ownReferences, expressions, Expr.bindM_forM,
        List.forM_append]
  | aggregate isPartial groupBy aggregates input =>
    have hkeys : groupBy.mapM (fun c => (fun _ => g c) <$> act c) =
        (fun _ => groupBy.map g) <$> forM groupBy act := by
      simpa using mapM_forM (fun c : Column => [c]) act g groupBy
    simp [mapExprsM, mapColumns, mapExprs, ownReferences, expressions, Expr.bindM, hexprs, hkeys,
      List.forM_append, List.flatMap_map]
  | sort keys input =>
    have hkeys := mapM_forM (fun k : SortKey => k.expr.columns) act
      (fun k => { k with expr := k.expr.mapColumns g }) keys
    simp [mapExprsM, mapColumns, mapExprs, ownReferences, expressions, Expr.bindM_forM, hkeys,
      List.flatMap_map]
  | _ => simp [mapExprsM, mapColumns, mapExprs, ownReferences, expressions, Expr.bindM_forM, hexprs]

end Effects

namespace Plan

/-! ## One operator -/

/-- Whether a reference comes with several qualifiers. -/
def isAmbiguous (c : Column) : Bool := decide (1 < c.qualifiers.length)

theorem ambiguous?_eq_find? (p : Plan) :
    p.ambiguous? = p.ownReferences.find? isAmbiguous := rfl

/-- What is done at a reference before it gets its alias: one that comes with several qualifiers
ends the pass, and one without an alias is put on record. -/
def check (scope : Scope) (kind : String) (c : Column) :
    StateT (List Unresolved) (Except PlanError) PUnit := do
  if isAmbiguous c then throw (.ambiguousQualifier c)
  if (scope.aliasOf? c).isNone then modify (· ++ [⟨c, kind⟩])

theorem run_check (scope : Scope) (kind : String) (c : Column) (us : List Unresolved) :
    (check scope kind c).run us =
      if isAmbiguous c then .error (.ambiguousQualifier c)
      else .ok (⟨⟩, us ++ if (scope.aliasOf? c).isNone then [⟨c, kind⟩] else []) := by
  rw [check]
  by_cases h : isAmbiguous c
  · simp only [h, if_true]
    rfl
  · cases (scope.aliasOf? c).isNone
    · simp only [h, Bool.false_eq_true, if_false, List.append_nil]
      rfl
    · simp only [h, Bool.false_eq_true, if_false, if_true]
      rfl

/-- Checking references one after the other ends at the first that is ambiguous. -/
theorem run_forM_check (scope : Scope) (kind : String) (cs : List Column) (us : List Unresolved) :
    (forM cs (check scope kind)).run us =
      match cs.find? isAmbiguous with
      | some c => .error (.ambiguousQualifier c)
      | none =>
        .ok (⟨⟩, us ++ (cs.filter fun c => (scope.aliasOf? c).isNone).map fun c => ⟨c, kind⟩) := by
  induction cs generalizing us with
  | nil =>
    simp only [List.find?_nil, List.filter_nil, List.map_nil, List.append_nil]
    rfl
  | cons c cs ih =>
    rw [List.forM_cons, StateT.run_bind, run_check, List.find?_cons]
    by_cases h : isAmbiguous c
    · simp only [h, if_true]
      rfl
    · simp only [h, Bool.false_eq_true, if_false]
      refine (ih _).trans ?_
      cases hnone : (scope.aliasOf? c).isNone <;> simp [hnone]

/-- **Checking each reference as it is met comes to the same as checking all of them first.** -/
theorem traverse_eq_qualifyNode (p : Plan) :
    (p.mapExprsM (Expr.bindM fun c => do
      check p.scope p.kind c
      return .col (p.scope.resolve c))).run [] =
        p.qualifyNode.map fun q => (q.plan, q.unresolved) := by
  simp only [bind_pure_comp, mapExprsM_forM, StateT.run_map, run_forM_check]
  rw [qualifyNode, ambiguous?_eq_find?]
  cases p.ownReferences.find? isAmbiguous with
  | some c => rfl
  | none => rfl

end Plan

/-! ## Failures -/

/-- The error of a computation that fails. -/
def failure? {ε α : Type} : Except ε α → Option ε
  | .error e => some e
  | .ok _ => none

theorem failure?_eq_some_iff {ε α : Type} {x : Except ε α} {e : ε} :
    failure? x = some e ↔ x = .error e := by
  cases x <;> simp [failure?]

/-- Of two steps, the second fails only if the first does not. -/
theorem failure?_bind {ε α β : Type} {x : Except ε α} {f : α → Except ε β} {o : Option ε}
    (h : ∀ a, x = .ok a → failure? (f a) = o) : failure? (x >>= f) = (failure? x).or o := by
  cases x with
  | error e => rfl
  | ok a => exact h a rfl

namespace Plan

/-! ## The whole pass -/

/-- The references of a plan in the order in which operators are finished. -/
def referencesUp (p : Plan) : List Column := p.operators.flatMap ownReferences

/-- The first reference of a plan that comes with several qualifiers. -/
def firstAmbiguous? (p : Plan) : Option Column := p.referencesUp.find? isAmbiguous

theorem ownReferences_hierarchical (x y : Plan) {startWith : Option Expr} {connectBy : Expr}
    {noCycle : Bool} : (hierarchical x startWith connectBy noCycle).ownReferences =
      (hierarchical y startWith connectBy noCycle).ownReferences := rfl

theorem ownReferences_join (x y x' y' : Plan) {kind : JoinKind} {condition : Option Expr} :
    (join kind x y condition).ownReferences = (join kind x' y' condition).ownReferences := rfl

theorem ownReferences_aliased (label : String) (p : Plan) :
    (aliased label p).ownReferences = [] := rfl

/-- Operators are all nodes that make references. -/
theorem mem_referencesUp_iff {p : Plan} {c : Column} :
    c ∈ p.referencesUp ↔ c ∈ p.allReferences := by
  induction p using children_induction with
  | step p ih =>
    have hbelow : (∃ x ∈ p.children, c ∈ x.referencesUp) ↔ ∃ x ∈ p.children, c ∈ x.allReferences :=
      exists_congr fun x => and_congr_right fun hx => ih x hx
    rw [allReferences, nodes_eq, List.flatMap_cons, List.flatMap_assoc, List.mem_append,
      List.mem_flatMap]
    refine Iff.trans ?_ (or_congr_right hbelow)
    cases p with
    | aliased label x => simp [referencesUp, operators, children, ownReferences_aliased]
    | _ =>
      rw [referencesUp, operators_eq (by simp), List.flatMap_append, List.flatMap_assoc,
        List.mem_append, List.mem_flatMap, List.flatMap_singleton]
      exact or_comm

theorem firstAmbiguous?_of_isLeaf {p : Plan} (h : p.isLeaf) : p.firstAmbiguous? = none := by
  rw [firstAmbiguous?, referencesUp, operators_of_isLeaf h]
  cases p <;> first | rfl | cases h

/-- The inputs of an operator come first, and then it is its own turn. -/
theorem firstAmbiguous?_unary {op : Plan → Plan} (hop : Unary op) (p : Plan) :
    (op p).firstAmbiguous? = p.firstAmbiguous?.or (op p).ambiguous? := by
  rw [firstAmbiguous?, referencesUp, hop.operators, List.flatMap_append, List.flatMap_singleton,
    List.find?_append]
  rfl

theorem firstAmbiguous?_hierarchical (p : Plan) (startWith : Option Expr) (connectBy : Expr)
    (noCycle : Bool) : (hierarchical p startWith connectBy noCycle).firstAmbiguous? =
      p.firstAmbiguous?.or (hierarchical p startWith connectBy noCycle).ambiguous? := by
  rw [firstAmbiguous?, referencesUp, operators, List.flatMap_append, List.flatMap_singleton,
    List.find?_append]
  rfl

theorem firstAmbiguous?_join (kind : JoinKind) (p q : Plan) (condition : Option Expr) :
    (join kind p q condition).firstAmbiguous? = p.firstAmbiguous?.or
      (q.firstAmbiguous?.or (join kind p q condition).ambiguous?) := by
  rw [firstAmbiguous?, referencesUp, operators, List.flatMap_append, List.flatMap_append,
    List.flatMap_singleton, List.find?_append, List.find?_append, Option.or_assoc]
  rfl

theorem failure?_qualified (node : Plan) (n : Nat) (us : List Unresolved) :
    failure? (Pass.qualified node n us) = node.ambiguous?.map .ambiguousQualifier := by
  rw [Pass.qualified, qualifyNode]
  cases node.ambiguous? <;> rfl

/-- A walk that has been qualified still is one. -/
theorem failure?_floatAlias {p : Plan} {startWith : Option Expr} {connectBy : Expr} {noCycle : Bool}
    {n : Nat} {us : List Unresolved} {walk : Pass}
    (h : Pass.qualified (hierarchical p startWith connectBy noCycle) n us = .ok walk)
    (generated : Bool) : failure? (walk.floatAlias generated) = none := by
  obtain ⟨-, rfl⟩ := Pass.qualified_eq_ok_iff.mp h
  cases p <;> rfl

/-- **How the pass fails.** -/
theorem failure?_pass (config : Config) (k : Nat) (p : Plan) :
    failure? (p.pass config k) = p.firstAmbiguous?.map .ambiguousQualifier := by
  induction p using unaryInduction generalizing k with
  | leaf p hleaf =>
    rw [firstAmbiguous?_of_isLeaf hleaf]
    cases p with
    | relation name columns tableLike =>
      rw [pass]
      split <;> rfl
    | scan table columns source => rfl
    | _ => cases hleaf
  | aliased label p ih =>
    rw [pass, failure?_bind (o := none) fun _ _ => rfl, ih, Option.or_none]
    rfl
  | hierarchical p startWith connectBy noCycle ih =>
    have hstep (below : Pass) : failure? (do
        let walk ← Pass.qualified (hierarchical below.plan startWith connectBy noCycle)
          below.counter below.unresolved
        walk.floatAlias below.generated) =
          (hierarchical p startWith connectBy noCycle).ambiguous?.map .ambiguousQualifier := by
      rw [failure?_bind fun _ hwalk => failure?_floatAlias hwalk _, Option.or_none,
        failure?_qualified, ambiguous?_congr (ownReferences_hierarchical below.plan p)]
    rw [pass, failure?_bind fun below _ => hstep below, ih, firstAmbiguous?_hierarchical,
      Option.map_or]
  | join kind p q condition ihp ihq =>
    have hturn (l r : Pass) : failure? (Pass.qualified
        (join kind l.plan.raiseAlias r.plan.raiseAlias condition) r.counter
        (l.unresolved ++ r.unresolved)) =
          (join kind p q condition).ambiguous?.map .ambiguousQualifier := by
      rw [failure?_qualified, ambiguous?_congr (ownReferences_join _ _ p q)]
    have hright (l : Pass) : failure? (do
        let r ← pass config l.counter q
        Pass.qualified (join kind l.plan.raiseAlias r.plan.raiseAlias condition) r.counter
          (l.unresolved ++ r.unresolved)) =
          (q.firstAmbiguous?.or (join kind p q condition).ambiguous?).map .ambiguousQualifier := by
      rw [failure?_bind fun r _ => hturn l r, ihq, Option.map_or]
    rw [pass, failure?_bind fun l _ => hright l, ihp, firstAmbiguous?_join]
    simp only [Option.map_or]
  | unary op hop p ih =>
    have hstep (below : Pass) :
        failure? (Pass.qualified (op below.plan) below.counter below.unresolved) =
          (op p).ambiguous?.map .ambiguousQualifier := by
      rw [failure?_qualified, ambiguous?_congr (hop.ownReferences below.plan p)]
    rw [pass_of_unary hop, failure?_bind fun below _ => hstep below, ih,
      firstAmbiguous?_unary hop, Option.map_or]

/-- **A plan cannot be qualified if and only if one of its references comes with several qualifiers,
and the error then is about the first of them**, with the reference as it is in the plan.  There is
no other error. -/
theorem qualify_eq_error_iff (config : Config) (p : Plan) :
    ((∃ e, p.qualify config = .error e) ↔ ∃ c ∈ p.allReferences, 1 < c.qualifiers.length) ∧
      ∀ e, p.qualify config = .error e ↔
        ∃ c, p.firstAmbiguous? = some c ∧ e = .ambiguousQualifier c := by
  have herror (e : PlanError) : p.qualify config = .error e ↔
      ∃ c, p.firstAmbiguous? = some c ∧ e = .ambiguousQualifier c := by
    rw [← failure?_eq_some_iff, qualify, failure?_bind (o := none) fun _ _ => rfl, Option.or_none,
      failure?_pass, Option.map_eq_some_iff]
    simp only [eq_comm]
  refine ⟨?_, herror⟩
  calc (∃ e, p.qualify config = .error e)
      ↔ p.firstAmbiguous?.isSome := by simp [herror, Option.isSome_iff_exists]
    _ ↔ ∃ c ∈ p.referencesUp, isAmbiguous c := by rw [firstAmbiguous?, List.find?_isSome]
    _ ↔ ∃ c ∈ p.allReferences, 1 < c.qualifiers.length := by
      simp [mem_referencesUp_iff, isAmbiguous]

end Plan

end QueryPlan
