import QueryPlan.Proofs.Lists
import QueryPlan.Proofs.References

/-!
# The pass as a relation

`Passes` says what going through a plan does, one rule for each way in which a node can be left:

* a leaf that gets no alias, and a relation that gets one;
* an alias over a generated one, which is taken back, and an alias over anything else;
* a walk whose alias moves above it, and a walk without alias right below it;
* a join, and any other operator over one input.

The last are many operators and one rule.  `Unary` collects them, with what they have in common: one
input, no alias of their own, and references that do not depend on the input.

`pass_eq_ok_iff` says that the relation is the pass: the pass succeeds with a result if and only if
the rules lead to it.  What a whole pass does is then proved by induction on the rules, here and in
the files about what it leaves alone, which aliases it gives, where references end up and what it
does to its own results.  None of them opens the pass again.

Between one node and the next the pass carries the number of aliases in use, the references left
open, and whether the alias on top may still be taken back.  About the last there is an invariant: a
generated alias that may still be taken back stands over walks over the relation that got it, and
over nothing else (`Passes.tableWalk_of_generated`).
-/

set_option autoImplicit false

namespace QueryPlan.Plan

theorem children_of_isLeaf {p : Plan} (h : p.isLeaf) : p.children = [] := by
  cases p <;> first | rfl | cases h

/-! ## Operators over one input -/

/-- The operators over one input that are neither an alias nor a walk. -/
inductive Unary : (Plan → Plan) → Prop where
  | project (exprs : List Expr) : Unary (project exprs)
  | filter (predicate : Expr) : Unary (filter predicate)
  | aggregate (isPartial : Bool) (groupBy : List Column) (aggregates : List Expr) :
    Unary (aggregate isPartial groupBy aggregates)
  | sort (keys : List SortKey) : Unary (sort keys)
  | limit (count offset : Option Int) : Unary (limit count offset)

namespace Unary

variable {op : Plan → Plan}

theorem children (h : Unary op) (x : Plan) : (op x).children = [x] := by cases h <;> rfl

theorem aliasFor? (h : Unary op) (x : Plan) (id : ColumnId) : (op x).aliasFor? id = none := by
  cases h <;> rfl

theorem ne_aliased (h : Unary op) {x : Plan} (label : String) (y : Plan) :
    op x ≠ aliased label y := by
  cases h <;> exact nofun

theorem ownReferences (h : Unary op) (x y : Plan) :
    (op x).ownReferences = (op y).ownReferences := by
  cases h <;> rfl

theorem kind (h : Unary op) (x y : Plan) : (op x).kind = (op y).kind := by cases h <;> rfl

/-- Such an operator passes the columns of its input on, or none of them. -/
theorem output (h : Unary op) :
    (∀ x, (op x).output = x.output) ∨ ∀ x y, (op x).output = (op y).output := by
  cases h with
  | project exprs => exact .inr fun _ _ => rfl
  | aggregate isPartial groupBy aggregates => exact .inr fun _ _ => rfl
  | _ => exact .inl fun _ => rfl

/-- Changing the references of such an operator gives one again, whatever its input. -/
theorem mapColumns (h : Unary op) (g : Column → Column) :
    ∃ op', Unary op' ∧ ∀ x, (op x).mapColumns g = op' x := by
  cases h with
  | project exprs => exact ⟨_, .project _, fun _ => rfl⟩
  | filter predicate => exact ⟨_, .filter _, fun _ => rfl⟩
  | aggregate isPartial groupBy aggregates => exact ⟨_, .aggregate _ _ _, fun _ => rfl⟩
  | sort keys => exact ⟨_, .sort _, fun _ => rfl⟩
  | limit count offset => exact ⟨_, .limit _ _, fun _ => rfl⟩

end Unary

/-- Induction over plans in which all the operators of `Unary` are one case. -/
@[elab_as_elim]
theorem unaryInduction {P : Plan → Prop} (leaf : ∀ p, p.isLeaf → P p)
    (aliased : ∀ label p, P p → P (aliased label p))
    (hierarchical : ∀ p startWith connectBy noCycle, P p →
      P (hierarchical p startWith connectBy noCycle))
    (join : ∀ kind p q condition, P p → P q → P (join kind p q condition))
    (unary : ∀ op, Unary op → ∀ p, P p → P (op p)) (p : Plan) : P p := by
  induction p with
  | relation name columns tableLike => exact leaf _ rfl
  | scan table columns source => exact leaf _ rfl
  | aliased label p ih => exact aliased label p ih
  | hierarchical p startWith connectBy noCycle ih =>
    exact hierarchical p startWith connectBy noCycle ih
  | join kind p q condition ihp ihq => exact join kind p q condition ihp ihq
  | project exprs p ih => exact unary _ (.project exprs) p ih
  | filter predicate p ih => exact unary _ (.filter predicate) p ih
  | aggregate isPartial groupBy aggregates p ih =>
    exact unary _ (.aggregate isPartial groupBy aggregates) p ih
  | sort keys p ih => exact unary _ (.sort keys) p ih
  | limit count offset p ih => exact unary _ (.limit count offset) p ih

/-! ## The nearest alias, node by node -/

@[simp] theorem nearestAlias?_hierarchical (input : Plan) (startWith : Option Expr)
    (connectBy : Expr) (noCycle : Bool) (id : ColumnId) :
    (hierarchical input startWith connectBy noCycle).nearestAlias? id = input.nearestAlias? id := by
  rw [nearestAlias?_eq, children, List.findSome?_cons]
  cases input.nearestAlias? id <;> rfl

theorem nearestAlias?_aliased (label : String) (input : Plan) (id : ColumnId) :
    (aliased label input).nearestAlias? id
      = if input.produces id then some label else input.nearestAlias? id := by
  rw [nearestAlias?_eq, aliasFor?, children, List.findSome?_cons]
  cases input.nearestAlias? id <;> cases input.produces id <;> rfl

theorem Unary.nearestAlias? {op : Plan → Plan} (h : Unary op) (x : Plan) (id : ColumnId) :
    (op x).nearestAlias? id = x.nearestAlias? id := by
  rw [nearestAlias?_eq, h.aliasFor?, h.children, List.findSome?_cons]
  cases x.nearestAlias? id <;> rfl

theorem nearestAlias?_mapColumns (g : Column → Column) (p : Plan) (id : ColumnId) :
    (p.mapColumns g).nearestAlias? id = p.nearestAlias? id := by
  cases p with
  | aliased label input => rfl
  | _ => rw [nearestAlias?_eq, nearestAlias?_eq, children_mapColumns]; rfl

/-! ## One node -/

/-- A node with its references under the aliases seen from `y`. -/
def seenFrom (p y : Plan) : Plan := p.mapColumns fun c => c.under (y.nearestAlias? c.id)

theorem unresolved_scope (p y : Plan) : p.unresolved y.scope
    = (p.ownReferences.filter fun c => (y.nearestAlias? c.id).isNone).map (⟨·, p.kind⟩) := by
  simp only [unresolved, aliasOf?_scope]

theorem seenFrom_congr {y z : Plan} (h : ∀ id, y.nearestAlias? id = z.nearestAlias? id) (p : Plan) :
    p.seenFrom y = p.seenFrom z := by simp only [seenFrom, h]

theorem unresolved_congr {p q y z : Plan} (hrefs : p.ownReferences = q.ownReferences)
    (hkind : p.kind = q.kind) (h : ∀ id, y.nearestAlias? id = z.nearestAlias? id) :
    p.unresolved y.scope = q.unresolved z.scope := by
  simp only [unresolved_scope, hrefs, hkind, h]

theorem ambiguous?_congr {p q : Plan} (hrefs : p.ownReferences = q.ownReferences) :
    p.ambiguous? = q.ambiguous? := by rw [ambiguous?, ambiguous?, hrefs]

theorem ambiguous?_eq_none_iff {p : Plan} :
    p.ambiguous? = none ↔ ∀ c ∈ p.ownReferences, c.qualifiers.length ≤ 1 := by
  simp [ambiguous?]

/-- Whether a plan is a relation that gets an alias. -/
def getsAlias (config : Config) (p : Plan) : Bool := p.isTableLike && config.aliasTables

theorem isLeaf_of_getsAlias {config : Config} {p : Plan} (h : p.getsAlias config = true) :
    p.isLeaf = true := by
  cases p <;> first | rfl | cases h

/-- Whether a plan is a relation that gets an alias, or walks over one. -/
def isTableWalk (config : Config) : Plan → Bool
  | hierarchical input .. => isTableWalk config input
  | p => p.getsAlias config

/-- Induction over the walks above a relation that gets an alias. -/
@[elab_as_elim]
theorem tableWalkInduction {config : Config} {P : (w : Plan) → w.isTableWalk config = true → Prop}
    (table : ∀ name columns tableLike h, P (relation name columns tableLike) h)
    (walk : ∀ w startWith connectBy noCycle (h : w.isTableWalk config = true), P w h →
      P (hierarchical w startWith connectBy noCycle) h)
    (w : Plan) (h : w.isTableWalk config = true) : P w h := by
  induction w with
  | relation name columns tableLike => exact table name columns tableLike h
  | hierarchical w startWith connectBy noCycle ih =>
    exact walk w startWith connectBy noCycle h (ih h)
  | _ => cases h

namespace Pass

theorem qualified_eq_ok_iff {node : Plan} {n : Nat} {us : List Unresolved} {r : Pass} :
    qualified node n us = .ok r ↔ node.ambiguous? = none ∧
      ⟨node.seenFrom node, false, n, us ++ node.unresolved node.scope⟩ = r := by
  have hseen : node.mapColumns node.scope.resolve = node.seenFrom node := by
    simp only [seenFrom, ← resolve_scope]
  cases h : node.ambiguous? <;>
    simp [qualified, qualifyNode, h, hseen, bind, Except.bind, pure, Except.pure]

end Pass

/-! ## The pass -/

/-- What going through a plan does when `k` generated aliases are in use. -/
inductive Passes (config : Config) : Nat → Plan → Pass → Prop where
  | leaf {k : Nat} {p : Plan} (hleaf : p.isLeaf) (hbare : p.getsAlias config = false) :
    Passes config k p ⟨p, false, k, []⟩
  | table {k : Nat} {p : Plan} (htable : p.getsAlias config) :
    Passes config k p ⟨aliased (config.generatedAlias (k + 1)) p, true, k + 1, []⟩
  /-- A generated alias right below an alias is taken back. -/
  | renamed {k n : Nat} {p x : Plan} {us : List Unresolved} {old : String} (label : String)
    (below : Passes config k p ⟨aliased old x, true, n, us⟩) :
    Passes config k (aliased label p)
      ⟨aliased label (x.moveQualifiers old label), false, n - 1, us⟩
  | aliased {k n : Nat} {p x : Plan} {us : List Unresolved} (label : String)
    (below : Passes config k p ⟨x, false, n, us⟩) :
    Passes config k (aliased label p) ⟨aliased label x, false, n, us⟩
  /-- The alias below a walk moves above it. -/
  | raised {k n : Nat} {p x : Plan} {generated : Bool} {us : List Unresolved} {label : String}
    {startWith : Option Expr} {connectBy : Expr} {noCycle : Bool}
    (below : Passes config k p ⟨aliased label x, generated, n, us⟩)
    (hsingle : (hierarchical p startWith connectBy noCycle).ambiguous? = none) :
    Passes config k (hierarchical p startWith connectBy noCycle)
      ⟨aliased label ((hierarchical x startWith connectBy noCycle).seenFrom (aliased label x)),
        generated, n, us ++ (hierarchical p startWith connectBy noCycle).unresolved
          (aliased label x).scope⟩
  | walk {k n : Nat} {p x : Plan} {generated : Bool} {us : List Unresolved}
    {startWith : Option Expr} {connectBy : Expr} {noCycle : Bool}
    (below : Passes config k p ⟨x, generated, n, us⟩) (hbare : ∀ label y, x ≠ aliased label y)
    (hsingle : (hierarchical p startWith connectBy noCycle).ambiguous? = none) :
    Passes config k (hierarchical p startWith connectBy noCycle)
      ⟨(hierarchical x startWith connectBy noCycle).seenFrom x, false, n,
        us ++ (hierarchical p startWith connectBy noCycle).unresolved x.scope⟩
  | join {k m n : Nat} {p q x y : Plan} {generated generated' : Bool} {us us' : List Unresolved}
    {kind : JoinKind} {condition : Option Expr}
    (left : Passes config k p ⟨x, generated, m, us⟩)
    (right : Passes config m q ⟨y, generated', n, us'⟩)
    (hsingle : (join kind p q condition).ambiguous? = none) :
    Passes config k (join kind p q condition)
      ⟨(join kind x.raiseAlias y.raiseAlias condition).seenFrom
          (join kind x.raiseAlias y.raiseAlias condition), false, n,
        us ++ us' ++ (join kind p q condition).unresolved
          (join kind x.raiseAlias y.raiseAlias condition).scope⟩
  | unary {k n : Nat} {p x : Plan} {generated : Bool} {us : List Unresolved} {op : Plan → Plan}
    (hop : Unary op) (below : Passes config k p ⟨x, generated, n, us⟩)
    (hsingle : (op p).ambiguous? = none) :
    Passes config k (op p)
      ⟨(op x).seenFrom x, false, n, us ++ (op p).unresolved x.scope⟩

variable {config : Config}

/-- Whether a plan comes out of the pass under an alias. -/
def comesAliased (config : Config) : Plan → Bool
  | aliased .. => true
  | hierarchical input .. => comesAliased config input
  | p => p.getsAlias config

namespace Passes

variable {k : Nat} {p : Plan} {r : Pass}

/-- What is still generated at the end is an alias over walks over the relation that got it. -/
theorem tableWalk_of_generated (h : Passes config k p r) (hgen : r.generated = true) :
    ∃ label x, r.plan = .aliased label x ∧ x.isTableWalk config := by
  induction h with
  | @table k p htable =>
    refine ⟨_, p, rfl, ?_⟩
    cases p with
    | relation name columns tableLike => exact htable
    | _ => cases htable
  | raised below hsingle ih =>
    obtain ⟨label, x, hx, hwalk⟩ := ih hgen
    obtain ⟨rfl, rfl⟩ := aliased.inj hx
    exact ⟨_, _, rfl, hwalk⟩
  | _ => cases hgen

theorem isTableWalk_of_generated (h : Passes config k p r) (hgen : r.generated = true) :
    p.isTableWalk config = true := by
  induction h with
  | @table k p htable =>
    cases p with
    | relation name columns tableLike => exact htable
    | _ => cases htable
  | raised below hsingle ih => exact ih hgen
  | _ => cases hgen

theorem comesAliased_iff (h : Passes config k p r) :
    p.comesAliased config = true ↔ ∃ label x, r.plan = .aliased label x := by
  induction h with
  | @leaf k p hleaf hbare =>
    cases p with
    | relation name columns tableLike => simpa [comesAliased] using hbare
    | scan table columns source => simp [comesAliased, getsAlias, isTableLike]
    | _ => cases hleaf
  | @table k p htable =>
    cases p with
    | relation name columns tableLike => simpa [comesAliased] using htable
    | _ => cases htable
  | raised below hsingle ih => simpa [comesAliased] using ih
  | walk below hbare hsingle ih =>
    have hx := ih.not.mpr fun ⟨label, y, h⟩ => hbare label y h
    simpa [comesAliased, seenFrom, mapColumns, mapExprs] using hx
  | join left right hsingle ihl ihr =>
    simp [comesAliased, getsAlias, isTableLike, seenFrom, mapColumns, mapExprs]
  | unary hop below hsingle ih =>
    cases hop <;> simp [comesAliased, getsAlias, isTableLike, seenFrom, mapColumns, mapExprs]
  | _ => simp [comesAliased]

theorem comesAliased_of_bare (h : Passes config k p r)
    (hbare : ∀ label x, r.plan ≠ .aliased label x) : p.comesAliased config = false := by
  refine Bool.eq_false_iff.mpr fun halias => ?_
  obtain ⟨label, x, hx⟩ := h.comesAliased_iff.mp halias
  exact hbare label x hx

theorem generated_of_bare (h : Passes config k p r)
    (hbare : ∀ label x, r.plan ≠ .aliased label x) : r.generated = false := by
  refine Bool.eq_false_iff.mpr fun hgen => ?_
  obtain ⟨label, x, hx, -⟩ := h.tableWalk_of_generated hgen
  exact hbare label x hx

end Passes

theorem pass_of_unary {op : Plan → Plan} (hop : Unary op) (k : Nat) (p : Plan) :
    (op p).pass config k = p.pass config k >>= fun below =>
      Pass.qualified (op below.plan) below.counter below.unresolved := by
  cases hop <;> rfl

/-- An operator over one input, after its input has been gone through. -/
theorem pass_unary_eq_ok_iff {op : Plan → Plan} (hop : Unary op) {k : Nat} {p : Plan} {r : Pass} :
    (op p).pass config k = .ok r ↔ ∃ below, p.pass config k = .ok below ∧
      (op p).ambiguous? = none ∧ ⟨(op below.plan).seenFrom below.plan, false, below.counter,
        below.unresolved ++ (op p).unresolved below.plan.scope⟩ = r := by
  rw [pass_of_unary hop, bind_eq_ok_iff]
  refine exists_congr fun below => and_congr_right fun _ => ?_
  rw [Pass.qualified_eq_ok_iff, ambiguous?_congr (hop.ownReferences below.plan p),
    seenFrom_congr (hop.nearestAlias? below.plan),
    unresolved_congr (hop.ownReferences below.plan p) (hop.kind below.plan p)
      (hop.nearestAlias? below.plan)]

/-- A walk, after its input has been gone through. -/
theorem pass_walk_eq_ok_iff {k : Nat} {p : Plan} {startWith : Option Expr} {connectBy : Expr}
    {noCycle : Bool} {r : Pass} :
    (hierarchical p startWith connectBy noCycle).pass config k = .ok r ↔
      ∃ below, p.pass config k = .ok below ∧
        (hierarchical p startWith connectBy noCycle).ambiguous? = none ∧
        Pass.floatAlias below.generated
          ⟨(hierarchical below.plan startWith connectBy noCycle).seenFrom below.plan, false,
            below.counter, below.unresolved ++
              (hierarchical p startWith connectBy noCycle).unresolved below.plan.scope⟩ =
          .ok r := by
  rw [pass, bind_eq_ok_iff]
  refine exists_congr fun below => and_congr_right fun _ => ?_
  have hrefs : (hierarchical below.plan startWith connectBy noCycle).ownReferences
      = (hierarchical p startWith connectBy noCycle).ownReferences := rfl
  simp only [bind_eq_ok_iff, Pass.qualified_eq_ok_iff]
  rw [ambiguous?_congr hrefs, seenFrom_congr (nearestAlias?_hierarchical below.plan _ _ _),
    unresolved_congr hrefs rfl (nearestAlias?_hierarchical below.plan _ _ _)]
  simp only [and_assoc, exists_and_left, exists_eq_left']

theorem Pass.floatAlias_of_bare {x : Plan} (hbare : ∀ label y, x ≠ aliased label y) (z : Plan)
    (startWith : Option Expr) (connectBy : Expr) (noCycle generated : Bool) (n : Nat)
    (us : List Unresolved) :
    floatAlias generated ⟨(hierarchical x startWith connectBy noCycle).seenFrom z, false, n, us⟩
      = .ok ⟨(hierarchical x startWith connectBy noCycle).seenFrom z, false, n, us⟩ := by
  cases x with
  | aliased label y => exact absurd rfl (hbare label y)
  | _ => rfl

theorem passes_of_pass {k : Nat} {p : Plan} {r : Pass} (h : p.pass config k = .ok r) :
    Passes config k p r := by
  induction p using unaryInduction generalizing k r with
  | leaf p hleaf =>
    cases p with
    | relation name columns tableLike =>
      simp only [pass] at h
      split at h <;> cases h
      · next htable => exact .table htable
      · next hbare => exact .leaf rfl (Bool.not_eq_true _ ▸ hbare)
    | scan table columns source =>
      cases h
      exact .leaf rfl rfl
    | _ => cases hleaf
  | aliased label p ih =>
    rw [pass, bind_eq_ok_iff] at h
    obtain ⟨⟨x, generated, n, us⟩, hp, h⟩ := h
    cases h
    cases generated with
    | false => exact .aliased label (ih hp)
    | true =>
      obtain ⟨old, y, rfl, -⟩ := (ih hp).tableWalk_of_generated rfl
      exact .renamed label (ih hp)
  | hierarchical p startWith connectBy noCycle ih =>
    obtain ⟨⟨x, generated, n, us⟩, hp, hsingle, h⟩ := pass_walk_eq_ok_iff.mp h
    by_cases hx : ∃ label y, x = aliased label y
    · obtain ⟨label, y, rfl⟩ := hx
      cases h
      exact .raised (ih hp) hsingle
    · push Not at hx
      rw [Pass.floatAlias_of_bare hx] at h
      cases h
      exact .walk (ih hp) hx hsingle
  | join kind p q condition ihp ihq =>
    rw [pass, bind_eq_ok_iff] at h
    obtain ⟨⟨x, generated, m, us⟩, hp, h⟩ := h
    rw [bind_eq_ok_iff] at h
    obtain ⟨⟨y, generated', n, us'⟩, hq, h⟩ := h
    obtain ⟨hsingle, rfl⟩ := Pass.qualified_eq_ok_iff.mp h
    exact .join (ihp hp) (ihq hq) hsingle
  | unary op hop p ih =>
    obtain ⟨below, hbelow, hsingle, rfl⟩ := (pass_unary_eq_ok_iff hop).mp h
    exact .unary hop (ih hbelow) hsingle

/-- `Passes` is the pass. -/
theorem pass_eq_ok_iff {k : Nat} {p : Plan} {r : Pass} :
    p.pass config k = .ok r ↔ Passes config k p r := by
  refine ⟨passes_of_pass, fun h => ?_⟩
  induction h with
  | @leaf k p hleaf hbare =>
    cases p with
    | relation name columns tableLike => exact if_neg (Bool.not_eq_true _ ▸ hbare)
    | scan table columns source => rfl
    | _ => cases hleaf
  | @table k p htable =>
    cases p with
    | relation name columns tableLike => exact if_pos htable
    | _ => cases htable
  | renamed label below ih => rw [pass, ih]; rfl
  | aliased label below ih => rw [pass, ih]; rfl
  | raised below hsingle ih => exact pass_walk_eq_ok_iff.mpr ⟨_, ih, hsingle, rfl⟩
  | walk below hbare hsingle ih =>
    exact pass_walk_eq_ok_iff.mpr ⟨_, ih, hsingle, Pass.floatAlias_of_bare hbare _ _ _ _ _ _ _⟩
  | join left right hsingle ihl ihr =>
    rw [pass, ihl]
    show (pass config _ _ >>= _) = _
    rw [ihr]
    exact Pass.qualified_eq_ok_iff.mpr ⟨hsingle, rfl⟩
  | unary hop below hsingle ih => exact (pass_unary_eq_ok_iff hop).mpr ⟨_, ih, hsingle, rfl⟩

/-- Qualifying goes through the plan with no alias in use. -/
theorem exists_passes {p : Plan} {q : Qualified} (h : p.qualify config = .ok q) :
    ∃ r, Passes config 0 p r ∧ r.plan = q.plan ∧ r.unresolved = q.unresolved := by
  obtain ⟨r, hpass, hr⟩ := bind_eq_ok_iff.mp h
  cases hr
  exact ⟨r, pass_eq_ok_iff.mp hpass, rfl, rfl⟩

end QueryPlan.Plan
