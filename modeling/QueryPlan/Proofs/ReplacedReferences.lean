import QueryPlan.Proofs.Erasure
import QueryPlan.Proofs.FirstReferences

/-!
# Replacing the references of a plan

A plan is read by some functions (`Plan.children`, `Plan.expressions`, `Expr.children`) and changed
by others (`Plan.mapChildren`, `Plan.mapExprs`, `Expr.bind`), and each of them has a list of its own
of what an operator or an expression consists of.  Here these lists are seen to agree.

`Plan.mapReferences` puts a column in the place of every reference in a plan.  The plan keeps its
operators in their order (`Plan.nodes_mapReferences`), and each operator keeps its expressions in
theirs (`Plan.expressions_mapReferences`).  So what is read afterwards is what was read before,
replaced one by one (`Plan.allReferences_mapReferences`): no reference is passed over, met twice or
put in another's place.

The columns that a plan reads, each once, are the first of all its references
(`Plan.references_eq`).  They are replaced one by one as well, if every reference keeps its identity
(`Plan.references_mapReferences`).
-/

set_option autoImplicit false

namespace QueryPlan

namespace Plan

/-! ## Other inputs -/

section MapChildren

variable (f : Plan → Plan) (p : Plan)

@[simp] theorem children_mapChildren : (p.mapChildren f).children = p.children.map f := by
  cases p <;> rfl

@[simp] theorem expressions_mapChildren : (p.mapChildren f).expressions = p.expressions := by
  cases p <;> rfl

end MapChildren

/-! ## Other references -/

/-- Every reference in a plan replaced by a column, operator by operator. -/
def mapReferences (g : Column → Column) : Plan → Plan := mapUp (mapColumns g)

section MapReferences

variable (g : Column → Column) (p : Plan)

theorem mapReferences_eq :
    p.mapReferences g = (p.mapChildren (mapReferences g)).mapColumns g := mapUp_eq _ p

theorem children_mapReferences :
    (p.mapReferences g).children = p.children.map (mapReferences g) := by
  rw [mapReferences_eq, children_mapColumns, children_mapChildren]

/-- An operator holds its expressions in the same order as before, with their columns replaced. -/
theorem expressions_mapReferences :
    (p.mapReferences g).expressions = p.expressions.map (Expr.mapColumns g) := by
  rw [mapReferences_eq, expressions_mapColumns, expressions_mapChildren]

theorem ownReferences_mapReferences :
    (p.mapReferences g).ownReferences = p.ownReferences.map g := by
  rw [mapReferences_eq, ownReferences_mapColumns, ownReferences, expressions_mapChildren,
    ownReferences]

/-- A plan has its operators in the same order as before, with their references replaced. -/
theorem nodes_mapReferences : (p.mapReferences g).nodes = p.nodes.map (mapReferences g) := by
  induction p using children_induction with
  | step p ih =>
    rw [nodes_eq, children_mapReferences, nodes_eq p, List.map_cons, List.flatMap_map,
      List.map_flatMap]
    exact congrArg _ (List.flatMap_congr ih)

theorem allReferences_mapReferences :
    (p.mapReferences g).allReferences = p.allReferences.map g := by
  rw [allReferences, nodes_mapReferences, List.flatMap_map, allReferences, List.map_flatMap]
  exact List.flatMap_congr fun n _ => n.ownReferences_mapReferences g

/-- Going through all operators, and through all expressions of each, replaces the references.
Columns have no parts, so it does not matter how deep replacements are gone through. -/
theorem mapUpM_expandM_col {m : Type → Type} [Monad m] [LawfulMonad m] (depth : Nat) :
    p.mapUpM (fun n => n.mapExprsM (Expr.expandM (fun c => pure (.col (g c))) (depth + 1)))
      = (pure (p.mapReferences g) : m Plan) := by
  have hexpr : Expr.expandM (fun c => (pure (.col (g c)) : m Expr)) (depth + 1)
      = fun e => pure (e.mapColumns g) := funext (Expr.expandM_pure _ (depth + 1))
  have hnode : mapExprsM (fun e => (pure (e.mapColumns g) : m Expr))
      = fun n => pure (n.mapColumns g) := funext (mapExprsM_pure _)
  rw [hexpr, hnode]
  exact mapUpM_pure _ p

end MapReferences

/-! ## The columns read -/

theorem references_eq (p : Plan) : p.references = Column.distinct p.allReferences := by
  have hall : p.allReferences = (p.nodes.flatMap expressions).flatMap Expr.columns :=
    List.flatMap_assoc.symm
  rw [references, hall, ← List.flatMap_assoc]
  exact Expr.referencesOf_eq _

theorem references_mapReferences {g : Column → Column} {p : Plan}
    (h : ∀ c ∈ p.allReferences, (g c).id = c.id) :
    (p.mapReferences g).references = p.references.map g := by
  rw [references_eq, allReferences_mapReferences, Column.distinct_map h, references_eq]

/-- **Reading and replacing meet the same references.**  Putting columns in the place of columns in
all expressions of all operators gives a plan.  It makes the references of the plan before, replaced
one by one, in the same order and each as often; and if identities are kept, it reads the same
columns in the same order. -/
theorem references_replaced {ε : Type} (g : Column → Column) (depth : Nat) (p : Plan) :
    p.mapUpM (fun n => n.mapExprsM (Expr.expandM (fun c => .ok (.col (g c))) (depth + 1)))
        = (.ok (p.mapReferences g) : Except ε Plan) ∧
      (p.mapReferences g).allReferences = p.allReferences.map g ∧
      ((∀ c ∈ p.allReferences, (g c).id = c.id) →
        (p.mapReferences g).references.map Column.id = p.references.map Column.id) := by
  refine ⟨mapUpM_expandM_col g p depth, allReferences_mapReferences g p, fun h => ?_⟩
  rw [references_mapReferences h, List.map_map]
  refine List.map_congr_left fun c hc => h c ?_
  rw [references_eq] at hc
  exact Column.mem_of_mem_distinct hc

/-- How many of `staff` work in each place, the most first. -/
def headcount : Plan :=
  sort [⟨.col (.plain 20 "n"), false⟩]
    (aggregate false [.plain 3 "place"]
      [.named (.aggregate .count [.col (.plain 1 "id")] false) (.plain 20 "n")] staff)

theorem references_replaced_headcount :
    let moved := headcount.mapReferences (·.qualify ["t"])
    headcount.mapUpM (fun n => n.mapExprsM (Expr.expandM (fun c => .ok (.col (c.qualify ["t"]))) 1))
        = (.ok moved : Except String Plan) ∧
      moved.allReferences = [⟨20, "n", ["t"]⟩, ⟨3, "place", ["t"]⟩, ⟨1, "id", ["t"]⟩,
        ⟨3, "place", ["t"]⟩, ⟨1, "id", ["t"]⟩, ⟨12, "boss", ["t"]⟩, ⟨1, "id", ["t"]⟩,
        ⟨3, "place", ["t"]⟩, ⟨11, "id", ["t"]⟩, ⟨12, "boss", ["t"]⟩] ∧
      moved.references.map Column.id = [20, 3, 1, 12, 11] := by
  obtain ⟨hmoved, hall, hids⟩ := references_replaced (ε := String) (·.qualify ["t"]) 0 headcount
  exact ⟨hmoved, hall, hids fun _ _ => rfl⟩

end Plan

end QueryPlan
