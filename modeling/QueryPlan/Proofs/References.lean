import QueryPlan.Proofs.Evaluation
import QueryPlan.Qualify.Pass

/-!
# The references of a plan and the aliases they are seen under

Changing the references of an operator keeps its inputs and the identities and names it produces,
and what has been changed is read off its own references: two changes that agree there give the same
operator (`Plan.mapColumns_congr`, `Plan.mapColumns_eq_self_iff`).

`Plan.nearestAlias?` says where the alias of a column comes from, without building a scope: it is
the first alias met on the way from the node downwards, in the order of `Plan.nodes`, whose input
produces the column.  The scope of a plan says the same (`Plan.resolve_scope`).
-/

set_option autoImplicit false

namespace QueryPlan

/-! ## References -/

/-- The same column under the one qualifier that is given, if there is one. -/
def Column.under (c : Column) : Option String → Column
  | some label => c.qualify [label]
  | none => c

@[simp] theorem Column.unqualified_under (c : Column) (label : Option String) :
    (c.under label).unqualified = c.unqualified := by
  cases label <;> rfl

@[simp] theorem Column.id_under (c : Column) (label : Option String) :
    (c.under label).id = c.id := by
  cases label <;> rfl

theorem Column.qualify_eq_self_iff (c : Column) (qualifiers : List String) :
    c.qualify qualifiers = c ↔ c.qualifiers = qualifiers := by
  obtain ⟨id, name, old⟩ := c
  simp [qualify, eq_comm]

theorem Column.under_eq_self_iff (c : Column) (label : Option String) :
    c.under label = c ↔ ∀ l, label = some l → c.qualifiers = [l] := by
  cases label <;> simp [under, qualify_eq_self_iff]

namespace Expr

@[simp] theorem mapColumns_col (g : Column → Column) (c : Column) :
    (col c).mapColumns g = col (g c) := rfl

theorem bind_bind (f g : Column → Expr) (e : Expr) :
    (e.bind f).bind g = e.bind fun c => (f c).bind g := by
  induction e using children_induction with
  | step e ih => cases e <;> simp_all [bind, children, bindList_eq_map]

theorem mapColumns_mapColumns (g h : Column → Column) (e : Expr) :
    (e.mapColumns g).mapColumns h = e.mapColumns fun c => h (g c) := bind_bind _ _ e

theorem columns_mapColumns (g : Column → Column) (e : Expr) :
    (e.mapColumns g).columns = e.columns.map g := by
  rw [mapColumns, columns_bind, List.map_eq_flatMap]
  rfl

theorem mapColumns_congr {g h : Column → Column} {e : Expr} (hgh : ∀ c ∈ e.columns, g c = h c) :
    e.mapColumns g = e.mapColumns h :=
  bind_congr fun c hc => congrArg col (hgh c hc)

theorem unqualified_output?_mapColumns {g : Column → Column}
    (hg : ∀ c, (g c).unqualified = c.unqualified) (e : Expr) :
    (e.mapColumns g).output?.map Column.unqualified = e.output?.map Column.unqualified := by
  cases e with
  | col c => exact congrArg some (hg c)
  | _ => rfl

end Expr

namespace Plan

/-- What passes from the inputs of an operator to the operator holds of every plan. -/
@[elab_as_elim]
theorem children_induction {P : Plan → Prop} (step : ∀ p, (∀ x ∈ p.children, P x) → P p)
    (p : Plan) : P p := by
  induction p <;> refine step _ ?_ <;> simp_all [children]

theorem nodes_trans {n m p : Plan} (hn : n ∈ m.nodes) (hm : m ∈ p.nodes) : n ∈ p.nodes := by
  induction p using children_induction with
  | step p ih =>
    rw [nodes_eq] at hm
    rcases List.mem_cons.mp hm with rfl | hm
    · exact hn
    · obtain ⟨x, hx, hm⟩ := List.mem_flatMap.mp hm
      rw [nodes_eq]
      exact List.mem_cons_of_mem _ (List.mem_flatMap.mpr ⟨x, hx, ih x hx hm⟩)

@[simp] theorem groupingColumn_col (old c : Column) : groupingColumn old (.col c) = c := rfl

variable (g h : Column → Column) (p : Plan)

@[simp] theorem children_mapColumns : (p.mapColumns g).children = p.children := by cases p <;> rfl

theorem nodes_mapColumns : (p.mapColumns g).nodes = p.mapColumns g :: p.children.flatMap nodes := by
  rw [nodes_eq, children_mapColumns]

theorem mapColumns_mapColumns : (p.mapColumns g).mapColumns h = p.mapColumns fun c => h (g c) := by
  cases p <;>
    simp [mapColumns, mapExprs, Expr.mapColumns_mapColumns, Function.comp_def]

theorem expressions_mapColumns :
    (p.mapColumns g).expressions = p.expressions.map (Expr.mapColumns g) := by
  cases p <;> simp [mapColumns, mapExprs, expressions, Option.toList_map, Function.comp_def]

theorem ownReferences_mapColumns : (p.mapColumns g).ownReferences = p.ownReferences.map g := by
  rw [ownReferences, expressions_mapColumns, List.flatMap_map, ownReferences, List.map_flatMap]
  exact List.flatMap_congr fun e _ => e.columns_mapColumns g

theorem mapExprs_id : p.mapExprs (fun e => e) = p := by cases p <;> simp [mapExprs]

variable {g h p}

theorem mapExprs_congr {f f' : Expr → Expr} (hf : ∀ e ∈ p.expressions, f e = f' e) :
    p.mapExprs f = p.mapExprs f' := by
  cases p with
  | join kind left right condition => cases condition <;> simp_all [mapExprs, expressions]
  | hierarchical input startWith connectBy noCycle =>
    cases startWith <;> simp_all [mapExprs, expressions]
  | aggregate isPartial groupBy aggregates input =>
    have hgroup : ∀ c ∈ groupBy, f (.col c) = f' (.col c) := fun c hc =>
      hf _ (List.mem_append_left _ (List.mem_map_of_mem hc))
    simp_all [mapExprs, expressions]
  | _ => simp_all [mapExprs, expressions]

theorem mapColumns_congr (hgh : ∀ c ∈ p.ownReferences, g c = h c) :
    p.mapColumns g = p.mapColumns h :=
  mapExprs_congr fun e he =>
    Expr.mapColumns_congr fun c hc => hgh c (List.mem_flatMap.mpr ⟨e, he, hc⟩)

theorem mapColumns_eq_self_iff : p.mapColumns g = p ↔ ∀ c ∈ p.ownReferences, g c = c := by
  constructor
  · intro hp
    have hrefs : p.ownReferences.map g = p.ownReferences.map id := by
      rw [← ownReferences_mapColumns, hp, List.map_id]
    exact List.map_inj_left.mp hrefs
  · intro hg
    have he : Expr.mapColumns (fun c => c) = fun e => e :=
      funext fun e => Expr.bind_eq_self fun _ _ => rfl
    rw [mapColumns_congr hg, mapColumns, he, mapExprs_id]

/-- Moving the references of an operator to other qualifiers keeps what it produces. -/
theorem unqualified_output_mapColumns (hg : ∀ c, (g c).unqualified = c.unqualified) (p : Plan) :
    (p.mapColumns g).output.map Column.unqualified = p.output.map Column.unqualified := by
  have hout (es : List Expr) : ((es.map (Expr.mapColumns g)).filterMap Expr.output?).map
      Column.unqualified = (es.filterMap Expr.output?).map Column.unqualified := by
    simp [List.map_filterMap, List.filterMap_map, Expr.unqualified_output?_mapColumns hg]
  cases p with
  | project exprs input => exact hout exprs
  | aggregate isPartial groupBy aggregates input =>
    have hgroup : (groupBy.map g).map Column.unqualified = groupBy.map Column.unqualified := by
      rw [List.map_map]
      exact List.map_congr_left fun c _ => hg c
    simp only [mapColumns, mapExprs, output, Expr.mapColumns_col, groupingColumn_col,
      List.map_append, hout]
    rw [hgroup]
  | _ => rfl

/-! ## The nearest alias -/

/-- Whether a plan produces a column. -/
def produces (p : Plan) (id : ColumnId) : Bool := p.output.any (·.id == id)

theorem produces_congr {p q : Plan}
    (h : p.output.map Column.unqualified = q.output.map Column.unqualified) (id : ColumnId) :
    p.produces id = q.produces id := by
  have hids := congrArg (List.any · (·.id == id)) h
  rw [List.any_map, List.any_map] at hids
  exact hids

/-- The alias that a node itself puts on a column. -/
def aliasFor? (id : ColumnId) : Plan → Option String
  | aliased label input => if input.produces id then some label else none
  | _ => none

/-- The alias under which a column is seen from a node: the first one, in the order of
`Plan.nodes`, that is put on the column. -/
def nearestAlias? (p : Plan) (id : ColumnId) : Option String := p.nodes.findSome? (aliasFor? id)

end Plan

theorem findSome?_flatMap {α β γ : Type} (l : List α) (f : α → List β) (g : β → Option γ) :
    (l.flatMap f).findSome? g = l.findSome? fun a => (f a).findSome? g := by
  induction l with
  | nil => rfl
  | cons a l ih =>
    rw [List.flatMap_cons, List.findSome?_append, ih, List.findSome?_cons]
    cases (f a).findSome? g <;> rfl

namespace IdMap

variable {α : Type}

theorem get?_insertNew (m : IdMap α) (id : ColumnId) (a : α) (i : ColumnId) :
    (m.insertNew id a).get? i = (m.get? i).or (if i = id then some a else none) := by
  rw [insertNew]
  split
  · next h =>
    by_cases hi : i = id
    · subst hi
      obtain ⟨b, hb⟩ := Option.isSome_iff_exists.mp h
      simp [hb]
    · simp [hi]
  · next h =>
    have hlast : [(id, a)].lookup i = if i = id then some a else none := by
      by_cases hi : i = id
      · simp [hi]
      · simp [List.lookup_cons, hi, beq_eq_false_iff_ne.mpr hi]
    rw [get?, List.lookup_append, hlast, get?]

theorem get?_ofListFirst (entries : List (ColumnId × α)) (i : ColumnId) :
    (ofListFirst entries).get? i = entries.lookup i := by
  have hfold (m : IdMap α) : (entries.foldl (fun m e => m.insertNew e.1 e.2) m).get? i
      = (m.get? i).or (entries.lookup i) := by
    induction entries generalizing m with
    | nil => simp
    | cons e rest ih =>
      obtain ⟨id, a⟩ := e
      rw [List.foldl_cons, ih, get?_insertNew, Option.or_assoc, List.lookup_cons]
      by_cases hi : i = id
      · simp [hi]
      · simp [hi, beq_eq_false_iff_ne.mpr hi]
  exact hfold empty

end IdMap

namespace Plan

theorem nearestAlias?_eq (p : Plan) (id : ColumnId) :
    p.nearestAlias? id = (p.aliasFor? id).or (p.children.findSome? (nearestAlias? · id)) := by
  rw [nearestAlias?, nodes_eq, List.findSome?_cons, findSome?_flatMap]
  cases p.aliasFor? id <;> rfl

theorem lookup_aliasEntries (id : ColumnId) (p : Plan) :
    p.aliasEntries.lookup id = p.aliasFor? id := by
  cases p with
  | aliased label input =>
    have hcolumns (columns : List Column) : (columns.map fun c => (c.id, label)).lookup id
        = if columns.any (·.id == id) then some label else none := by
      induction columns with
      | nil => rfl
      | cons c rest ih =>
        rw [List.map_cons, List.lookup_cons, ih, List.any_cons]
        by_cases hc : c.id = id
        · simp [hc]
        · simp [beq_eq_false_iff_ne.mpr hc, beq_eq_false_iff_ne.mpr (Ne.symm hc)]
    exact hcolumns input.output
  | _ => rfl

/-- The scope of a plan gives each column its nearest alias. -/
theorem aliasOf?_scope (p : Plan) (c : Column) : p.scope.aliasOf? c = p.nearestAlias? c.id := by
  rw [Scope.aliasOf?, scope, IdMap.get?_ofListFirst, List.lookup_eq_findSome?, findSome?_flatMap]
  have hentries (n : Plan) : n.aliasEntries.findSome?
      (fun e => if c.id == e.1 then some e.2 else none) = n.aliasFor? c.id := by
    rw [← List.lookup_eq_findSome?, lookup_aliasEntries]
  simp only [hentries]
  rfl

theorem resolve_scope (p : Plan) (c : Column) :
    p.scope.resolve c = c.under (p.nearestAlias? c.id) := by
  rw [Scope.resolve, aliasOf?_scope]
  cases p.nearestAlias? c.id <;> rfl

end Plan

end QueryPlan
