import Mathlib.Data.List.Basic
import QueryPlan.Expr.Eval
import QueryPlan.Pushdown.Inline

/-!
# What the value of an expression depends on

The value of an expression depends on the cells it reads and on nothing else (`eval_congr`), and
replacing its columns amounts to reading other cells (`eval_bind`).  Reading through a projection is
a replacement of columns in one step, unless definitions read one another
(`readThrough_eq_bind`).

All of it goes by `Expr.children_induction`: what holds of an expression as soon as it holds of its
direct parts holds of every expression.
-/

set_option autoImplicit false

namespace QueryPlan.Expr

/-- A direct part of an expression is smaller than the expression. -/
theorem sizeOf_lt_of_mem_children {x e : Expr} (h : x ∈ e.children) : sizeOf x < sizeOf e := by
  cases e with
  | lit | col => cases h
  | not | isNull | named =>
    obtain rfl := List.mem_singleton.mp h
    simp only [not.sizeOf_spec, isNull.sizeOf_spec, named.sizeOf_spec]
    omega
  | compare | like =>
    simp only [compare.sizeOf_spec, like.sizeOf_spec]
    obtain rfl | rfl : x = _ ∨ x = _ := by simpa [children] using h
    all_goals omega
  | call | and | or | aggregate =>
    have hlt := List.sizeOf_lt_of_mem h
    simp only [children] at hlt
    simp only [call.sizeOf_spec, and.sizeOf_spec, or.sizeOf_spec, aggregate.sizeOf_spec]
    omega
  | inList operand members negated =>
    rw [inList.sizeOf_spec]
    obtain rfl | hmember := List.mem_cons.mp h
    · omega
    · have hlt := List.sizeOf_lt_of_mem hmember
      omega

/-- What passes from the direct parts of an expression to the expression holds of all. -/
@[elab_as_elim]
theorem children_induction {P : Expr → Prop} (step : ∀ e, (∀ x ∈ e.children, P x) → P e)
    (e : Expr) : P e :=
  step e fun x hx => have := sizeOf_lt_of_mem_children hx; children_induction step x
termination_by sizeOf e

/-! ## The columns read -/

@[simp] theorem columns_col (c : Column) : (col c).columns = [c] := rfl

/-- Whatever is not a column reads what its parts read. -/
theorem columns_eq {e : Expr} (h : e.column? = none) : e.columns = e.children.flatMap columns := by
  rw [columns, subexprs_eq, List.filterMap_cons, h, List.filterMap_flatMap]
  rfl

theorem mem_columns_of_mem_children {e x : Expr} {c : Column} (hx : x ∈ e.children)
    (hc : c ∈ x.columns) : c ∈ e.columns := by
  have h : e.column? = none := by cases e <;> first | rfl | cases hx
  rw [columns_eq h]
  exact List.mem_flatMap.mpr ⟨x, hx, hc⟩

/-- An alias reads what is under it; its output is not read. -/
theorem mem_columns_named {operand : Expr} {output c : Column} :
    c ∈ (named operand output).columns ↔ c ∈ operand.columns := by
  rw [columns_eq rfl]
  simp [children]

/-! ## Changing the direct parts -/

theorem eq_col_of_column? {e : Expr} {c : Column} (h : e.column? = some c) : e = col c := by
  cases e <;> simp_all [column?]

theorem children_mapChildren (g : Expr → Expr) (e : Expr) :
    (e.mapChildren g).children = e.children.map g := by
  cases e <;> rfl

theorem column?_mapChildren (g : Expr → Expr) (e : Expr) :
    (e.mapChildren g).column? = e.column? := by
  cases e <;> rfl

/-- Functions that agree on the parts of an expression change it in the same way. -/
theorem mapChildren_congr {g g' : Expr → Expr} {e : Expr} (h : ∀ x ∈ e.children, g x = g' x) :
    e.mapChildren g = e.mapChildren g' := by
  cases e <;> simp_all [mapChildren, children]

theorem mapChildren_eq_self {g : Expr → Expr} {e : Expr} (h : ∀ x ∈ e.children, g x = x) :
    e.mapChildren g = e := by
  have hid : e.mapChildren g = e.mapChildren id := mapChildren_congr h
  rw [hid]
  cases e <;> simp [mapChildren]

/-! ## Replacing columns -/

/-- In what is not a column, the columns are replaced in each part. -/
theorem bind_eq_mapChildren {f : Column → Expr} {e : Expr} (h : e.column? = none) :
    e.bind f = e.mapChildren (bind f) := by
  cases e <;> simp_all [bind, mapChildren, bindList_eq_map, column?]

theorem children_bind {f : Column → Expr} {e : Expr} (h : e.column? = none) :
    (e.bind f).children = e.children.map (bind f) := by
  rw [bind_eq_mapChildren h, children_mapChildren]

theorem column?_bind {f : Column → Expr} {e : Expr} (h : e.column? = none) :
    (e.bind f).column? = none := by
  rw [bind_eq_mapChildren h, column?_mapChildren, h]

/-- What is read after a replacement. -/
theorem columns_bind (f : Column → Expr) (e : Expr) :
    (e.bind f).columns = e.columns.flatMap fun c => (f c).columns := by
  induction e using children_induction with
  | step e ih =>
    cases h : e.column? with
    | some c => simp [eq_col_of_column? h, bind]
    | none =>
      rw [columns_eq (column?_bind h), children_bind h, columns_eq h, List.flatMap_map,
        List.flatMap_assoc]
      exact List.flatMap_congr ih

/-- A replacement is only asked about the columns of the expression. -/
theorem bind_congr {f g : Column → Expr} {e : Expr} (h : ∀ c ∈ e.columns, f c = g c) :
    e.bind f = e.bind g := by
  induction e using children_induction with
  | step e ih =>
    cases he : e.column? with
    | some c =>
      obtain rfl := eq_col_of_column? he
      exact h c (by simp)
    | none =>
      rw [bind_eq_mapChildren he, bind_eq_mapChildren he]
      exact mapChildren_congr fun x hx =>
        ih x hx fun c hc => h c (mem_columns_of_mem_children hx hc)

theorem bind_col (e : Expr) : e.bind col = e := by
  induction e using children_induction with
  | step e ih =>
    cases he : e.column? with
    | some c =>
      obtain rfl := eq_col_of_column? he
      rfl
    | none =>
      rw [bind_eq_mapChildren he]
      exact mapChildren_eq_self ih

/-- Columns that are replaced by themselves leave an expression as it is. -/
theorem bind_eq_self {f : Column → Expr} {e : Expr} (h : ∀ c ∈ e.columns, f c = col c) :
    e.bind f = e :=
  (bind_congr h).trans (bind_col e)

/-! ## Values -/

theorem evalAll_eq_foldr (row : Row) (es : List Expr) :
    evalAll row es = (es.map (eval row)).foldr (fun v t => v.truth.and t) .holds := by
  induction es with
  | nil => rfl
  | cons e es ih => rw [evalAll, ih, List.map_cons, List.foldr_cons]

theorem evalAny_eq_foldr (row : Row) (es : List Expr) :
    evalAny row es = (es.map (eval row)).foldr (fun v t => v.truth.or t) .fails := by
  induction es with
  | nil => rfl
  | cons e es ih => rw [evalAny, ih, List.map_cons, List.foldr_cons]

/-- **Replacing columns is reading other cells.** -/
theorem eval_bind {row row' : Row} {f : Column → Expr} {e : Expr}
    (h : ∀ c ∈ e.columns, (f c).eval row = row'.cell c.rowKey) :
    (e.bind f).eval row = e.eval row' := by
  induction e using children_induction with
  | step e ih =>
    have hx : ∀ x ∈ e.children, (x.bind f).eval row = x.eval row' := fun x hx =>
      ih x hx fun c hc => h c (mem_columns_of_mem_children hx hc)
    have hl (es : List Expr) (hes : ∀ x ∈ es, (x.bind f).eval row = x.eval row') :
        es.map (eval row ∘ bind f) = es.map (eval row') := List.map_congr_left hes
    cases e with
    | col c => exact h c (by simp)
    | call _ es => simp [bind, eval, bindList_eq_map, evalList_eq_map, hl es hx]
    | and es => simp [bind, eval, bindList_eq_map, evalAll_eq_foldr, hl es hx]
    | or es => simp [bind, eval, bindList_eq_map, evalAny_eq_foldr, hl es hx]
    | inList x es _ =>
      have hes := hl es fun y hy => hx y (List.mem_cons_of_mem _ hy)
      simp [bind, eval, bindList_eq_map, evalList_eq_map, hes, hx x List.mem_cons_self]
    | _ => simp_all [bind, eval, children]

/-- **Rows that agree on what an expression reads give it the same value.** -/
theorem eval_congr {row row' : Row} {e : Expr}
    (h : ∀ c ∈ e.columns, row.cell c.rowKey = row'.cell c.rowKey) : e.eval row = e.eval row' := by
  have := @eval_bind row row' col e h
  rwa [bind_col] at this

/-! ## Conjunctions -/

theorem conjunctsOf_eq_flatMap (es : List Expr) : conjunctsOf es = es.flatMap conjuncts := by
  induction es with
  | nil => rfl
  | cons e es ih => rw [conjunctsOf, ih, List.flatMap_cons]

theorem accepts_truth_and (row : Row) (es : List Expr) :
    ((and es).truth row).accepts = es.all fun p => (p.truth row).accepts := by
  rw [truth, eval, Value.truth_ofTruth]
  induction es with
  | nil => rfl
  | cons e es ih => rw [evalAll, Truth.accepts_and, ih, List.all_cons, truth]

theorem accepts_truth_or (row : Row) (es : List Expr) :
    ((or es).truth row).accepts = es.any fun p => (p.truth row).accepts := by
  rw [truth, eval, Value.truth_ofTruth]
  induction es with
  | nil => rfl
  | cons e es ih => rw [evalAny, Truth.accepts_or, ih, List.any_cons, truth]

/-- A predicate accepts a row when its conjuncts do. -/
theorem all_conjuncts (row : Row) (e : Expr) :
    (e.conjuncts.all fun p => (p.truth row).accepts) = (e.truth row).accepts := by
  induction e using children_induction with
  | step e ih =>
    cases e with
    | and es =>
      rw [conjuncts, conjunctsOf_eq_flatMap, List.all_flatMap, accepts_truth_and,
        Bool.eq_iff_iff, List.all_eq_true, List.all_eq_true]
      exact forall₂_congr fun x hx => by rw [ih x hx]
    | _ => simp [conjuncts]

theorem accepts_conjunction? {row : Row} {es : List Expr} {e : Expr}
    (h : conjunction? es = some e) :
    (e.truth row).accepts = es.all fun p => (p.truth row).accepts := by
  match es, h with
  | [_], rfl => simp
  | e₁ :: e₂ :: es, rfl => exact accepts_truth_and row (e₁ :: e₂ :: es)

/-- What the conjuncts read is read by the predicate. -/
theorem mem_columns_of_mem_conjuncts {e p : Expr} {c : Column} (hp : p ∈ e.conjuncts)
    (hc : c ∈ p.columns) : c ∈ e.columns := by
  induction e using children_induction with
  | step e ih =>
    cases e with
    | and es =>
      rw [conjuncts, conjunctsOf_eq_flatMap, List.mem_flatMap] at hp
      obtain ⟨x, hx, hpx⟩ := hp
      exact mem_columns_of_mem_children hx (ih x hx hpx)
    | _ => simp only [conjuncts, List.mem_singleton] at hp; exact hp ▸ hc

/-! ## Reading through a projection -/

/-- Inside a settled expression there is nothing to expand. -/
theorem expand_eq_self {f : Column → Expr} {e : Expr} (h : ∀ c ∈ e.columns, f c = col c)
    (depth : Nat) : e.expand f depth = e := by
  cases depth with
  | zero => rfl
  | succ depth =>
    rw [expand]
    exact bind_eq_self fun c hc => by rw [h c hc]; rfl

/-- Where replacements are settled, expanding an expression replaces its columns and is done. -/
theorem expand_eq_bind {f : Column → Expr} {e : Expr} {depth : Nat}
    (h : ∀ c ∈ e.columns, ∀ d ∈ (f c).columns, f d = col d) :
    e.expand f (depth + 1) = e.bind f := by
  rw [expand]
  exact bind_congr fun c hc => mapChildren_eq_self fun x hx =>
    expand_eq_self (fun d hd => h c hc d (mem_columns_of_mem_children hx hd)) depth

/-- Where no definition reads a defined column, reading through replaces the columns and is
done. -/
theorem readThrough_eq_bind {definitions : IdMap Expr} {e : Expr}
    (h : ∀ c ∈ e.columns, ∀ d ∈ (definitions.definitionOf c).columns,
      definitions.definitionOf d = col d) :
    readThrough definitions e = e.bind definitions.definitionOf := by
  obtain ⟨entries⟩ := definitions
  cases entries with
  | nil => exact (bind_col e).symm
  | cons entry entries => exact expand_eq_bind h

end QueryPlan.Expr
