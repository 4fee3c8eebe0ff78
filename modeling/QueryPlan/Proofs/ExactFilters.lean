import QueryPlan.Proofs.Handover

/-!
# Which predicates have an exact filter

A filter says a predicate in full when each leaf of the predicate tests one column against
literals, and no connective in it is left without operands: an empty conjunction holds of every row,
and no filter says that.  `Expr.Portable` is this description, given without the translation.

A predicate has an exact filter if and only if it is portable, and the filter then gives the answer
of the predicate, be it decided or unknown (`Expr.toFilter?_exact`).
-/

set_option autoImplicit false

namespace QueryPlan.Expr

/-- The predicates that a filter can say in full. -/
inductive Portable : Expr → Prop where
  | columnFirst (c : Column) (op : Comparison) (l : Literal) : Portable (compare (col c) op (lit l))
  | literalFirst (c : Column) (op : Comparison) (l : Literal) :
    Portable (compare (lit l) op (col c))
  | oneOf (c : Column) (values : List Literal) (negated : Bool) :
    Portable (inList (col c) (values.map lit) negated)
  | isNull (c : Column) (negated : Bool) : Portable (isNull (col c) negated)
  | and {operands : List Expr} (some_operand : operands ≠ [])
    (each : ∀ e ∈ operands, Portable e) : Portable (and operands)
  | or {operands : List Expr} (some_operand : operands ≠ [])
    (each : ∀ e ∈ operands, Portable e) : Portable (or operands)
  | not {operand : Expr} (each : Portable operand) : Portable (not operand)

/-! ## Tests of one column -/

variable {e : Expr} {f : Filter}

theorem Tests.portable (h : Tests e f) : Portable e := by
  cases h with
  | columnFirst c op l => exact .columnFirst c op l
  | literalFirst c op l => exact .literalFirst c op l
  | oneOf c values negated => exact .oneOf c values negated
  | isNull c negated => exact .isNull c negated

theorem mapM_literal?_map_lit (values : List Literal) :
    (values.map lit).mapM literal? = some values := by
  rw [mapM_eq_some_iff, List.forall₂_map_left_iff]
  exact List.forall₂_same.mpr fun _ _ => rfl

theorem Tests.toFilter? (weaken : Bool) (h : Tests e f) : e.toFilter? weaken = some f := by
  cases h with
  | oneOf c values negated => rw [Expr.toFilter?, mapM_literal?_map_lit, Option.map_some]
  | _ => rfl

/-! ## Connectives -/

theorem isSome_conjunction?_iff (fs : List Filter) :
    (Filter.conjunction? fs).isSome ↔ fs ≠ [] := by
  cases fs <;> simp [Filter.conjunction?]

theorem isSome_disjunction?_iff (fs : List Filter) :
    (Filter.disjunction? fs).isSome ↔ fs ≠ [] := by
  cases fs <;> simp [Filter.disjunction?]

theorem toFilter?_and {weaken : Bool} {es : List Expr} {fs : List Filter}
    (h : List.Forall₂ (fun x g => x.toFilter? weaken = some g) es fs) :
    (and es).toFilter? weaken = Filter.conjunction? fs := by
  have hfilters : toFilters weaken es = fs.map some := by
    rw [toFilters_eq_map]
    exact map_eq_map_of_forall₂ h fun _ _ _ _ hx => hx
  have hnone : (!weaken && (fs.map some).any Option.isNone) = false := by simp
  rw [toFilter?, hfilters, hnone, List.filterMap_map]
  exact congrArg Filter.conjunction? (List.filterMap_some ..)

theorem toFilter?_or {weaken : Bool} {es : List Expr} {fs : List Filter}
    (h : List.Forall₂ (fun x g => x.toFilter? weaken = some g) es fs) :
    (or es).toFilter? weaken = Filter.disjunction? fs := by
  have hfilters : (toFilters weaken es).mapM id = some fs := by
    rw [toFilters_eq_map, mapM_eq_some_iff, List.forall₂_map_left_iff]
    exact h
  rw [toFilter?, hfilters, Option.bind_some]

/-! ## Portable predicates -/

theorem exists_filters {es : List Expr} (h : ∀ x ∈ es, (x.toFilter? false).isSome) :
    ∃ fs, List.Forall₂ (fun x g => x.toFilter? false = some g) es fs :=
  exists_forall₂ fun x hx => Option.isSome_iff_exists.mp (h x hx)

theorem Portable.isSome_toFilter? (h : Portable e) : (e.toFilter? false).isSome := by
  induction h with
  | columnFirst c op l => rfl
  | literalFirst c op l => rfl
  | oneOf c values negated => rw [(Tests.oneOf c values negated).toFilter?]; rfl
  | isNull c negated => rfl
  | and hne _ ih =>
    obtain ⟨fs, hfs⟩ := exists_filters ih
    rw [toFilter?_and hfs, isSome_conjunction?_iff]
    exact ne_nil_of_forall₂ hfs hne
  | or hne _ ih =>
    obtain ⟨fs, hfs⟩ := exists_filters ih
    rw [toFilter?_or hfs, isSome_disjunction?_iff]
    exact ne_nil_of_forall₂ hfs hne
  | not _ ih => rwa [toFilter?, Option.isSome_map]

theorem portable_of_toFilter? (h : e.toFilter? false = some f) : Portable e := by
  induction e using children_induction generalizing f with
  | step e ih =>
    obtain htest | ⟨es, rfl, hall, hf⟩ | ⟨es, fs, rfl, hfs, hf⟩ | ⟨x, g, rfl, hg, -⟩ :=
      toFilter?_cases h
    · exact htest.portable
    · refine .and ?_ fun x hx => ?_
      · rintro rfl
        cases hf
      · obtain ⟨g, hg⟩ := Option.isSome_iff_exists.mp (hall rfl x hx)
        exact ih x hx hg
    · refine .or ?_ fun x hx => ?_
      · rintro rfl
        cases hfs
        cases hf
      · obtain ⟨g, -, hg⟩ := forall₂_exists_of_mem hfs hx
        exact ih x hx hg
    · exact .not (ih x List.mem_cons_self hg)

/-- **An exact filter exists for the portable predicates and no others, and it answers as its
predicate does.**  The rows need only agree on the columns that the predicate reads: the one keyed
as the plan keys it, the other by the names of the columns. -/
theorem toFilter?_exact (e : Expr) :
    ((e.toFilter? false).isSome ↔ e.Portable) ∧
    ∀ f, e.toFilter? false = some f → ∀ row stored : Row,
      (∀ c ∈ e.columns, row.cell c.rowKey = stored.cell c.name) →
        f.truth stored = e.truth row := by
  refine ⟨⟨fun h => ?_, Portable.isSome_toFilter?⟩, fun f hf row stored hrow => ?_⟩
  · obtain ⟨f, hf⟩ := Option.isSome_iff_exists.mp h
    exact portable_of_toFilter? hf
  · exact truth_toFilter? hf hrow

/-- A region: after "m" in the alphabet and not listed as "east" or as a null, or not there. -/
def regionQuestion : Expr :=
  .or [.and [.compare (.lit (.str "m")) .lt (.col (.plain 1 "region")),
      .not (.inList (.col (.plain 1 "region")) [.lit (.str "east"), .lit .null] false)],
    .isNull (.col (.plain 1 "region")) false]

/-- The null in the list leaves the question open for the west, and so does the filter. -/
theorem toFilter?_exact_region :
    (∀ c ∈ regionQuestion.columns, (Row.ofCells [("region#1", .str "west")]).cell c.rowKey =
      (Row.ofCells [("region", .str "west")]).cell c.name) ∧
    ∃ f, regionQuestion.toFilter? false = some f ∧
      f.truth (.ofCells [("region", .str "west")]) = .unknown := by
  have hrow : ∀ c ∈ regionQuestion.columns,
      (Row.ofCells [("region#1", .str "west")]).cell c.rowKey =
        (Row.ofCells [("region", .str "west")]).cell c.name := by
    intro c hc
    have hregion : ∀ c ∈ regionQuestion.columns, c = .plain 1 "region" := by decide
    rw [hregion c hc]
    rfl
  refine ⟨hrow, _, rfl, ?_⟩
  rw [(toFilter?_exact regionQuestion).2 _ rfl _ _ hrow]
  rfl

end QueryPlan.Expr
