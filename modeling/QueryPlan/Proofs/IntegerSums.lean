import QueryPlan.Proofs.PartialSums

/-!
# Which sums of integers are exact

A cell may hold an integer that is too large for a signed word, and a sum that meets one goes on as
a float, even if the total of all integers would fit a word.  The result is then no integer at all.
So a sum over integers and nulls is their total if and only if each of the integers fits a word, and
the order in which they come does not matter (`AggregateFunction.fold_sum_eq_int_iff`).
-/

set_option autoImplicit false

namespace QueryPlan

/-- The integer in a cell, of whatever size. -/
def Value.integer? : Value → Option Int
  | .num (.int i) => some i
  | _ => none

/-- The integers among some cells. -/
def integersOf (cells : List Value) : List Int := cells.filterMap Value.integer?

namespace AggregateFunction

/-- A sum passes over nulls. -/
theorem fold_sum_integersOf {cells : List Value}
    (hcells : ∀ v ∈ cells, v = .null ∨ ∃ i, v = .int i) :
    sum.fold (cells.map fun v => [v]) =
      sum.fold (((integersOf cells).map Value.int).map fun v => [v]) := by
  have hfold (t : Total) :
      (cells.map fun v => [v]).foldlM Accumulator.update (.sum t) =
        (((integersOf cells).map Value.int).map fun v => [v]).foldlM Accumulator.update
          (.sum t) := by
    induction cells generalizing t with
    | nil => rfl
    | cons v cells ih =>
      obtain ⟨hv, hrest⟩ := List.forall_mem_cons.mp hcells
      obtain rfl | ⟨i, rfl⟩ := hv
      · exact ih hrest t
      · exact ih hrest (t.add (.int i))
  exact congrArg (Except.map Accumulator.result) (hfold .nothing)

/-- **When a sum over integers and nulls is exact**, for cells with an integer among them and a
total that fits a word: if and only if each integer fits a word, in whatever order they come.
Otherwise the result is no integer. -/
theorem fold_sum_eq_int_iff {cells order : List Value}
    (hcells : ∀ v ∈ cells, v = .null ∨ ∃ i, v = .int i) (hsome : integersOf cells ≠ [])
    (htotal : Number.fitsWord (integersOf cells).sum = true) (horder : order.Perm cells) :
    ∃ v, sum.fold (order.map fun c => [c]) = .ok v ∧
      ∀ i, v = .int i ↔ i = (integersOf cells).sum ∧
        ∀ j ∈ integersOf cells, Number.fitsWord j = true := by
  have hperm : (integersOf order).Perm (integersOf cells) := horder.filterMap _
  have hcells' : ∀ v ∈ order, v = .null ∨ ∃ i, v = .int i := fun v hv =>
    hcells v (horder.mem_iff.mp hv)
  have hfold : sum.fold (order.map fun c => [c]) =
      .ok (((integersOf order).map Number.int).foldl Total.add .nothing).value := by
    rw [fold_sum_integersOf hcells', ← fold_sum_numbers, List.map_map (f := Number.int)]
    rfl
  refine ⟨_, hfold, fun i => ?_⟩
  by_cases hwords : ∀ j ∈ integersOf cells, Number.fitsWord j = true
  · have hne : integersOf order ≠ [] := fun h => hsome (List.nil_perm.mp (h ▸ hperm))
    have hfits : Number.fitsWord (integersOf order).sum = true := hperm.sum_eq ▸ htotal
    have hexact := fold_sum_ints fun j hj => hwords j (hperm.mem_iff.mp hj)
    rw [← fold_sum_integersOf hcells', hfold, Except.ok.injEq, value_totalOf_of_fits hne hfits,
      hperm.sum_eq] at hexact
    rw [hexact]
    constructor
    · rintro ⟨⟩
      exact ⟨rfl, hwords⟩
    · rintro ⟨rfl, -⟩
      rfl
  · refine iff_of_false ?_ fun h => hwords h.2
    obtain ⟨j, hj, hlarge⟩ : ∃ j ∈ integersOf cells, ¬ Number.fitsWord j = true := by
      simpa using hwords
    have hmem : Number.int j ∈ (integersOf order).map Number.int :=
      List.mem_map_of_mem (hperm.mem_iff.mpr hj)
    exact Total.value_foldl_ne_int hmem (if_neg hlarge) i

/-- An amount that is too large for a signed word, with a null and an amount that brings the total
back into one. -/
theorem fold_sum_eq_int_iff_unsigned :
    integersOf [.int (2 ^ 63), .null, .int (-1)] = [2 ^ 63, -1] ∧
    Number.fitsWord [2 ^ 63, -1].sum = true ∧
    ∃ v, sum.fold ([.int (-1), .int (2 ^ 63), .null].map fun c => [c]) = .ok v ∧
      v ≠ .int (2 ^ 63 - 1) := by
  have hcells : ∀ v ∈ [Value.int (2 ^ 63), .null, .int (-1)], v = .null ∨ ∃ i, v = .int i := by
    simp
  have horder : ([Value.int (-1)] ++ [Value.int (2 ^ 63), .null]).Perm
      ([Value.int (2 ^ 63), .null] ++ [Value.int (-1)]) := List.perm_append_comm
  obtain ⟨v, hv, hiff⟩ := fold_sum_eq_int_iff hcells (by decide) (by decide) horder
  refine ⟨rfl, by decide, v, hv, fun h => ?_⟩
  have hlarge := ((hiff _).mp h).2 (2 ^ 63) List.mem_cons_self
  exact absurd hlarge (by decide)

end AggregateFunction

end QueryPlan
