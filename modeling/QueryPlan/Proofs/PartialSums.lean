import QueryPlan.Proofs.Folding
import QueryPlan.Proofs.NearestFloat

/-!
# Sums of sums

A sum of integers is exact while it is taken, but its result is a float where it does not fit a
word.  Results for the parts of a group are folded once more, and a float among them makes the sum
of them a float for good, even where the sum of all integers fits.  So the sums of parts merge to
the sum of the whole if and only if each of them fits a word by itself
(`AggregateFunction.merge_sums_eq_iff`).
-/

set_option autoImplicit false

namespace QueryPlan

/-! ## Folding numbers of either kind -/

namespace Total

/-- Whether a total has become a float. -/
def isRounded : Total → Bool
  | rounded _ => true
  | nothing | exact _ => false

theorem isRounded_add (t : Total) (n : Number) :
    (t.add n).isRounded = (t.isRounded || n.word?.isNone) := by
  unfold add
  cases t <;> cases n.word? <;> rfl

/-- A total becomes a float with the first number that is no word, and stays one. -/
theorem isRounded_foldl (ns : List Number) (t : Total) :
    (ns.foldl add t).isRounded = (t.isRounded || ns.any fun n => n.word?.isNone) := by
  induction ns generalizing t with
  | nil => rw [List.foldl_nil, List.any_nil, Bool.or_false]
  | cons n ns ih => rw [List.foldl_cons, ih, isRounded_add, List.any_cons, Bool.or_assoc]

theorem value_ne_int {t : Total} (h : t.isRounded = true) (i : Int) : t.value ≠ .int i := by
  cases t with
  | rounded f =>
    rw [value, Value.ofFloat, Number.ofFloat?]
    split
    · next n hn =>
      split at hn
      · rintro ⟨⟩
        cases hn
      · cases hn
    · exact fun h => by cases h
  | _ => cases h

/-- With a number among others that is no word, their total is no integer. -/
theorem value_foldl_ne_int {ns : List Number} {n : Number} (hn : n ∈ ns) (hword : n.word? = none)
    (i : Int) : (ns.foldl add .nothing).value ≠ .int i := by
  refine value_ne_int ?_ i
  rw [isRounded_foldl, Bool.or_eq_true, List.any_eq_true]
  exact .inr ⟨n, hn, Option.isNone_iff_eq_none.mpr hword⟩

end Total

theorem fold_sum_numbers (ns : List Number) :
    AggregateFunction.sum.fold ((ns.map Value.num).map fun v => [v]) =
      .ok (ns.foldl Total.add .nothing).value := by
  have hfold (t : Total) :
      ((ns.map Value.num).map fun v => [v]).foldlM Accumulator.update (.sum t) =
        .ok (.sum (ns.foldl Total.add t)) := by
    induction ns generalizing t with
    | nil => rfl
    | cons n ns ih => exact ih (t.add n)
  rw [AggregateFunction.fold]
  exact congrArg (Except.map Accumulator.result) (hfold .nothing)

/-! ## Parts -/

/-- As many words as can be counted in a word do not come near the greatest float. -/
theorem natAbs_sum_lt {is : List Int} (hwords : ∀ i ∈ is, Number.fitsWord i = true)
    (hlength : is.length < 2 ^ 64) : is.sum.natAbs < 2 ^ 128 := by
  have hsize : sizeSum is ≤ (is.map Int.natAbs).length • 2 ^ 63 := by
    refine List.sum_le_card_nsmul _ _ fun n hn => ?_
    obtain ⟨i, hi, rfl⟩ := List.mem_map.mp hn
    have hfits := hwords i hi
    rw [Number.fitsWord, decide_eq_true_eq] at hfits
    omega
  have hsum := natAbs_sum_le is
  rw [List.length_map, nsmul_eq_mul, Nat.cast_id] at hsize
  omega

/-- What the sum of a part leaves for the sum of sums: a number, which is a word where it fits. -/
theorem exists_number_totalOf {is : List Int} (hne : is ≠ []) (hsum : is.sum.natAbs < 2 ^ 128) :
    ∃ n : Number, (totalOf is).value = .num n ∧
      (n.word? = none ↔ Number.fitsWord is.sum = false) := by
  rw [totalOf_of_ne_nil hne, Total.value]
  split
  · next hfits =>
    refine ⟨.int is.sum, rfl, ?_⟩
    simp [Number.word?, hfits]
  · next hfits =>
    have hfinite := isFinite_ofInt hsum
    refine ⟨.float _ hfinite, ?_, ?_⟩
    · rw [Value.ofFloat, Number.ofFloat?, dif_pos hfinite]
    · simpa [Number.word?] using hfits

/-- Where no part is empty, the total of all is that of their sums. -/
theorem totalOf_map_sum {parts : List (List Int)} (hne : ∀ is ∈ parts, is ≠ []) :
    totalOf (parts.map List.sum) = totalOf parts.flatten := by
  rw [← totalOf_flatten, ← List.filterMap_eq_map]
  refine congrArg totalOf (List.filterMap_congr fun is his => ?_)
  exact (if_neg (by simpa using hne is his)).symm

namespace AggregateFunction

/-- **When sums of parts merge to the sum of the whole**, for parts that are not empty and a sum
that fits a word: if and only if the sum of each part fits a word. -/
theorem merge_sums_eq_iff {parts : List (List Int)} {f : AggregateFunction}
    (hmerge : sum.merge? false = some f) (hne : ∀ is ∈ parts, is ≠ [])
    (hwords : ∀ is ∈ parts, ∀ i ∈ is, Number.fitsWord i = true)
    (hlength : ∀ is ∈ parts, is.length < 2 ^ 64)
    (htotal : Number.fitsWord parts.flatten.sum = true) :
    ∃ sums total merged,
      List.Forall₂ (fun is v => sum.fold ((is.map Value.int).map fun v => [v]) = .ok v) parts sums ∧
      sum.fold ((parts.flatten.map Value.int).map fun v => [v]) = .ok total ∧
      f.fold (sums.map fun v => [v]) = .ok merged ∧
      (merged = total ↔ ∀ is ∈ parts, Number.fitsWord is.sum = true) := by
  obtain rfl : sum = f := Option.some.inj hmerge
  have hparts : List.Forall₂ (fun is v => sum.fold ((is.map Value.int).map fun v => [v]) = .ok v)
      parts (parts.map fun is => (totalOf is).value) := by
    rw [List.forall₂_map_right_iff, List.forall₂_same]
    exact fun is his => fold_sum_ints (hwords is his)
  have hwhole : sum.fold ((parts.flatten.map Value.int).map fun v => [v]) =
      .ok (totalOf parts.flatten).value := by
    refine fold_sum_ints fun i hi => ?_
    obtain ⟨is, his, hi⟩ := List.mem_flatten.mp hi
    exact hwords is his i hi
  obtain ⟨ns, hns⟩ := exists_forall₂ fun is his =>
    exists_number_totalOf (hne is his) (natAbs_sum_lt (hwords is his) (hlength is his))
  have hsums : (parts.map fun is => (totalOf is).value) = ns.map .num := by
    refine map_eq_map_of_forall₂ hns fun is _ n _ h => h.1
  have hmerged := fold_sum_numbers ns
  rw [← hsums] at hmerged
  refine ⟨_, _, _, hparts, hwhole, hmerged, fun heq is his => ?_, fun hfits => ?_⟩
  · by_contra hlarge
    rw [Bool.not_eq_true] at hlarge
    obtain ⟨n, hn, -, hword⟩ := forall₂_exists_of_mem hns his
    have hne' : parts.flatten ≠ [] := fun hnil =>
      hne is his (List.flatten_eq_nil_iff.mp hnil is his)
    exact Total.value_foldl_ne_int hn (hword.mpr hlarge) _
      (heq.trans (value_totalOf_of_fits hne' htotal))
  · have hints : (parts.map fun is => (totalOf is).value) = (parts.map List.sum).map Value.int := by
      rw [List.map_map]
      exact List.map_congr_left fun is his => value_totalOf_of_fits (hne is his) (hfits is his)
    have hagain : sum.fold (((parts.map List.sum).map Value.int).map fun v => [v]) =
        .ok (totalOf (parts.map List.sum)).value := by
      refine fold_sum_ints fun i hi => ?_
      obtain ⟨is, his, rfl⟩ := List.mem_map.mp hi
      exact hfits is his
    rw [← totalOf_map_sum hne]
    rw [hints] at hmerged
    exact Except.ok.inj (hmerged.symm.trans hagain)

/-- Three amounts of which the first two leave a word, in two parts. -/
theorem merge_sums_eq_iff_large : ∃ sums total merged,
    List.Forall₂ (fun is v => sum.fold ((is.map Value.int).map fun v => [v]) = .ok v)
        [[2 ^ 63 - 1, 1], [-1]] sums ∧
      sum.fold (([2 ^ 63 - 1, 1, -1].map Value.int).map fun v => [v]) = .ok total ∧
      sum.fold (sums.map fun v => [v]) = .ok merged ∧
      total = .int (2 ^ 63 - 1) ∧ merged ≠ total := by
  obtain ⟨sums, total, merged, hsums, htotal, hmerged, hiff⟩ :=
    @merge_sums_eq_iff [[2 ^ 63 - 1, 1], [-1]] _ rfl (by decide) (by decide) (by decide) (by decide)
  refine ⟨sums, total, merged, hsums, htotal, hmerged, (Except.ok.inj htotal).symm, ?_⟩
  exact hiff.not.mpr (by decide)

end AggregateFunction

end QueryPlan
