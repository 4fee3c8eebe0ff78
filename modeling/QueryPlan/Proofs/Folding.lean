import Mathlib.Algebra.BigOperators.Ring.Finset
import QueryPlan.Proofs.Extremes
import QueryPlan.Proofs.Grouping

/-!
# Folding in parts

What an aggregate function gives for argument tuples, said without its accumulator, and what follows
for tuples that come in parts: the results for the parts, folded once more by the function that
merges them, give the result for the whole (`AggregateCall.valueOn_merge`).

## What the functions give

For each of the functions there is a statement of when the fold succeeds, and with which value.  It
is proved along the fold, with the accumulator after some tuples as the invariant:

* a **count** is the number of tuples without a null (`fold_count_eq_ok_iff`);
* a **sum** of nulls and words is the exact total of the words, or null without any
  (`fold_sum_eq_ok_iff`); the total is kept as an integer, and only its value asks whether it fits;
* an **extreme** is the best of the values (`fold_extreme_eq_ok_iff`, with `Best` from
  `Proofs/Extremes.lean`).

## Why parts merge

Counts add up, totals add up, and the best of a whole is the best of those of its parts.  Two things
may go wrong on the way, and `AggregateCall.Exact` excludes them: what a part comes to is a value
again, so a total must fit a word to be an integer still, and extremes of values that are not plain
depend on the order.  Sums of floats depend on it as well.  A sum of counts over no parts at all is
null and not zero, which is why there has to be a part where counts are merged.

The other way to treat parts is not to fold the call before the parts are put together.  A call
that ignores duplicates only asks which tuples come first
(`AggregateCall.valueOn_congr_of_eraseDups`), so it may see one row of each part in the place of all
of them.

A result that is folded alone comes back as it is, whatever it is (`AggregateCall.fold_finisher`).
That holds without any condition on the arguments, so it serves where each part is all of a group.
-/

set_option autoImplicit false

namespace QueryPlan

/-- The value of a function over argument tuples. -/
def AggregateFunction.fold (f : AggregateFunction) (tuples : List (List Value)) :
    Except PlanError Value :=
  (tuples.foldlM Accumulator.update (.fresh f)).map Accumulator.result

theorem AggregateCall.valueOn_eq (c : AggregateCall) (rows : List Row) :
    c.valueOn rows = c.func.fold (c.tuples rows) := rfl

/-! ## How many arguments -/

theorem flatten_map_singleton (vs : List Value) : (vs.map fun v => [v]).flatten = vs := by
  rw [← List.flatMap_def]
  exact List.flatMap_singleton' vs

theorem length_of_mem_map_singleton {vs : List Value} {t : List Value}
    (h : t ∈ vs.map fun v => [v]) : t.length = 1 := by
  obtain ⟨v, -, rfl⟩ := List.mem_map.mp h
  rfl

theorem Accumulator.function_updateOne {a b : Accumulator} {v : Value}
    (h : a.updateOne v = .ok b) : b.function = a.function := by
  unfold updateOne at h
  split at h
  · exact Except.ok.inj h ▸ rfl
  · split at h
    · exact Except.ok.inj h ▸ rfl
    · exact Except.ok.inj h ▸ rfl
    · cases h
    · exact Except.ok.inj h ▸ rfl
    · cases h
    · exact Except.ok.inj h ▸ rfl
    · obtain ⟨w, -, hw⟩ := bind_eq_ok_iff.mp h
      exact Except.ok.inj hw ▸ rfl

theorem Accumulator.function_update {a b : Accumulator} {t : List Value}
    (h : a.update t = .ok b) : b.function = a.function := by
  unfold update at h
  split at h
  · exact Except.ok.inj h ▸ rfl
  · exact function_updateOne h
  · cases h

theorem Accumulator.function_foldlM {a b : Accumulator} {tuples : List (List Value)}
    (h : tuples.foldlM update a = .ok b) : b.function = a.function := by
  induction tuples generalizing a with
  | nil => exact Except.ok.inj h ▸ rfl
  | cons t tuples ih =>
    rw [List.foldlM_cons] at h
    obtain ⟨c, hc, h⟩ := bind_eq_ok_iff.mp h
    exact (ih h).trans (function_update hc)

/-- Only counts take anything but one argument. -/
theorem Accumulator.foldlM_update_iff {a b : Accumulator} (ha : a.function ≠ .count)
    {tuples : List (List Value)} : tuples.foldlM update a = .ok b ↔
      (∀ t ∈ tuples, t.length = 1) ∧ tuples.flatten.foldlM updateOne a = .ok b := by
  induction tuples generalizing a with
  | nil => simp
  | cons t tuples ih =>
    rw [List.foldlM_cons, List.forall_mem_cons, List.flatten_cons, List.foldlM_append]
    match t with
    | [v] =>
      have hone : ([v] : List Value).length = 1 := rfl
      simp only [List.foldlM_cons, List.foldlM_nil, bind_pure, bind_eq_ok_iff, hone, true_and,
        ← exists_and_left]
      refine exists_congr fun c => ?_
      have hupdate : a.update [v] = a.updateOne v := by cases a <;> rfl
      rw [hupdate, and_left_comm]
      refine and_congr_right fun hc => ih ?_
      rwa [function_updateOne hc]
    | [] =>
      have hupdate : a.update [] = .error (.wrongArguments a.function) := by
        cases a with
        | count n => exact absurd rfl ha
        | _ => rfl
      simp [hupdate, bind, Except.bind]
    | v :: w :: rest =>
      have hupdate : a.update (v :: w :: rest) = .error (.wrongArguments a.function) := by
        cases a <;> rfl
      simp [hupdate, bind, Except.bind]

/-! ## Counts -/

/-- Whether a count counts a tuple. -/
def present (t : List Value) : Bool := t.all fun v => !v.isNull

theorem foldlM_count {tuples : List (List Value)} {n : Nat} {a : Accumulator} :
    tuples.foldlM Accumulator.update (.count n) = .ok a ↔
      (∀ t ∈ tuples, t.length ≤ 1) ∧ a = .count (n + tuples.countP present) := by
  induction tuples generalizing n with
  | nil => simp [pure, Except.pure, eq_comm]
  | cons t tuples ih =>
    rw [List.foldlM_cons, List.forall_mem_cons, List.countP_cons]
    match t with
    | [] =>
      show tuples.foldlM _ (Accumulator.count (n + 1)) = _ ↔ _
      have hpresent : present [] = true := rfl
      rw [ih, hpresent, if_pos rfl, Nat.add_right_comm, Nat.add_assoc]
      simp
    | [v] =>
      show ((if v.isNull then _ else _) >>= tuples.foldlM _) = _ ↔ _
      split
      · next hv =>
        show tuples.foldlM _ (Accumulator.count n) = _ ↔ _
        rw [ih, if_neg (by simp [present, hv])]
        simp
      · next hv =>
        show tuples.foldlM _ (Accumulator.count (n + 1)) = _ ↔ _
        rw [ih, if_pos (by simp [present, hv]), Nat.add_right_comm, Nat.add_assoc]
        simp
    | v :: w :: rest =>
      simp [Accumulator.update, bind, Except.bind]

theorem fold_count_eq_ok_iff {tuples : List (List Value)} {v : Value} :
    AggregateFunction.count.fold tuples = .ok v ↔
      (∀ t ∈ tuples, t.length ≤ 1) ∧ v = .int (tuples.countP present) := by
  rw [AggregateFunction.fold, map_eq_ok_iff]
  simp only [Accumulator.fresh, foldlM_count, Nat.zero_add]
  constructor
  · rintro ⟨_, ⟨hlen, rfl⟩, rfl⟩
    exact ⟨hlen, rfl⟩
  · rintro ⟨hlen, rfl⟩
    exact ⟨_, ⟨hlen, rfl⟩, rfl⟩

/-! ## Sums -/

/-- The integer that a value is, if it fits a signed word. -/
def Value.word? : Value → Option Int
  | .num n => n.word?
  | _ => none

/-- Whether a value is null or an integer that fits a signed word. -/
def Value.isWord (v : Value) : Bool := v.isNull || v.word?.isSome

theorem Value.word?_int {i : Int} (h : Number.fitsWord i = true) : (int i).word? = some i :=
  if_pos h

/-- The exact total of some integers. -/
def totalOf (is : List Int) : Total := if is.isEmpty then .nothing else .exact is.sum

theorem totalOf_of_ne_nil {is : List Int} (hne : is ≠ []) : totalOf is = .exact is.sum :=
  if_neg (by simpa using hne)

/-- A sum that fits a word comes out as that word. -/
theorem value_totalOf_of_fits {is : List Int} (hne : is ≠ [])
    (hfits : Number.fitsWord is.sum = true) : (totalOf is).value = .int is.sum := by
  rw [totalOf_of_ne_nil hne, Total.value, if_pos hfits]

theorem add_totalOf (is : List Int) {n : Number} {i : Int} (h : n.word? = some i) :
    (totalOf is).add n = totalOf (is ++ [i]) := by
  cases is with
  | nil => simp [totalOf, Total.add, h]
  | cons j is => simp [totalOf, Total.add, h, Int.add_assoc]

theorem foldlM_sum {vs : List Value} (hvs : ∀ v ∈ vs, v.isWord = true) (is : List Int) :
    vs.foldlM Accumulator.updateOne (.sum (totalOf is)) =
      .ok (.sum (totalOf (is ++ vs.filterMap Value.word?))) := by
  induction vs generalizing is with
  | nil => rw [List.filterMap_nil, List.append_nil]; rfl
  | cons v vs ih =>
    have hv := hvs v List.mem_cons_self
    replace ih := ih fun u hu => hvs u (List.mem_cons_of_mem _ hu)
    rw [List.foldlM_cons]
    cases v with
    | null => exact ih is
    | num n =>
      obtain ⟨i, hi⟩ := Option.isSome_iff_exists.mp (show n.word?.isSome from hv)
      show vs.foldlM _ (Accumulator.sum ((totalOf is).add n)) = _
      rw [add_totalOf is hi, ih, List.append_assoc,
        List.filterMap_cons_some (show Value.word? (.num n) = some i from hi)]
      rfl
    | _ => cases hv

theorem fold_sum_eq_ok_iff {tuples : List (List Value)}
    (hwords : ∀ v ∈ tuples.flatten, v.isWord = true) {v : Value} :
    AggregateFunction.sum.fold tuples = .ok v ↔ (∀ t ∈ tuples, t.length = 1) ∧
      v = (totalOf (tuples.flatten.filterMap Value.word?)).value := by
  have hstart : Accumulator.fresh .sum = .sum (totalOf []) := rfl
  rw [AggregateFunction.fold, map_eq_ok_iff, hstart]
  simp only [Accumulator.foldlM_update_iff (a := .sum (totalOf []))
    (by simp [Accumulator.function]),
    foldlM_sum hwords, List.nil_append, Except.ok.injEq]
  constructor
  · rintro ⟨_, ⟨hlen, rfl⟩, rfl⟩
    exact ⟨hlen, rfl⟩
  · rintro ⟨hlen, rfl⟩
    exact ⟨_, ⟨hlen, rfl⟩, rfl⟩

/-- How much the sum of some integers can amount to. -/
def sizeSum (is : List Int) : Nat := (is.map Int.natAbs).sum

theorem natAbs_sum_le (is : List Int) : is.sum.natAbs ≤ sizeSum is := by
  induction is with
  | nil => exact Nat.le_refl 0
  | cons i is ih =>
    rw [sizeSum, List.map_cons, List.sum_cons, List.sum_cons]
    exact (Int.natAbs_add_le i is.sum).trans (Nat.add_le_add_left ih _)

theorem fitsWord_of_natAbs_lt {i : Int} (h : i.natAbs < 2 ^ 63) : Number.fitsWord i = true := by
  rw [Number.fitsWord, decide_eq_true_eq]
  omega

theorem fold_sum_singletons {vs : List Value} (hwords : ∀ v ∈ vs, v.isWord = true) :
    AggregateFunction.sum.fold (vs.map fun v => [v]) =
      .ok (totalOf (vs.filterMap Value.word?)).value := by
  rw [fold_sum_eq_ok_iff (by rwa [flatten_map_singleton]), flatten_map_singleton]
  exact ⟨fun t => length_of_mem_map_singleton, rfl⟩

theorem fold_sum_ints {is : List Int} (h : ∀ i ∈ is, Number.fitsWord i = true) :
    AggregateFunction.sum.fold ((is.map Value.int).map fun v => [v]) =
      .ok (totalOf is).value := by
  have hints : (is.map Value.int).filterMap Value.word? = is := by
    rw [List.filterMap_map]
    refine (List.filterMap_congr fun i hi => ?_).trans List.filterMap_some
    exact Value.word?_int (h i hi)
  rw [fold_sum_singletons fun v hv => ?_, hints]
  obtain ⟨i, hi, rfl⟩ := List.mem_map.mp hv
  rw [Value.isWord, Value.word?_int (h i hi)]
  rfl

/-- The total of a list of parts is the total of the totals of the parts that are not empty. -/
theorem totalOf_flatten (parts : List (List Int)) :
    totalOf (parts.filterMap fun is => if is.isEmpty then none else some is.sum) =
      totalOf parts.flatten := by
  have hsum : (parts.filterMap fun is => if is.isEmpty then none else some is.sum).sum =
      parts.flatten.sum := by
    induction parts with
    | nil => rfl
    | cons is parts ih =>
      rw [List.flatten_cons, List.sum_append, ← ih]
      cases is with
      | nil => simp
      | cons i is => simp
  have hempty : (parts.filterMap fun is => if is.isEmpty then none else some is.sum).isEmpty =
      parts.flatten.isEmpty := by
    clear hsum
    induction parts with
    | nil => rfl
    | cons is parts ih =>
      cases is with
      | nil => simpa using ih
      | cons i is => rfl
  rw [totalOf, totalOf, hsum, hempty]

/-- What a total comes to as a value, and back. -/
theorem word?_value_totalOf {is : List Int} (h : sizeSum is < 2 ^ 63) :
    (totalOf is).value.word? = if is.isEmpty then none else some is.sum := by
  rw [totalOf]
  split
  · rfl
  · have hfits := fitsWord_of_natAbs_lt ((natAbs_sum_le is).trans_lt h)
    rw [Total.value, if_pos hfits, Value.word?_int hfits]

theorem isWord_value_totalOf {is : List Int} (h : sizeSum is < 2 ^ 63) :
    (totalOf is).value.isWord = true := by
  rw [Value.isWord, word?_value_totalOf h, totalOf]
  split
  · rfl
  · simp

/-! ## Extremes -/

theorem fold_extreme_eq_ok_iff {x : Extreme} {tuples : List (List Value)}
    (hplain : ∀ v ∈ tuples.flatten, v.isPlain = true) {v : Value} :
    x.function.fold tuples = .ok v ↔
      (∀ t ∈ tuples, t.length = 1) ∧ x.Best tuples.flatten v := by
  have hstart : Accumulator.fresh x.function = .extreme x none := by cases x <;> rfl
  have hcount : (Accumulator.extreme x none).function ≠ .count := by
    cases x <;> simp [Accumulator.function, Extreme.function]
  rw [AggregateFunction.fold, map_eq_ok_iff, hstart]
  simp only [Accumulator.foldlM_update_iff hcount, Extreme.foldlM_updateOne_none hplain]
  have hresult (v : Value) :
      (Accumulator.extreme x (if v.isNull then none else some v)).result = v := by
    cases v <;> rfl
  constructor
  · rintro ⟨_, ⟨hlen, v, hv, rfl⟩, rfl⟩
    exact ⟨hlen, (hresult v).symm ▸ hv⟩
  · rintro ⟨hlen, hv⟩
    exact ⟨_, ⟨hlen, v, hv, rfl⟩, hresult v⟩

theorem fold_extreme_singletons {x : Extreme} {vs : List Value} {v : Value}
    (hplain : ∀ w ∈ vs, w.isPlain = true) (h : x.Best vs v) :
    x.function.fold (vs.map fun v => [v]) = .ok v := by
  rw [fold_extreme_eq_ok_iff (by rwa [flatten_map_singleton]), flatten_map_singleton]
  exact ⟨fun t => length_of_mem_map_singleton, h⟩

/-! ## Results folded once more -/

theorem AggregateFunction.exists_extreme {f : AggregateFunction}
    (h : f.ignoresDuplicates = true) : ∃ x : Extreme, f = x.function := by
  cases f with
  | min => exact ⟨.least, rfl⟩
  | max => exact ⟨.greatest, rfl⟩
  | _ => cases h

/-- Counts and sums merge by adding, and an extreme by itself. -/
theorem AggregateFunction.merge?_cases {f g : AggregateFunction} {distinct : Bool}
    (h : f.merge? distinct = some g) :
    (f = .count ∧ distinct = false ∧ g = .sum) ∨ (f = .sum ∧ distinct = false ∧ g = .sum) ∨
      ∃ x : Extreme, f = x.function ∧ g = x.function := by
  cases f with
  | count =>
    cases distinct with
    | false => exact .inl ⟨rfl, rfl, (Option.some.inj h).symm⟩
    | true => cases h
  | sum =>
    cases distinct with
    | false => exact .inr (.inl ⟨rfl, rfl, (Option.some.inj h).symm⟩)
    | true => cases h
  | min => exact .inr (.inr ⟨.least, rfl, (Option.some.inj h).symm⟩)
  | max => exact .inr (.inr ⟨.greatest, rfl, (Option.some.inj h).symm⟩)
  | avg => cases h

/-- An extreme of one value is that value. -/
theorem fold_extreme_singleton (x : Extreme) (v : Value) : x.function.fold [[v]] = .ok v := by
  cases x <;> cases v <;> rfl

theorem toFloat_of_ofFloat?_eq_some {f : Float} {n : Number} (h : Number.ofFloat? f = some n) :
    n.toFloat = f ∧ n.word? = none := by
  rw [Number.ofFloat?] at h
  split at h
  · exact Option.some.inj h ▸ ⟨rfl, rfl⟩
  · cases h

/-- A sum of one total is that total. -/
theorem fold_sum_singleton (t : Total) : AggregateFunction.sum.fold [[t.value]] = .ok t.value := by
  have hfloat (f : Float) : AggregateFunction.sum.fold [[.ofFloat f]] = .ok (.ofFloat f) := by
    cases hf : Number.ofFloat? f with
    | none =>
      have : Value.ofFloat f = .null := by rw [Value.ofFloat, hf]
      rw [this]
      rfl
    | some n =>
      obtain ⟨hn, hword⟩ := toFloat_of_ofFloat?_eq_some hf
      have : Value.ofFloat f = .num n := by rw [Value.ofFloat, hf]
      rw [this]
      show Except.ok (Total.nothing.add n).value = _
      simp only [Total.add, hword, hn, Total.value, this]
  cases t with
  | nothing => rfl
  | rounded total => exact hfloat total
  | exact total =>
    rw [Total.value]
    split
    · next hfits =>
      show Except.ok (Total.nothing.add (.int total)).value = _
      have hword : (Number.int total).word? = some total := if_pos hfits
      simp only [Total.add, hword, Total.value, if_pos hfits]
    · exact hfloat (Float.ofInt total)

namespace AggregateCall

variable {c : AggregateCall} {rows : List Row} {v : Value}

theorem mem_tuples {t : List Value} : t ∈ c.tuples rows ↔ ∃ row ∈ rows, c.argsOn row = t := by
  rw [tuples]
  split
  · rw [List.mem_eraseDups, List.mem_map]
  · rw [List.mem_map]

theorem length_tuples_le : (c.tuples rows).length ≤ rows.length := by
  rw [tuples]
  split
  · have hsub := (nodup_eraseDups (rows.map c.argsOn)).subperm fun _ => List.mem_eraseDups.mp
    exact hsub.length_le.trans (List.length_map ..).le
  · exact (List.length_map ..).le

/-- The function that finishes a call whose result is there: the one that merges its results, or
one that passes them on. -/
def finisher (c : AggregateCall) : AggregateFunction := (c.func.merge? c.distinct).getD .max

/-- **A result that is folded alone comes back as it is.** -/
theorem fold_finisher (hrows : rows.length < 2 ^ 63) (h : c.valueOn rows = .ok v) :
    c.finisher.fold [[v]] = .ok v := by
  rw [valueOn_eq] at h
  rw [finisher]
  cases hmerge : c.func.merge? c.distinct with
  | none => exact fold_extreme_singleton .greatest v
  | some f =>
    rw [Option.getD_some]
    obtain ⟨hfunc, -, rfl⟩ | ⟨hfunc, -, rfl⟩ | ⟨x, -, rfl⟩ :=
      AggregateFunction.merge?_cases hmerge
    · rw [hfunc] at h
      obtain ⟨-, rfl⟩ := fold_count_eq_ok_iff.mp h
      have hfits : Number.fitsWord ((c.tuples rows).countP present) = true :=
        fitsWord_of_natAbs_lt ((List.countP_le_length.trans length_tuples_le).trans_lt hrows)
      have hsum := fold_sum_singleton (.exact ((c.tuples rows).countP present))
      rwa [Total.value, if_pos hfits] at hsum
    · rw [hfunc] at h
      obtain ⟨a, ha, rfl⟩ := map_eq_ok_iff.mp h
      have hfunction := Accumulator.function_foldlM ha
      cases a with
      | sum total => exact fold_sum_singleton total
      | extreme which _ => cases which <;> cases hfunction
      | _ => cases hfunction
    · exact fold_extreme_singleton x v

/-! ## Results of parts -/

/-- What makes the merging of a call exact: a sum meets only nulls and integers, so few and small
that no part of them leaves a signed word, and an extreme meets only plain values. -/
structure Exact (c : AggregateCall) (rows : List Row) : Prop where
  words : c.func = .sum → ∀ v ∈ rows.flatMap c.argsOn, v.isWord = true
  size : c.func = .sum → sizeSum ((rows.flatMap c.argsOn).filterMap Value.word?) < 2 ^ 63
  plain : c.func.ignoresDuplicates = true → ∀ v ∈ rows.flatMap c.argsOn, v.isPlain = true

instance (c : AggregateCall) (rows : List Row) : Decidable (c.Exact rows) :=
  decidable_of_iff ((c.func = .sum → ∀ v ∈ rows.flatMap c.argsOn, v.isWord = true) ∧
    (c.func = .sum → sizeSum ((rows.flatMap c.argsOn).filterMap Value.word?) < 2 ^ 63) ∧
    (c.func.ignoresDuplicates = true → ∀ v ∈ rows.flatMap c.argsOn, v.isPlain = true))
    ⟨fun ⟨h₁, h₂, h₃⟩ => ⟨h₁, h₂, h₃⟩, fun ⟨h₁, h₂, h₃⟩ => ⟨h₁, h₂, h₃⟩⟩

/-- What is exact over some rows is exact over fewer. -/
theorem Exact.sublist {rows' : List Row} (h : c.Exact rows) (hsub : rows'.Sublist rows) :
    c.Exact rows' := by
  have hargs : (rows'.flatMap c.argsOn).Sublist (rows.flatMap c.argsOn) :=
    hsub.flatMap c.argsOn
  refine ⟨fun hfunc v hv => h.words hfunc v (hargs.subset hv), fun hfunc => ?_,
    fun hfunc v hv => h.plain hfunc v (hargs.subset hv)⟩
  refine Nat.lt_of_le_of_lt ?_ (h.size hfunc)
  exact ((hargs.filterMap Value.word?).map Int.natAbs).sum_le_sum fun _ _ => Nat.zero_le _

/-- The order of the rows does not matter. -/
theorem Exact.perm {rows' : List Row} (h : c.Exact rows) (hperm : rows.Perm rows') :
    c.Exact rows' := by
  have hargs : (rows.flatMap c.argsOn).Perm (rows'.flatMap c.argsOn) :=
    hperm.flatMap_right c.argsOn
  refine ⟨fun hfunc v hv => h.words hfunc v (hargs.mem_iff.mpr hv), fun hfunc => ?_,
    fun hfunc v hv => h.plain hfunc v (hargs.mem_iff.mpr hv)⟩
  have hsize := ((hargs.filterMap Value.word?).map Int.natAbs).sum_nat
  rw [sizeSum, ← hsize]
  exact h.size hfunc

/-! ### The value of a call, said of its arguments -/

theorem forall_mem_tuples {P : List Value → Prop} :
    (∀ t ∈ c.tuples rows, P t) ↔ ∀ row ∈ rows, P (c.argsOn row) := by
  simp only [mem_tuples, forall_exists_index, and_imp, forall_apply_eq_imp_iff₂]

theorem mem_flatten_tuples : v ∈ (c.tuples rows).flatten ↔ v ∈ rows.flatMap c.argsOn := by
  rw [List.mem_flatten, List.mem_flatMap]
  simp only [mem_tuples]
  constructor
  · rintro ⟨_, ⟨row, hrow, rfl⟩, hv⟩
    exact ⟨row, hrow, hv⟩
  · rintro ⟨row, hrow, hv⟩
    exact ⟨_, ⟨row, hrow, rfl⟩, hv⟩

theorem valueOn_count_eq_ok_iff (hfunc : c.func = .count) (hdistinct : c.distinct = false) :
    c.valueOn rows = .ok v ↔ (∀ row ∈ rows, (c.argsOn row).length ≤ 1) ∧
      v = .int ((rows.map c.argsOn).countP present) := by
  have htuples : c.tuples rows = rows.map c.argsOn := by
    rw [tuples, hdistinct]
    rfl
  rw [valueOn_eq, hfunc, fold_count_eq_ok_iff, forall_mem_tuples, htuples]

/-- The integers that a call meets. -/
def wordsOn (c : AggregateCall) (rows : List Row) : List Int :=
  (rows.flatMap c.argsOn).filterMap Value.word?

theorem valueOn_sum_eq_ok_iff (hfunc : c.func = .sum) (hdistinct : c.distinct = false)
    (hwords : ∀ v ∈ rows.flatMap c.argsOn, v.isWord = true) : c.valueOn rows = .ok v ↔
      (∀ row ∈ rows, (c.argsOn row).length = 1) ∧ v = (totalOf (c.wordsOn rows)).value := by
  have hflatten : (c.tuples rows).flatten = rows.flatMap c.argsOn := by
    rw [tuples, hdistinct]
    exact (List.flatMap_def ..).symm
  rw [valueOn_eq, hfunc, fold_sum_eq_ok_iff (by rwa [hflatten]), forall_mem_tuples, hflatten]
  rfl

theorem valueOn_extreme_eq_ok_iff {x : Extreme} (hfunc : c.func = x.function)
    (hplain : ∀ v ∈ rows.flatMap c.argsOn, v.isPlain = true) : c.valueOn rows = .ok v ↔
      (∀ row ∈ rows, (c.argsOn row).length = 1) ∧ x.Best (rows.flatMap c.argsOn) v := by
  rw [valueOn_eq, hfunc,
    fold_extreme_eq_ok_iff fun v hv => hplain v (mem_flatten_tuples.mp hv), forall_mem_tuples]
  refine and_congr_right fun _ => ⟨fun h => ?_, fun h => ?_⟩
  · exact h.congr fun u => mem_flatten_tuples
  · exact h.congr fun u => mem_flatten_tuples.symm

/-! ### Parts -/

section Parts

variable {parts : List (List Row)} (hparts : parts.flatten.Perm rows)
include hparts

theorem mem_of_mem_part {part : List Row} (hpart : part ∈ parts) {row : Row} (hrow : row ∈ part) :
    row ∈ rows :=
  hparts.mem_iff.mp (List.mem_flatten.mpr ⟨part, hpart, hrow⟩)

theorem Exact.part (h : c.Exact rows) {part : List Row} (hpart : part ∈ parts) : c.Exact part :=
  (h.perm hparts.symm).sublist (List.sublist_flatten_of_mem hpart)

theorem perm_argsOn_parts :
    (parts.map fun part => part.flatMap c.argsOn).flatten.Perm (rows.flatMap c.argsOn) := by
  have hflatten : (parts.map fun part => part.flatMap c.argsOn).flatten =
      parts.flatten.flatMap c.argsOn := by
    simp only [List.flatMap_def, List.map_flatten, List.flatten_flatten, List.map_map,
      Function.comp_def]
  rw [hflatten]
  exact hparts.flatMap_right c.argsOn

theorem perm_wordsOn_parts : (parts.map c.wordsOn).flatten.Perm (c.wordsOn rows) := by
  have hflatten : (parts.map c.wordsOn).flatten =
      (parts.map fun part => part.flatMap c.argsOn).flatten.filterMap Value.word? := by
    rw [List.filterMap_flatten, List.map_map]
    rfl
  rw [hflatten]
  exact (perm_argsOn_parts hparts).filterMap Value.word?

/-- Counts add up, where there is something to add. -/
theorem valueOn_merge_count (hfunc : c.func = .count) (hdistinct : c.distinct = false)
    (hne : parts ≠ []) (hrows : rows.length < 2 ^ 63) (h : c.valueOn rows = .ok v) :
    ∃ vs, List.Forall₂ (fun part w => c.valueOn part = .ok w) parts vs ∧
      AggregateFunction.sum.fold (vs.map fun v => [v]) = .ok v := by
  obtain ⟨hlen, rfl⟩ := (valueOn_count_eq_ok_iff hfunc hdistinct).mp h
  let count (part : List Row) : Nat := (part.map c.argsOn).countP present
  have hsum : (parts.map count).sum = count rows := by
    show _ = (rows.map c.argsOn).countP present
    rw [← (hparts.map c.argsOn).countP_eq, List.map_flatten, List.countP_flatten, List.map_map]
    rfl
  have hfits {n : Nat} (hn : n ≤ count rows) : Number.fitsWord (n : Int) = true := by
    refine fitsWord_of_natAbs_lt (hn.trans_lt (List.countP_le_length.trans_lt ?_))
    rwa [List.length_map]
  have hcast : (parts.map fun part => (count part : Int)).sum = (count rows : Nat) := by
    rw [← hsum, Nat.cast_list_sum, List.map_map]
    rfl
  refine ⟨(parts.map fun part => (count part : Int)).map Value.int, ?_, ?_⟩
  · rw [List.map_map, List.forall₂_map_right_iff, List.forall₂_same]
    intro part hpart
    refine (valueOn_count_eq_ok_iff hfunc hdistinct).mpr ⟨fun row hrow => ?_, rfl⟩
    exact hlen row (mem_of_mem_part hparts hpart hrow)
  · rw [fold_sum_ints fun i hi => ?_,
      value_totalOf_of_fits (by simpa using hne) (hcast ▸ hfits le_rfl), hcast]
    obtain ⟨part, hpart, rfl⟩ := List.mem_map.mp hi
    exact hfits (hsum ▸ List.single_le_sum (by simp) _ (List.mem_map_of_mem hpart))

/-- Sums of integers add up. -/
theorem valueOn_merge_sum (hfunc : c.func = .sum) (hdistinct : c.distinct = false)
    (hexact : c.Exact rows) (h : c.valueOn rows = .ok v) :
    ∃ vs, List.Forall₂ (fun part w => c.valueOn part = .ok w) parts vs ∧
      AggregateFunction.sum.fold (vs.map fun v => [v]) = .ok v := by
  obtain ⟨hlen, rfl⟩ := (valueOn_sum_eq_ok_iff hfunc hdistinct (hexact.words hfunc)).mp h
  have hpart {part : List Row} (hpart : part ∈ parts) : c.Exact part := hexact.part hparts hpart
  have hperm := perm_wordsOn_parts (c := c) hparts
  have htotal : totalOf (parts.map c.wordsOn).flatten = totalOf (c.wordsOn rows) := by
    rw [totalOf, totalOf, hperm.isEmpty_eq, hperm.sum_eq]
  refine ⟨parts.map fun part => (totalOf (c.wordsOn part)).value, ?_, ?_⟩
  · rw [List.forall₂_map_right_iff, List.forall₂_same]
    intro part hmem
    refine (valueOn_sum_eq_ok_iff hfunc hdistinct ((hpart hmem).words hfunc)).mpr
      ⟨fun row hrow => ?_, rfl⟩
    exact hlen row (mem_of_mem_part hparts hmem hrow)
  · have hwords : (parts.map fun part => (totalOf (c.wordsOn part)).value).filterMap Value.word? =
        (parts.map c.wordsOn).filterMap fun is => if is.isEmpty then none else some is.sum := by
      rw [List.filterMap_map, List.filterMap_map]
      exact List.filterMap_congr fun part hmem => word?_value_totalOf ((hpart hmem).size hfunc)
    rw [fold_sum_singletons fun v hv => ?_, hwords, totalOf_flatten, htotal]
    obtain ⟨part, hmem, rfl⟩ := List.mem_map.mp hv
    exact isWord_value_totalOf ((hpart hmem).size hfunc)

/-- The extreme of the whole is that of the extremes of the parts. -/
theorem valueOn_merge_extreme {x : Extreme} (hfunc : c.func = x.function) (hexact : c.Exact rows)
    (h : c.valueOn rows = .ok v) :
    ∃ vs, List.Forall₂ (fun part w => c.valueOn part = .ok w) parts vs ∧
      x.function.fold (vs.map fun v => [v]) = .ok v := by
  have hignores : c.func.ignoresDuplicates = true := by rw [hfunc]; cases x <;> rfl
  have hplain := hexact.plain hignores
  obtain ⟨hlen, hbest⟩ := (valueOn_extreme_eq_ok_iff hfunc hplain).mp h
  obtain ⟨vs, hvs, hvsplain, hv⟩ :=
    hbest.of_flatten hplain fun u => (perm_argsOn_parts (c := c) hparts).mem_iff
  refine ⟨vs, ?_, fold_extreme_singletons hvsplain hv⟩
  rw [List.forall₂_map_left_iff] at hvs
  refine forall₂_imp_of_mem hvs fun part hpart w _ hw => ?_
  refine (valueOn_extreme_eq_ok_iff hfunc ((hexact.part hparts hpart).plain hignores)).mpr
    ⟨fun row hrow => ?_, hw⟩
  exact hlen row (mem_of_mem_part hparts hpart hrow)

/-- **Results of parts merge into the result of the whole.** -/
theorem valueOn_merge {f : AggregateFunction} (hmerge : c.func.merge? c.distinct = some f)
    (hexact : c.Exact rows) (hne : c.func = .count → parts ≠ []) (hrows : rows.length < 2 ^ 63)
    (h : c.valueOn rows = .ok v) :
    ∃ vs, List.Forall₂ (fun part w => c.valueOn part = .ok w) parts vs ∧
      f.fold (vs.map fun v => [v]) = .ok v := by
  obtain ⟨hfunc, hdistinct, rfl⟩ | ⟨hfunc, hdistinct, rfl⟩ | ⟨x, hfunc, rfl⟩ :=
    AggregateFunction.merge?_cases hmerge
  · exact valueOn_merge_count hparts hfunc hdistinct (hne hfunc) hrows h
  · exact valueOn_merge_sum hparts hfunc hdistinct hexact h
  · exact valueOn_merge_extreme hparts hfunc hexact h

end Parts

/-- Rows enter through the arguments only. -/
theorem valueOn_congr {rows' : List Row} (h : rows.map c.argsOn = rows'.map c.argsOn) :
    c.valueOn rows = c.valueOn rows' := by
  rw [valueOn_eq, valueOn_eq, tuples, tuples, h]

/-- **A call that ignores duplicates only asks which tuples come first.** -/
theorem valueOn_congr_of_eraseDups {rows' : List Row} (hignores : c.ignoresDuplicates = true)
    (hexact : c.Exact rows)
    (htuples : (rows.map c.argsOn).eraseDups = (rows'.map c.argsOn).eraseDups)
    (h : c.valueOn rows = .ok v) : c.valueOn rows' = .ok v := by
  cases hd : c.distinct with
  | true =>
    rw [valueOn_eq, tuples, hd] at h ⊢
    rwa [← htuples]
  | false =>
    rw [AggregateCall.ignoresDuplicates, hd, Bool.false_or] at hignores
    obtain ⟨x, hfunc⟩ := AggregateFunction.exists_extreme hignores
    have hplain := hexact.plain hignores
    have hmem (t : List Value) : t ∈ c.tuples rows ↔ t ∈ c.tuples rows' := by
      rw [tuples, tuples, hd]
      show t ∈ rows.map c.argsOn ↔ t ∈ rows'.map c.argsOn
      rw [← List.mem_eraseDups, htuples, List.mem_eraseDups]
    have hflatten (u : Value) : u ∈ (c.tuples rows).flatten ↔ u ∈ (c.tuples rows').flatten := by
      simp only [List.mem_flatten, hmem]
    rw [valueOn_eq, hfunc] at h ⊢
    rw [fold_extreme_eq_ok_iff fun u hu => hplain u (mem_flatten_tuples.mp hu)] at h
    rw [fold_extreme_eq_ok_iff fun u hu => hplain u (mem_flatten_tuples.mp ((hflatten u).mpr hu))]
    exact ⟨fun t ht => h.1 t ((hmem t).mpr ht), h.2.congr hflatten⟩

end AggregateCall

end QueryPlan
