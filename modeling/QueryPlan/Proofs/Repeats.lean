import QueryPlan.Proofs.FloatRank
import QueryPlan.Proofs.Folding
import QueryPlan.Proofs.IntegerOrder

/-!
# Rows that repeat arguments

A call that ignores duplicates gives the same without the rows on which its arguments are those of
an earlier row (`AggregateCall.groupAndFold_firstRows`).  For a distinct call that is how it is
defined.  For an extreme it has to be shown that a value met before never takes the place of the one
kept, whatever has been met in between.

Being kept against another value is not transitive: between two integers that share a nearest float
there may stand that float, which counts as equal to both.  What carries the proof is that the value
kept withstands all values met so far (`Extreme.Withstands`), and that a value which takes its place
is strictly better, as an integer or as a float; then it withstands them too
(`Withstands.of_improves`).
-/

set_option autoImplicit false

namespace QueryPlan

namespace Extreme

/-! ## Values that withstand others -/

variable {x : Extreme}

/-- The value kept does not give way to a candidate, be it that the two cannot be compared. -/
def Withstands (x : Extreme) (kept candidate : Value) : Prop :=
  ∀ o, kept.extremeOrder? candidate = some o → x.improves o = false

theorem withstands_iff {kept candidate : Value} {o : Ordering}
    (h : kept.extremeOrder? candidate = some o) :
    x.Withstands kept candidate ↔ x.improves o = false := by
  rw [Withstands, h]
  simp

/-- What takes the place of a value is kept against all that the value was kept against. -/
theorem improves_compare_strict {α : Type} [Ord α] [Std.TransOrd α] {a b c : α}
    (hab : x.improves (compare a b) = true) (hac : x.improves (compare a c) = false) :
    x.improves (compare b c) = false :=
  improves_compare_trans x (improves_compare_total x hab) hac

section Numbers

variable {a b c : Number}

theorem extremeOrder?_words {i j : Int} (ha : a.word? = some i) (hb : b.word? = some j) :
    (Value.num a).extremeOrder? (.num b) = some (compare i j) := by
  rw [Value.extremeOrder?, ha, hb]

theorem extremeOrder?_ranks (h : a.word? = none ∨ b.word? = none) :
    (Value.num a).extremeOrder? (.num b) = some (compare a.rank b.rank) := by
  rw [Value.extremeOrder?, a.order_eq_compare_rank b]
  rcases h with h | h <;> rw [h]
  cases a.word? <;> rfl

/-- Rounding does not turn the order of words round. -/
theorem improves_rank {i j : Int} (ha : a.word? = some i) (hb : b.word? = some j)
    (h : x.improves (compare i j) = false) : x.improves (compare a.rank b.rank) = false := by
  obtain ⟨rfl, hi⟩ := Number.eq_of_word? ha
  obtain ⟨rfl, hj⟩ := Number.eq_of_word? hb
  rw [← Number.order_eq_compare_rank, Number.order_int hi hj]
  cases x with
  | least =>
    have hle : i ≤ j := by simpa [improves, compare_gt_iff_gt] using h
    simpa [improves, compare_gt_iff_gt] using nearest_mono hle
  | greatest =>
    have hle : j ≤ i := by simpa [improves, compare_lt_iff_lt] using h
    simpa [improves, compare_lt_iff_lt] using nearest_mono hle

theorem improves_rank_of_withstands (h : x.Withstands (.num a) (.num b)) :
    x.improves (compare a.rank b.rank) = false := by
  cases ha : a.word? with
  | none => exact h _ (extremeOrder?_ranks (.inl ha))
  | some i =>
    cases hb : b.word? with
    | none => exact h _ (extremeOrder?_ranks (.inr hb))
    | some j => exact improves_rank ha hb (h _ (extremeOrder?_words ha hb))

/-- The better of two numbers withstands the other. -/
theorem withstands_num_of_improves {o : Ordering}
    (h : (Value.num a).extremeOrder? (.num b) = some o) (ho : x.improves o = true) :
    x.Withstands (.num b) (.num a) := by
  cases ha : a.word? with
  | none =>
    obtain rfl := Option.some.inj ((extremeOrder?_ranks (.inl ha)).symm.trans h)
    exact (withstands_iff (extremeOrder?_ranks (.inr ha))).mpr (improves_compare_total x ho)
  | some i =>
    cases hb : b.word? with
    | none =>
      obtain rfl := Option.some.inj ((extremeOrder?_ranks (.inr hb)).symm.trans h)
      exact (withstands_iff (extremeOrder?_ranks (.inl hb))).mpr (improves_compare_total x ho)
    | some j =>
      obtain rfl := Option.some.inj ((extremeOrder?_words ha hb).symm.trans h)
      exact (withstands_iff (extremeOrder?_words hb ha)).mpr (improves_compare_total x ho)

/-- The better of two numbers withstands what the other did.  Of the three, two may be words and
compare exactly while a float stands between them. -/
theorem withstands_num {o : Ordering} (h : (Value.num a).extremeOrder? (.num b) = some o)
    (ho : x.improves o = true) (hac : x.Withstands (.num a) (.num c)) :
    x.Withstands (.num b) (.num c) := by
  have hba := improves_rank_of_withstands (withstands_num_of_improves h ho)
  have hbc := improves_compare_trans x hba (improves_rank_of_withstands hac)
  cases hb : b.word? with
  | none => exact (withstands_iff (extremeOrder?_ranks (.inl hb))).mpr hbc
  | some j =>
    cases hc : c.word? with
    | none => exact (withstands_iff (extremeOrder?_ranks (.inr hc))).mpr hbc
    | some k =>
      rw [withstands_iff (extremeOrder?_words hb hc)]
      cases ha : a.word? with
      | some i =>
        obtain rfl := Option.some.inj ((extremeOrder?_words ha hb).symm.trans h)
        exact improves_compare_strict ho (hac _ (extremeOrder?_words ha hc))
      | none =>
        -- were the word `k` better than `j`, the float would withstand `j` as it does `k`
        obtain rfl := Option.some.inj ((extremeOrder?_ranks (.inl ha)).symm.trans h)
        by_contra hjk
        rw [Bool.not_eq_false] at hjk
        have hcb := improves_rank hc hb (improves_compare_total x hjk)
        have hab := improves_compare_trans x (improves_rank_of_withstands hac) hcb
        exact Bool.false_ne_true (hab.symm.trans ho)

end Numbers

/-- A value withstands itself. -/
theorem Withstands.refl (x : Extreme) (v : Value) : x.Withstands v v := by
  cases v with
  | bool b => exact (withstands_iff rfl).mpr (improves_compare_self x)
  | str s => exact (withstands_iff rfl).mpr (improves_compare_self x)
  | num n =>
    cases hn : n.word? with
    | none =>
      exact (withstands_iff (extremeOrder?_ranks (.inl hn))).mpr (improves_compare_self x)
    | some i => exact (withstands_iff (extremeOrder?_words hn hn)).mpr (improves_compare_self x)
  | _ => exact nofun

/-- **What takes the place of a value withstands all that the value withstood.** -/
theorem Withstands.of_improves {a b c : Value} {o : Ordering} (h : a.extremeOrder? b = some o)
    (ho : x.improves o = true) (hac : x.Withstands a c) : x.Withstands b c := by
  cases a with
  | bool p =>
    cases b with
    | bool q =>
      obtain rfl := Option.some.inj h
      cases c with
      | bool r => exact (withstands_iff rfl).mpr (improves_compare_strict ho (hac _ rfl))
      | _ => exact nofun
    | _ => cases h
  | str s =>
    cases b with
    | str t =>
      obtain rfl := Option.some.inj h
      cases c with
      | str u => exact (withstands_iff rfl).mpr (improves_compare_strict ho (hac _ rfl))
      | _ => exact nofun
    | _ => cases h
  | num m =>
    cases b with
    | num n =>
      cases c with
      | num k => exact withstands_num h ho hac
      | _ => exact nofun
    | _ => cases h
  | _ => cases b <;> cases h

/-! ## Going through values with repetitions -/

/-- What one more value does to an extreme. -/
theorem updateOne_cases {kept : Option Value} {v : Value} {s : Accumulator}
    (h : (Accumulator.extreme x kept).updateOne v = .ok s) :
    (v = .null ∧ s = .extreme x kept) ∨ (kept = none ∧ s = .extreme x (some v)) ∨
      ∃ k o, kept = some k ∧ k.extremeOrder? v = some o ∧
        s = .extreme x (some (if x.improves o then v else k)) := by
  by_cases hnull : v = .null
  · rw [hnull, Accumulator.updateOne_null] at h
    exact .inl ⟨hnull, (Except.ok.inj h).symm⟩
  · rw [← Value.isNull_iff] at hnull
    cases kept with
    | none =>
      rw [Accumulator.updateOne, if_neg hnull] at h
      exact .inr (.inl ⟨rfl, (Except.ok.inj h).symm⟩)
    | some k =>
      rw [Accumulator.updateOne, if_neg hnull] at h
      obtain ⟨w, hw, h⟩ := bind_eq_ok_iff.mp h
      cases ho : k.extremeOrder? v with
      | none => rw [better, ho] at hw; cases hw
      | some o =>
        rw [better, ho] at hw
        obtain rfl := Except.ok.inj hw
        exact .inr (.inr ⟨k, o, rfl, ho, (Except.ok.inj h).symm⟩)

/-- The value kept withstands those of a list, apart from nulls. -/
def KeptOver (x : Extreme) (kept : Option Value) (vs : List Value) : Prop :=
  ∀ w ∈ vs, w ≠ .null → ∃ k, kept = some k ∧ x.Withstands k w

namespace KeptOver

variable {kept : Option Value} {vs : List Value} {v : Value} {s : Accumulator}

theorem step (hkept : x.KeptOver kept vs) (h : (Accumulator.extreme x kept).updateOne v = .ok s) :
    ∃ kept', s = .extreme x kept' ∧ x.KeptOver kept' (vs ++ [v]) := by
  rcases updateOne_cases h with ⟨rfl, rfl⟩ | ⟨rfl, rfl⟩ | ⟨k, o, rfl, ho, rfl⟩
  · refine ⟨kept, rfl, List.forall_mem_append.mpr ⟨hkept, ?_⟩⟩
    exact List.forall_mem_singleton.mpr fun hnull => absurd rfl hnull
  · refine ⟨some v, rfl, List.forall_mem_append.mpr ⟨fun w hw hnull => ?_, ?_⟩⟩
    · obtain ⟨k, hk, -⟩ := hkept w hw hnull
      cases hk
    · exact List.forall_mem_singleton.mpr fun _ => ⟨v, rfl, .refl x v⟩
  · refine ⟨_, rfl, List.forall_mem_append.mpr ⟨fun w hw hnull => ?_, ?_⟩⟩
    · obtain ⟨_, hk, hw⟩ := hkept w hw hnull
      obtain rfl := Option.some.inj hk
      refine ⟨_, rfl, ?_⟩
      split
      · next himproves => exact .of_improves ho himproves hw
      · exact hw
    · refine List.forall_mem_singleton.mpr fun _ => ⟨_, rfl, ?_⟩
      split
      · exact .refl x v
      · next himproves => exact (withstands_iff ho).mpr (by simpa using himproves)

/-- A value met before changes nothing. -/
theorem updateOne_eq (hkept : x.KeptOver kept vs) (hv : v ∈ vs)
    (h : (Accumulator.extreme x kept).updateOne v = .ok s) : s = .extreme x kept := by
  by_cases hnull : v = .null
  · rw [hnull, Accumulator.updateOne_null] at h
    exact (Except.ok.inj h).symm
  · obtain ⟨k, rfl, hwithstands⟩ := hkept v hv hnull
    rcases updateOne_cases h with ⟨-, rfl⟩ | ⟨hnone, -⟩ | ⟨_, o, hk, ho, rfl⟩
    · rfl
    · cases hnone
    · obtain rfl := Option.some.inj hk
      rw [hwithstands o ho]
      rfl

end KeptOver

/-- **What is kept after some values withstands them all.** -/
theorem keptOver_of_foldlM {vs : List Value} {s : Accumulator}
    (h : vs.foldlM Accumulator.updateOne (.extreme x none) = .ok s) :
    ∃ kept, s = .extreme x kept ∧ x.KeptOver kept vs := by
  induction vs using List.reverseRecOn generalizing s with
  | nil => exact ⟨none, (Except.ok.inj h).symm, nofun⟩
  | append_singleton vs v ih =>
    simp only [List.foldlM_append, List.foldlM_cons, List.foldlM_nil, bind_pure,
      bind_eq_ok_iff] at h
    obtain ⟨t, ht, h⟩ := h
    obtain ⟨kept, rfl, hkept⟩ := ih ht
    exact hkept.step h

/-- An argument tuple met before changes nothing. -/
theorem update_eq {tuples : List (List Value)} {t : List Value} (ht : t ∈ tuples)
    {s s' : Accumulator} (h : tuples.foldlM Accumulator.update (.extreme x none) = .ok s)
    (h' : s.update t = .ok s') : s' = s := by
  have hcount : (Accumulator.extreme x none).function ≠ .count := by
    cases x <;> simp [Accumulator.function, Extreme.function]
  obtain ⟨hlength, hvalues⟩ := (Accumulator.foldlM_update_iff hcount).mp h
  obtain ⟨kept, rfl, hkept⟩ := keptOver_of_foldlM hvalues
  obtain ⟨v, rfl⟩ := List.length_eq_one_iff.mp (hlength t ht)
  exact hkept.updateOne_eq (List.mem_flatten.mpr ⟨[v], ht, List.mem_singleton_self v⟩) h'

end Extreme

namespace AggregateCall

/-! ## First rows -/

/-- The rows without those on which the arguments of a call are those of an earlier row. -/
def firstRows (c : AggregateCall) (rows : List Row) : List Row :=
  rows.eraseDupsBy fun r s => c.argsOn r == c.argsOn s

theorem map_argsOn_firstRows (c : AggregateCall) (rows : List Row) :
    (c.firstRows rows).map c.argsOn = (rows.map c.argsOn).eraseDups :=
  map_eraseDupsBy c.argsOn rows

theorem stateOn_firstRows {c : AggregateCall} (hc : c.ignoresDuplicates = true) {rows : List Row}
    {s : Accumulator} (h : c.stateOn rows = .ok s) : c.stateOn (c.firstRows rows) = .ok s := by
  rw [stateOn, tuples, map_argsOn_firstRows]
  rw [stateOn, tuples] at h
  cases hdistinct : c.distinct with
  | true =>
    rw [hdistinct, if_pos rfl] at h
    rwa [if_pos rfl, eraseDups_of_nodup (nodup_eraseDups _)]
  | false =>
    rw [ignoresDuplicates, hdistinct, Bool.false_or] at hc
    obtain ⟨x, hx⟩ := AggregateFunction.exists_extreme hc
    have hfresh : Accumulator.fresh c.func = .extreme x none := by
      rw [hx]
      cases x <;> rfl
    rw [hdistinct, if_neg Bool.false_ne_true, hfresh] at h
    rw [if_neg Bool.false_ne_true, hfresh]
    exact foldlM_eraseDups (fun _ _ _ _ ht h h' => Extreme.update_eq ht h h') h

end AggregateCall

/-- Without keys, one call gives one row with its value over all rows. -/
theorem groupAndFold_one_iff {n : NamedCall} {rows out : List Row} :
    groupAndFold rows [] [n.expr] = .ok out ↔
      ∃ v, n.call.valueOn rows = .ok v ∧ out = [groupRow [] [n] [] [v]] := by
  have hrows : rowsWith [] rows [] = rows := List.filter_eq_self.mpr fun _ _ => by simp [keyOn]
  have hrow (row : Row) : IsGroupRow [] [n] rows [] row ↔
      ∃ v, n.call.valueOn rows = .ok v ∧ row = groupRow [] [n] [] [v] := by
    simp [IsGroupRow, hrows, List.forall₂_cons_left_iff]
  have hiff : groupAndFold rows [] ([n].map NamedCall.expr) = .ok out ↔ _ :=
    groupAndFold_eq_ok_iff (by simp) [n]
  simpa [groupKeys, List.forall₂_cons_left_iff, hrow] using hiff

namespace AggregateCall

/-- **Deleting rows that repeat arguments changes nothing** for a call that ignores duplicates:
where aggregating without keys succeeds, it succeeds on the rest and gives the same. -/
theorem groupAndFold_firstRows {c : AggregateCall} (hc : c.ignoresDuplicates = true)
    (output : Column) {rows out : List Row}
    (h : groupAndFold rows [] [.named c.expr output] = .ok out) :
    groupAndFold (c.firstRows rows) [] [.named c.expr output] = .ok out := by
  obtain ⟨v, hv, hout⟩ := (groupAndFold_one_iff (n := ⟨c, output⟩)).mp h
  obtain ⟨s, hs, hresult⟩ := map_eq_ok_iff.mp hv
  refine (groupAndFold_one_iff (n := ⟨c, output⟩)).mpr ⟨v, ?_, hout⟩
  exact map_eq_ok_iff.mpr ⟨s, stateOn_firstRows hc hs, hresult⟩

/-- The least value of a column. -/
def leastValue : AggregateCall := ⟨.min, [.col (.plain 1 "k")], false⟩

/-- Two integers around a float that counts as equal to both, with two repetitions. -/
def neighbours : List Row :=
  [.int (2 ^ 53 + 1), .num (.float (Float.ofBits 0x4340000000000000) rfl), .int (2 ^ 53),
    .int (2 ^ 53 + 1), .num (.float (Float.ofBits 0x4340000000000000) rfl)].map fun v =>
      .ofCells [("k#1", v)]

theorem groupAndFold_firstRows_neighbours :
    groupAndFold neighbours [] [.named leastValue.expr (.plain 2 "least")] =
        .ok [.ofCells [("least#2", .int (2 ^ 53))]] ∧
      groupAndFold (leastValue.firstRows neighbours) []
          [.named leastValue.expr (.plain 2 "least")] =
        .ok [.ofCells [("least#2", .int (2 ^ 53))]] := by
  have hrun : groupAndFold neighbours [] [.named leastValue.expr (.plain 2 "least")] =
      .ok [.ofCells [("least#2", .int (2 ^ 53))]] := rfl
  exact ⟨hrun, groupAndFold_firstRows (c := leastValue) rfl (.plain 2 "least") hrun⟩

end AggregateCall

end QueryPlan
