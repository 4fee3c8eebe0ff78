import QueryPlan.Proofs.GroupRows

/-!
# The order of the rows

Grouping goes through the rows one after the other, and everything in it depends on their order: in
which order groups come out, which of several equal arguments a distinct call takes in, and what an
accumulator holds on the way.  The rows that come out do not, up to their order
(`groupAndFold_perm`), as long as the calls are of the kinds in `AggregateCall.Commutes`.

Three things are left out there, for each of which the order does matter.  Sums of floats are
rounded at each step.  An average is such a sum whatever it is taken of.  And an extreme of values
of several kinds fails at the first value that cannot be compared with the one kept, while among
numbers that count as equal it keeps the first.
-/

set_option autoImplicit false

namespace QueryPlan

/-! ## Values of one kind -/

/-- The kinds of values among which an extreme can be sought. -/
inductive Kind where
  | word
  | text
  | truth

namespace Kind

/-- Whether a value is null or of a kind. -/
def takes : Kind → Value → Bool
  | _, .null => true
  | word, .num n => n.word?.isSome
  | text, .str _ => true
  | truth, .bool _ => true
  | _, _ => false

variable {kind : Kind} {v w : Value}

theorem isPlain_of_takes (h : kind.takes v = true) : v.isPlain = true := by
  cases v with
  | num n => cases kind <;> first | exact h | cases h
  | arr items => cases kind <;> cases h
  | obj members => cases kind <;> cases h
  | _ => rfl

theorem isSome_extremeOrder? (hv : kind.takes v = true) (hw : kind.takes w = true)
    (hv' : v ≠ .null) (hw' : w ≠ .null) : (v.extremeOrder? w).isSome := by
  obtain ⟨p, rfl⟩ | ⟨i, rfl, hi⟩ | ⟨s, rfl⟩ := Value.isPlain_cases (isPlain_of_takes hv) hv' <;>
    obtain ⟨q, rfl⟩ | ⟨j, rfl, hj⟩ | ⟨t, rfl⟩ := Value.isPlain_cases (isPlain_of_takes hw) hw' <;>
    first
      | rfl
      | rw [Value.extremeOrder?_int hi hj]; rfl
      | cases kind <;>
          first | exact absurd hv Bool.false_ne_true | exact absurd hw Bool.false_ne_true

/-- Values of one kind have a best. -/
theorem exists_best (x : Extreme) {vs : List Value} (h : ∀ v ∈ vs, kind.takes v = true) :
    ∃ v, x.Best vs v := by
  induction vs with
  | nil => exact ⟨.null, .none fun _ hw => nomatch hw⟩
  | cons a vs ih =>
    have ha := h a List.mem_cons_self
    replace h := fun v hv => h v (List.mem_cons_of_mem _ hv)
    obtain ⟨w, hw⟩ := ih h
    by_cases hnull : a = .null
    · exact ⟨w, hnull ▸ Extreme.Best.cons_null_iff.mpr hw⟩
    · exact hw.exists_cons (fun v hv => isPlain_of_takes (h v hv)) (isPlain_of_takes ha) hnull
        fun hw' => isSome_extremeOrder? (h w (hw.mem hw')) ha hw' hnull

end Kind

/-! ## One call -/

namespace AggregateCall

variable {c : AggregateCall} {rows rows' : List Row} {v : Value}

/-- A call with the right number of arguments for which the order of the rows does not matter: a
count, a sum of integers, or an extreme of values of one kind.  Nulls may stand among them. -/
inductive Commutes (c : AggregateCall) (rows : List Row) : Prop where
  | count (hfunc : c.func = .count) (harity : c.args.length ≤ 1)
  | sum (hfunc : c.func = .sum) (harity : c.args.length = 1)
    (hwords : ∀ v ∈ rows.flatMap c.argsOn, v.isWord = true)
  | extreme (x : Extreme) (kind : Kind) (hfunc : c.func = x.function) (harity : c.args.length = 1)
    (hkind : ∀ v ∈ rows.flatMap c.argsOn, kind.takes v = true)

/-- Fewer rows leave a call as it is. -/
theorem Commutes.subset (h : c.Commutes rows) (hsub : rows' ⊆ rows) : c.Commutes rows' := by
  have hargs {v : Value} (hv : v ∈ rows'.flatMap c.argsOn) : v ∈ rows.flatMap c.argsOn := by
    obtain ⟨row, hrow, hv⟩ := List.mem_flatMap.mp hv
    exact List.mem_flatMap.mpr ⟨row, hsub hrow, hv⟩
  cases h with
  | count hfunc harity => exact .count hfunc harity
  | sum hfunc harity hwords => exact .sum hfunc harity fun v hv => hwords v (hargs hv)
  | extreme x kind hfunc harity hkind =>
    exact .extreme x kind hfunc harity fun v hv => hkind v (hargs hv)

/-- Whether a call is distinct or not, it meets the same tuples in another order. -/
theorem perm_tuples (c : AggregateCall) (hperm : rows.Perm rows') :
    (c.tuples rows).Perm (c.tuples rows') := by
  rw [tuples, tuples]
  split
  · exact perm_eraseDups (hperm.map c.argsOn)
  · exact hperm.map c.argsOn

theorem length_of_mem_tuples {t : List Value} (h : t ∈ c.tuples rows) :
    t.length = c.args.length := by
  obtain ⟨row, -, rfl⟩ := mem_tuples.mp h
  exact List.length_map ..

/-- Such a call has a value. -/
theorem Commutes.exists_valueOn (h : c.Commutes rows) : ∃ v, c.valueOn rows = .ok v := by
  simp only [valueOn_eq]
  cases h with
  | count hfunc harity =>
    rw [hfunc]
    exact ⟨_, fold_count_eq_ok_iff.mpr
      ⟨fun t ht => (length_of_mem_tuples ht).trans_le harity, rfl⟩⟩
  | sum hfunc harity hwords =>
    rw [hfunc]
    exact ⟨_, (fold_sum_eq_ok_iff fun v hv => hwords v (mem_flatten_tuples.mp hv)).mpr
      ⟨fun t ht => (length_of_mem_tuples ht).trans harity, rfl⟩⟩
  | extreme x kind hfunc harity hkind =>
    replace hkind : ∀ v ∈ (c.tuples rows).flatten, kind.takes v = true := fun v hv =>
      hkind v (mem_flatten_tuples.mp hv)
    obtain ⟨v, hv⟩ := Kind.exists_best x hkind
    rw [hfunc]
    exact ⟨v, (fold_extreme_eq_ok_iff fun v hv => Kind.isPlain_of_takes (hkind v hv)).mpr
      ⟨fun t ht => (length_of_mem_tuples ht).trans harity, hv⟩⟩

/-- **A call that commutes has the same value in any order of the rows.** -/
theorem Commutes.valueOn_perm (h : c.Commutes rows) (hperm : rows.Perm rows')
    (hv : c.valueOn rows = .ok v) : c.valueOn rows' = .ok v := by
  have htuples := c.perm_tuples hperm
  have harities {n : Nat} (hlen : ∀ t ∈ c.tuples rows, t.length = n) :
      ∀ t ∈ c.tuples rows', t.length = n := fun t ht => hlen t (htuples.mem_iff.mpr ht)
  rw [valueOn_eq] at hv ⊢
  cases h with
  | count hfunc harity =>
    rw [hfunc, fold_count_eq_ok_iff] at hv ⊢
    exact ⟨fun t ht => hv.1 t (htuples.mem_iff.mpr ht), htuples.countP_eq present ▸ hv.2⟩
  | sum hfunc harity hwords =>
    replace hwords : ∀ v ∈ (c.tuples rows).flatten, v.isWord = true := fun v hv =>
      hwords v (mem_flatten_tuples.mp hv)
    have hints := htuples.flatten.filterMap Value.word?
    have htotal : totalOf ((c.tuples rows).flatten.filterMap Value.word?) =
        totalOf ((c.tuples rows').flatten.filterMap Value.word?) := by
      rw [totalOf, totalOf, hints.isEmpty_eq, hints.sum_eq]
    rw [hfunc, fold_sum_eq_ok_iff hwords] at hv
    rw [hfunc, fold_sum_eq_ok_iff fun v hv => hwords v (htuples.flatten.mem_iff.mpr hv)]
    exact ⟨harities hv.1, htotal ▸ hv.2⟩
  | extreme x kind hfunc harity hkind =>
    replace hkind : ∀ v ∈ (c.tuples rows).flatten, v.isPlain = true := fun v hv =>
      Kind.isPlain_of_takes (hkind v (mem_flatten_tuples.mp hv))
    rw [hfunc, fold_extreme_eq_ok_iff hkind] at hv
    rw [hfunc, fold_extreme_eq_ok_iff fun v hv => hkind v (htuples.flatten.mem_iff.mpr hv)]
    exact ⟨harities hv.1, hv.2.congr fun u => htuples.flatten.mem_iff⟩

end AggregateCall

/-! ## All groups -/

section Groups

variable {keys : List Expr} {rows rows' : List Row} (hperm : rows.Perm rows')
include hperm

theorem perm_groupKeys : (groupKeys keys rows).Perm (groupKeys keys rows') := by
  rw [groupKeys, groupKeys]
  split
  · exact .refl _
  · exact perm_eraseDups (hperm.map _)

theorem perm_rowsWith (key : List Value) :
    (rowsWith keys rows key).Perm (rowsWith keys rows' key) :=
  hperm.filter _

/-- What is the row of a group stays it. -/
theorem IsGroupRow.perm {ns : List NamedCall} {key : List Value} {out : Row}
    (hcalls : ∀ n ∈ ns, n.call.Commutes rows) (h : IsGroupRow keys ns rows key out) :
    IsGroupRow keys ns rows' key out := by
  obtain ⟨vs, hvs, hout⟩ := h
  refine ⟨vs, forall₂_imp_of_mem hvs fun n hn v _ hv => ?_, hout⟩
  have hcall : n.call.Commutes (rowsWith keys rows key) :=
    (hcalls n hn).subset (List.filter_subset_self _)
  exact hcall.valueOn_perm (perm_rowsWith hperm key) hv

/-- **Rows in another order make the same groups, in another order.**  Grouping succeeds on both. -/
theorem groupAndFold_perm {aggregates : List Expr} (hkeys : ∀ e ∈ keys, e.output?.isSome)
    (hcalls : ∀ e ∈ aggregates, e.output?.isSome ∧
      ∃ c, e.aggregateCall? = some c ∧ c.Commutes rows) :
    ∃ out out', groupAndFold rows keys aggregates = .ok out ∧
      groupAndFold rows' keys aggregates = .ok out' ∧ out.Perm out' := by
  have hnamed : ∀ e ∈ aggregates, (e.aggregateCall?.isSome && e.output?.isSome) = true := by
    intro e he
    obtain ⟨houtput, c, hc, -⟩ := hcalls e he
    rw [hc, houtput]
    rfl
  obtain ⟨ns, rfl⟩ := NamedCall.exists_of_isNamedAggregate hnamed
  have hcommutes : ∀ n ∈ ns, n.call.Commutes rows := by
    intro n hn
    obtain ⟨-, c, hc, hcommutes⟩ := hcalls n.expr (List.mem_map_of_mem hn)
    cases hc
    exact hcommutes
  have hgroups : ∃ out, List.Forall₂ (IsGroupRow keys ns rows) (groupKeys keys rows) out := by
    refine exists_forall₂ fun key _ => ?_
    have hvalue : ∀ n ∈ ns, ∃ v, n.call.valueOn (rowsWith keys rows key) = .ok v := fun n hn =>
      ((hcommutes n hn).subset (List.filter_subset_self _)).exists_valueOn
    obtain ⟨vs, hvs⟩ := exists_forall₂ hvalue
    exact ⟨_, vs, hvs, rfl⟩
  obtain ⟨out, hout⟩ := hgroups
  obtain ⟨out', hout', hrows⟩ := List.perm_comp_forall₂ (perm_groupKeys hperm).symm hout
  refine ⟨out, out', (groupAndFold_eq_ok_iff hkeys ns).mpr hout,
    (groupAndFold_eq_ok_iff hkeys ns).mpr ?_, hrows.symm⟩
  exact hout'.imp fun key row h => h.perm hperm hcommutes

end Groups

/-! ### What two people spent, read backwards -/

namespace Spending

def least : Column := .plain 5 "least"

/-- Somebody spent an amount that is not known. -/
def unknownItem (name : String) : Row := .ofCells [("who#1", .str name), ("amount#2", .null)]

def withUnknown : List Row := unknownItem "bob" :: entries

def withLeast : List Expr := .named (.aggregate .min [.col amount] false) least :: aggregates

def summaryWithLeast (name : String) (cents count least : Int) : Row :=
  .ofCells [("who#1", .str name), ("least#5", .int least), ("total#3", .int cents),
    ("items#4", .int count)]

theorem groupAndFold_perm_spending :
    groupAndFold withUnknown keys withLeast =
        .ok [summaryWithLeast "bob" 5 2 5, summaryWithLeast "ann" 7 3 3] ∧
      groupAndFold withUnknown.reverse keys withLeast =
        .ok [summaryWithLeast "ann" 7 3 3, summaryWithLeast "bob" 5 2 5] ∧
      [summaryWithLeast "bob" 5 2 5, summaryWithLeast "ann" 7 3 3].Perm
        [summaryWithLeast "ann" 7 3 3, summaryWithLeast "bob" 5 2 5] := by
  have hcalls : ∀ e ∈ withLeast, e.output?.isSome ∧
      ∃ c, e.aggregateCall? = some c ∧ c.Commutes withUnknown := by
    simp only [withLeast, aggregates, List.forall_mem_cons]
    exact ⟨⟨rfl, _, rfl, .extreme .least .word rfl rfl (by decide)⟩,
      ⟨rfl, _, rfl, .sum rfl rfl (by decide)⟩, ⟨rfl, _, rfl, .count rfl (by decide)⟩, by simp⟩
  have hkeys : ∀ e ∈ keys, e.output?.isSome := by decide
  obtain ⟨out, out', hout, hout', hperm⟩ :=
    groupAndFold_perm (List.reverse_perm withUnknown).symm hkeys hcalls
  obtain rfl := Except.ok.inj hout
  obtain rfl := Except.ok.inj hout'
  exact ⟨hout, hout', hperm⟩

end Spending

end QueryPlan
