import QueryPlan.Proofs.Pipeline

/-!
# What a source is handed of the filters

A source is offered predicates one by one, and takes of each what it can.  Its part and what is left
of the predicates keep the rows that the predicates keep, and its part stays within what it offered:
a filter handed over names stored columns only, and none on which the source takes no filters
(`Source.handOverAll_faithful`).  So a source never refuses a request for the filters in it.

That a failing scan fails for another cause needs a look at all that a scan does after the filters
are accepted; `FailsOnly` says of a computation which causes it can fail for.
-/

set_option autoImplicit false

namespace QueryPlan

theorem Truth.accepts_eq_true_iff {t : Truth} : t.accepts = true ↔ t = .holds := by
  cases t <;> simp [Truth.accepts]

/-! ## Causes of failure -/

/-- Every failure of a computation satisfies `P`. -/
def FailsOnly {ε α : Type} (P : ε → Prop) (x : Except ε α) : Prop := ∀ e, x = .error e → P e

namespace FailsOnly

variable {ε α β : Type} {P : ε → Prop}

theorem ok (a : α) : FailsOnly P (.ok a : Except ε α) := by
  intro e he
  cases he

theorem error {e : ε} (h : P e) : FailsOnly P (.error e : Except ε α) := by
  intro e' he
  cases he
  exact h

theorem bind {x : Except ε α} {f : α → Except ε β} (hx : FailsOnly P x)
    (hf : ∀ a, FailsOnly P (f a)) : FailsOnly P (x >>= f) := by
  intro e he
  cases x with
  | error e' =>
    cases he
    exact hx e rfl
  | ok a => exact hf a e he

theorem mapM {f : α → Except ε β} (hf : ∀ a, FailsOnly P (f a)) (l : List α) :
    FailsOnly P (l.mapM f) := by
  induction l with
  | nil => exact ok []
  | cons a l ih =>
    rw [List.mapM_cons]
    exact (hf a).bind fun b => ih.bind fun bs => ok (b :: bs)

theorem foldlM {f : β → α → Except ε β} (hf : ∀ b a, FailsOnly P (f b a)) (l : List α) (b : β) :
    FailsOnly P (l.foldlM f b) := by
  induction l generalizing b with
  | nil => exact ok b
  | cons a l ih =>
    rw [List.foldlM_cons]
    exact (hf b a).bind ih

end FailsOnly

/-- A cause that lies outside of the source. -/
def PlanError.Outside (e : PlanError) : Prop := e.kind ≠ .source

section Grouping

open FailsOnly

theorem Accumulator.failsOnly_updateOne (a : Accumulator) (v : Value) :
    FailsOnly PlanError.Outside (a.updateOne v) := by
  have hbetter (x : Extreme) (kept : Value) : FailsOnly PlanError.Outside (x.better kept v) := by
    rw [Extreme.better]
    split
    · exact ok _
    · exact error (by rintro ⟨⟩)
  have hnumeric (f : AggregateFunction) : (PlanError.notNumeric f v).Outside := by rintro ⟨⟩
  unfold updateOne
  split
  · exact ok _
  · split
    · exact ok _
    · exact ok _
    · exact error (hnumeric _)
    · exact ok _
    · exact error (hnumeric _)
    · exact ok _
    · exact (hbetter _ _).bind fun _ => ok _

theorem Accumulator.failsOnly_update (a : Accumulator) (args : List Value) :
    FailsOnly PlanError.Outside (a.update args) := by
  unfold update
  split
  · exact ok _
  · exact a.failsOnly_updateOne _
  · exact error (by rintro ⟨⟩)

theorem CallState.failsOnly_feed (s : CallState) (row : Row) :
    FailsOnly PlanError.Outside (s.feed row) := by
  have hupdate := s.state.failsOnly_update (s.call.args.map (Expr.eval row))
  simp only [feed]
  split
  · split
    · exact ok _
    · exact hupdate.bind fun _ => ok _
  · exact hupdate.bind fun _ => ok _

theorem Group.failsOnly_feed (g : Group) (row : Row) : FailsOnly PlanError.Outside (g.feed row) :=
  (mapM (fun s => s.failsOnly_feed row) g.calls).bind fun _ => ok _

theorem failsOnly_feedGroups (calls : List AggregateCall) (key : List Value) (row : Row)
    (groups : List Group) : FailsOnly PlanError.Outside (feedGroups calls key row groups) := by
  induction groups with
  | nil => exact (Group.failsOnly_feed _ row).bind fun _ => ok _
  | cons g rest ih =>
    rw [feedGroups]
    split
    · exact (g.failsOnly_feed row).bind fun _ => ok _
    · exact ih.bind fun _ => ok _

/-- Grouping and folding never blames the source. -/
theorem failsOnly_groupAndFold (rows : List Row) (keys aggregates : List Expr) :
    FailsOnly PlanError.Outside (groupAndFold rows keys aggregates) := by
  have hcall (e : Expr) : FailsOnly PlanError.Outside e.aggregateCall := by
    rw [Expr.aggregateCall]
    split
    · exact ok _
    · exact error (by rintro ⟨⟩)
  have hkey (e : Expr) : FailsOnly PlanError.Outside e.outputKey := by
    rw [Expr.outputKey]
    split
    · exact ok _
    · exact error (by rintro ⟨⟩)
  refine (mapM hcall _).bind fun calls => (mapM hkey _).bind fun _ => (mapM hkey _).bind fun _ => ?_
  refine bind ?_ fun _ => ok _
  exact foldlM (fun groups row => failsOnly_feedGroups calls _ row groups) rows []

end Grouping

namespace Source

variable {s : Source}

/-- A scan blames the source for a column in a filter that the source does not have, and for nothing
else. -/
theorem failsOnly_scan {request : Request} (h : s.unknownColumn? request.filters = none) :
    FailsOnly PlanError.Outside (s.scan request) := by
  rw [scan, h]
  simp only []
  split
  · exact failsOnly_groupAndFold _ _ _
  · exact FailsOnly.ok _

/-! ## Within what was offered -/

/-- A source takes no filters on a column, whatever the qualifiers under which it is read. -/
def Refuses (s : Source) (c : Column) : Prop :=
  ∀ d : Column, d.id = c.id → d.name = c.name → s.takesFiltersOn d = false

/-- What a predicate reads of a source's columns, it reads under their declared names. -/
def ReadsAsDeclared (s : Source) (p : Expr) : Prop :=
  ∀ c ∈ p.columns, ∀ d ∈ s.columns, d.id = c.id → d.name = c.name

instance (s : Source) (p : Expr) : Decidable (s.ReadsAsDeclared p) :=
  inferInstanceAs (Decidable (∀ c ∈ p.columns, ∀ d ∈ s.columns, d.id = c.id → d.name = c.name))

/-- A stored column is declared. -/
theorem exists_declared_of_get? {id : ColumnId} {stored : Column}
    (h : s.storedColumns.get? id = some stored) :
    ∃ d ∈ s.declared, d.1.id = id ∧ d.2 = stored.name := by
  obtain ⟨d, hd, heq⟩ := List.mem_map.mp (IdMap.mem_of_get?_ofList h)
  obtain ⟨rfl, rfl⟩ := Prod.mk.inj heq
  exact ⟨d, hd, rfl, rfl⟩

theorem ReadsAsDeclared.among {p : Expr} (hp : s.ReadsAsDeclared p) {c : Column}
    (hc : c ∈ p.columns) (hstored : s.storedColumns.contains c.id) : c.Among s.columns := by
  obtain ⟨stored, hget⟩ := Option.isSome_iff_exists.mp hstored
  obtain ⟨d, hd, hid, -⟩ := exists_declared_of_get? hget
  have hmem : d.1 ∈ s.columns := List.mem_map_of_mem hd
  exact ⟨d.1, hmem, hid, hp c hc d.1 hmem hid⟩

/-- No filter is handed over on a column that the source refuses. -/
theorem not_mem_columns_of_refuses (horiginals : (s.declared.map (·.2)).Nodup) {ps : List Expr}
    (hps : ∀ p ∈ ps, s.ReadsAsDeclared p) {f : Filter} (hf : f ∈ (s.handOverAll ps).pushed)
    {d : Column × String} (hd : d ∈ s.declared) (hrefuses : s.Refuses d.1) : d.2 ∉ f.columns := by
  intro hmem
  rw [Filter.columns, List.mem_eraseDups] at hmem
  obtain ⟨p, hp, haccepts, c, hc, stored, hstored, hname⟩ := exists_reference_of_mem_pushed hf hmem
  -- the stored column is the one that is refused, since it has its original name
  obtain ⟨d', hd', hid, hname'⟩ := exists_declared_of_get? hstored
  obtain rfl : d' = d := List.inj_on_of_nodup_map horiginals hd' hd (hname'.trans hname)
  -- the source was asked about the first reference to it
  obtain ⟨r, hr, hrc⟩ := Column.exists_mem_distinct hc
  have htakes : s.takesFiltersOn r := List.all_eq_true.mp haccepts r hr
  have hrid : d'.1.id = r.id := hid.trans hrc.symm
  have hrname := hps p hp r (Column.mem_of_mem_distinct hr) d'.1 (List.mem_map_of_mem hd) hrid
  rw [hrefuses r hrid.symm hrname.symm] at htakes
  cases htakes

/-- **Filters handed to a source lose no row and admit none, and ask nothing of it that it does not
offer.** -/
theorem handOverAll_faithful {ps : List Expr} (hps : ∀ p ∈ ps, s.ReadsAsDeclared p) :
    (∀ row, (∀ p ∈ ps, p.truth (s.engineRow row) = .holds) ↔
      (∀ f ∈ (s.handOverAll ps).pushed, f.truth row = .holds) ∧
        ∀ p ∈ (s.handOverAll ps).remaining, p.truth (s.engineRow row) = .holds) ∧
    (∀ f ∈ (s.handOverAll ps).pushed, (∀ name ∈ f.columns, s.stores name) ∧
      ((s.declared.map (·.2)).Nodup → ∀ d ∈ s.declared, s.Refuses d.1 → d.2 ∉ f.columns)) ∧
    ∀ request : Request, (∀ f ∈ request.filters, f ∈ (s.handOverAll ps).pushed) →
      ∀ e, s.scan request = .error e → e.kind ≠ .source := by
  refine ⟨fun row => ?_, fun f hf => ⟨fun name => stores_of_mem_pushed hf, ?_⟩, ?_⟩
  · have h := accepts_handOverAll (fun p hp c hc => (hps p hp).among hc) row
    rw [Bool.eq_iff_iff, Bool.and_eq_true] at h
    simpa only [List.all_eq_true, Truth.accepts_eq_true_iff] using h
  · intro horiginals d hd
    exact not_mem_columns_of_refuses horiginals hps hf hd
  · intro request hrequest
    refine failsOnly_scan (unknownColumn?_eq_none fun f hf name => ?_)
    exact stores_of_mem_pushed (hrequest f hf)

/-- The source of the ledger, which takes no filter on an amount. -/
def ledger : Source :=
  (Pipeline.Ledger.plan (fun c => c.name != "amount") fun _ => true).source

/-- A question that is asked in part, one that is asked, one about an amount, and one about a column
that the ledger does not have. -/
def ledgerQuestions : List Expr :=
  [.or [.and [.compare (.col Pipeline.Ledger.region) .eq (.lit (.str "east")),
      .like (.col Pipeline.Ledger.region) (.lit (.str "e%")) false],
      .isNull (.col Pipeline.Ledger.region) false],
    .not (.compare (.lit (.str "west")) .eq (.col Pipeline.Ledger.region)),
    .compare (.col Pipeline.Ledger.amount) .gt (.lit (.int 1)),
    .isNull (.col (.plain 9 "note")) false]

theorem handOverAll_faithful_ledger :
    ((∀ f ∈ (ledger.handOverAll ledgerQuestions).pushed,
        f.truth (Pipeline.Ledger.entry "east" 3) = .holds) ∧
      ∀ p ∈ (ledger.handOverAll ledgerQuestions).remaining,
        p.truth (ledger.engineRow (Pipeline.Ledger.entry "east" 3)) = .holds) ∧
    ledger.Refuses Pipeline.Ledger.amount ∧
    (∀ f ∈ (ledger.handOverAll ledgerQuestions).pushed, "AMOUNT" ∉ f.columns) ∧
    (ledger.handOverAll ledgerQuestions).pushed =
      [.or (.test "REGION" .equals (.str "east")) (.isNull "REGION"),
        .not (.test "REGION" .equals (.str "west"))] := by
  have hrefuses : ledger.Refuses Pipeline.Ledger.amount := by
    intro d _ hname
    show (d.name != "amount") = false
    rw [hname]
    rfl
  have hreads : ∀ p ∈ ledgerQuestions, ledger.ReadsAsDeclared p := by decide
  have h := handOverAll_faithful hreads
  refine ⟨(h.1 _).mp (by decide), hrefuses, fun f hf => ?_, rfl⟩
  exact (h.2.1 f hf).2 (by decide) _ (List.mem_cons_of_mem _ List.mem_cons_self) hrefuses

end Source

end QueryPlan
