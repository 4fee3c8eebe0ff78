import QueryPlan.Proofs.Stages

/-!
# Everything done by the source

When the source computes every aggregate, it groups as the plan does, and its rows already are the
result (`run_groupedScan`, `groupAndFold_inlined`).  The stage that follows here groups these rows
once more.  Each of them is a group of its own then, and every call over it gives back the value
that is there (`groupAndFold_again`), floats included: nothing is added up a second time.
-/

set_option autoImplicit false

namespace QueryPlan

/-! ## Grouping once more -/

section Again

variable {columns : List Column} {ns : List NamedCall} {rows out : List Row}

/-- A row of a group has the group's key. -/
theorem keyOn_of_isGroupRow (h : Legible (columns.map .col) ns) {key : List Value}
    (hkey : key ∈ groupKeys (columns.map .col) rows) {row : Row}
    (hrow : IsGroupRow (columns.map .col) ns rows key row) :
    keyOn (columns.map .col) row = key := by
  obtain ⟨r, rfl⟩ := exists_keyOn hkey
  rw [keyOn, keyOn]
  refine List.map_congr_left fun e he => ?_
  obtain ⟨c, -, rfl⟩ := List.mem_map.mp he
  exact h.cell_key hrow he rfl

theorem map_keyOn_of_groups (h : Legible (columns.map .col) ns)
    (hout : List.Forall₂ (IsGroupRow (columns.map .col) ns rows)
      (groupKeys (columns.map .col) rows) out) :
    out.map (keyOn (columns.map .col)) = groupKeys (columns.map .col) rows := by
  rw [← map_eq_map_of_forall₂ (f := id) hout fun key hkey row _ hrow =>
    (keyOn_of_isGroupRow h hkey hrow).symm, List.map_id]

/-- **Rows of groups, grouped once more, stay as they are.** -/
theorem groupAndFold_again (h : Legible (columns.map .col) ns) (hrows : rows.length < 2 ^ 63)
    (hrun : groupAndFold rows (columns.map .col) (ns.map NamedCall.expr) = .ok out) :
    groupAndFold out (columns.map .col)
      ((ns.map fun n => n.folded n.call.finisher).map NamedCall.expr) = .ok out := by
  have hout := (groupAndFold_eq_ok_iff h.named ns).mp hrun
  have hkeys := map_keyOn_of_groups h hout
  have hgroups : groupKeys (columns.map .col) out = groupKeys (columns.map .col) rows := by
    cases columns with
    | nil => rfl
    | cons c columns =>
      show (out.map (keyOn _)).eraseDups = _
      rw [hkeys, eraseDups_of_nodup (nodup_groupKeys _ rows)]
  have hfinal : Legible (columns.map .col) (ns.map fun n => n.folded n.call.finisher) :=
    h.of_perm (.of_eq (List.map_map ..))
  rw [groupAndFold_eq_ok_iff h.named, hgroups]
  refine forall₂_imp_of_mem hout fun key hkey row hrow hgroup => ?_
  have hrowKey := keyOn_of_isGroupRow h hkey hgroup
  have hone : rowsWith (columns.map .col) out (keyOn (columns.map .col) row) = [row] :=
    filter_eq_singleton (hkeys ▸ nodup_groupKeys _ rows) hrow
  subst hrowKey
  obtain ⟨hcells, hvalue⟩ := h.isGroupRow_iff.mp hgroup
  refine hfinal.isGroupRow_iff.mpr ⟨?_, fun n hn => ?_⟩
  · rw [groupRow, List.map_map, List.map_map]
    exact hcells
  · obtain ⟨m, hm, rfl⟩ := List.mem_map.mp hn
    rw [hone, NamedCall.valueOn_folded]
    refine AggregateCall.fold_finisher ?_ (hvalue m hm)
    exact (List.length_filter_le ..).trans_lt hrows

end Again

/-! ## The plan -/

namespace Pipeline

variable {p : Pipeline}

/-- **The source groups as the plan does.** -/
theorem groupAndFold_inlined (hp : p.WellFormed) {ns : List NamedCall}
    (hns : p.aggregates = ns.map NamedCall.expr) :
    groupAndFold p.kept p.pushedGroups
      ((ns.map (NamedCall.readThrough p.definitions)).map NamedCall.expr) = p.direct := by
  rw [direct_eq hp, hns]
  refine groupAndFold_congr (Q := fun row row' => row' = p.shape row) ?_ ?_ ?_ ?_
  · rw [List.forall₂_map_right_iff, List.forall₂_same]
    exact fun _ _ => rfl
  · rw [pushedGroups, List.forall₂_map_left_iff, List.forall₂_map_right_iff, List.forall₂_same]
    refine fun g hg => ⟨p.output?_pushedGroup g, ?_⟩
    rintro row _ rfl
    rw [eval_pushedGroup, eval_definitionOf hp (hp.groupBy g hg)]
    rfl
  · exact fun _ => isSome_output?_of_mem_pushedGroups
  · rw [List.forall₂_map_left_iff, List.forall₂_same]
    refine fun n hn => ⟨rfl, rfl, rfl, ?_⟩
    rintro row _ rfl
    exact argsOn_readThrough hp (hns ▸ List.mem_map_of_mem hn) row

/-- The plan that leaves every aggregate to the source. -/
def wholePlan? (p : Pipeline) : Option Physical :=
  p.filteredScan.wholePlan? p.groupBy p.inlined p.handover.pushed

theorem wholePlan?_eq {ns : List NamedCall} (hns : p.aggregates = ns.map NamedCall.expr) :
    p.wholePlan? = some (.aggregate false p.groupBy
      ((ns.map fun n => n.folded n.call.finisher).map NamedCall.expr)
      (p.filteredScan.groupedScan p.handover.pushed p.pushedGroups
        ((ns.map (NamedCall.readThrough p.definitions)).map NamedCall.expr))) := by
  have hfinals : ((ns.map (NamedCall.readThrough p.definitions)).map NamedCall.expr).mapM
      Expr.finished? = some ((ns.map fun n => n.folded n.call.finisher).map NamedCall.expr) := by
    rw [mapM_eq_some_iff, List.map_map, List.map_map, List.forall₂_map_left_iff,
      List.forall₂_map_right_iff, List.forall₂_same]
    exact fun n _ => (n.readThrough p.definitions).finished?_expr
  rw [wholePlan?, FilteredScan.wholePlan?, inlined_eq hns, hfinals]
  rfl

/-- Without groups and calls there is one empty row. -/
theorem groupAndFold_nothing (rows : List Row) : groupAndFold rows [] [] = .ok [.empty] := by
  refine (groupAndFold_eq_ok_iff (List.forall_mem_nil _) []).mpr ?_
  exact .cons ⟨[], .nil, rfl⟩ .nil

/-- **Leaving everything to the source changes nothing.** -/
theorem run_wholePlan (hp : p.WellFormed) (hnamed : p.aggregates.all Expr.isNamedAggregate)
    (hexact : p.handover.isExact) {physical : Physical} (hplan : p.wholePlan? = some physical) :
    physical.run = p.direct := by
  obtain ⟨ns, hns⟩ := exists_calls hnamed
  obtain rfl := Option.some.inj ((wholePlan?_eq hns).symm.trans hplan)
  rw [Physical.run]
  by_cases hask : p.pushedGroups ≠ [] ∨ ns.map (NamedCall.readThrough p.definitions) ≠ []
  · rw [run_groupedScan hp hexact (fun _ => isSome_output?_of_mem_pushedGroups) hask,
      groupAndFold_inlined hp hns]
    cases hdirect : p.direct with
    | error e => rfl
    | ok out =>
      rw [direct_eq hp, hns] at hdirect
      refine groupAndFold_again (legible_groupBy hp hns) ?_ hdirect
      rw [List.length_map]
      exact (kept_length_le p).trans_lt hp.inMemory
  · have hgroups : p.groupBy = [] ∧ ns = [] := by
      simpa [pushedGroups, not_or] using hask
    obtain ⟨rows, hrows, -⟩ := run_groupedScan_plain hp hexact
    have hpushed : p.pushedGroups = [] := by rw [pushedGroups, hgroups.1]; rfl
    rw [direct_eq hp, hns, hgroups.1, hgroups.2, hpushed]
    show (do groupAndFold (← (p.filteredScan.groupedScan p.handover.pushed [] []).run) [] []) = _
    rw [hrows]
    exact (groupAndFold_nothing rows).trans (groupAndFold_nothing _).symm

/-- **Pushing a whole aggregation down keeps its meaning.**  Where the filters are handed over
exactly and the source computes every aggregate, there is a plan, and it gives the rows that the
aggregation means, in their order, or the failure that it means. -/
theorem pushDown?_whole (config : Config) (hp : p.WellFormed)
    (hnamed : p.aggregates.all Expr.isNamedAggregate) (hexact : p.handover.isExact)
    (hall : ∀ e ∈ p.inlined, p.source.takesAggregate e) :
    ∃ physical, p.plan.pushDown? config = some physical ∧ physical.run = p.direct := by
  have hunsupported : p.unsupported = [] :=
    List.filter_eq_nil_iff.mpr fun e he => by simpa using hall e he
  have hplan : p.plan.pushDown? config = p.wholePlan? := by
    rw [pushDown?_of_exact hnamed hexact, if_pos (List.isEmpty_iff.mpr hunsupported),
      supported_of_unsupported_eq_nil hunsupported]
    rfl
  obtain ⟨ns, hns⟩ := exists_calls hnamed
  refine ⟨_, hplan.trans (wholePlan?_eq hns), ?_⟩
  exact run_wholePlan hp hnamed hexact (wholePlan?_eq hns)

/-- A ledger whose source takes everything. -/
def Ledger.whole : Pipeline := Ledger.plan (fun _ => true) fun _ => true

set_option maxRecDepth 10000 in
theorem pushDown?_whole_ledger : ∃ physical, Ledger.whole.plan.pushDown? {} = some physical ∧
    physical.run = .ok [Ledger.summary "east" 6 1, Ledger.summary "north" 5 1] := by
  have hdirect : Ledger.whole.direct =
      .ok [Ledger.summary "east" 6 1, Ledger.summary "north" 5 1] := rfl
  rw [← hdirect]
  exact pushDown?_whole {} (by decide) (by decide) (by decide) fun _ _ => rfl

end Pipeline

end QueryPlan
