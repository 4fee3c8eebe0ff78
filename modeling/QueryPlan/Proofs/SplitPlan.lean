import QueryPlan.Proofs.TwoStages
import QueryPlan.Proofs.WholePlan

/-!
# Some of it done by the source

A split plan lets the source fold the aggregates that it computes, the early ones, and folds the
others here, over the rows that the source gives.  For that the source groups more finely, by every
column that the late ones read as well.  This file says what comes of it.

* `splitPlan?_eq_some` reads off the planner what a split plan consists of: the groups of the source
  (`splitGroups`), the calls of both stages, and the guard for counts.
* `twoStages` says that this is a grouping in two stages in the sense of `Proofs/TwoStages.lean`.
  The late calls read nothing but the groups of the source, and the columns of both stages can be
  told apart in a row.
* `run_split` puts this together with what a source answers (`run_groupedScan`) and with
  `TwoStages.groupAndFold_eq_ok`: the split gives what the aggregation means, if the early counts
  have something to add up and the late calls do not see a row where there is none.
* `run_pushDown?_grouped` is about pushing down as a whole.  With grouping columns there is a group
  only where there are rows, so both conditions hold, and it does not matter how many of the
  aggregates the source computes.

## Without grouping columns

There is one group then even when no row is kept, and everything depends on which stage makes it.

* If the late calls read some column, the source groups by it and gives no row.  The second stage
  makes the empty group.  The early counts would come out null, and the planner sees to that.
* If they read none, the source has no keys either.  It makes the row of the empty group itself, and
  the late calls see a row where they should see none.

The second case is not seen to.  `ShowsEmptyGroup` says when it makes a difference, and
`run_split_global_iff` that the split is wrong in this case and in no other.  The counterpart of
`run_split` for it is `exists_run_split_ne`, by `TwoStages.groupAndFold_ne_ok`.
-/

set_option autoImplicit false

namespace QueryPlan

namespace Expr

theorem produces_iff {id : ColumnId} {e : Expr} :
    e.produces id = true ↔ ∃ c, e.output? = some c ∧ c.id = id := by
  rw [produces]
  cases e.output? <;> simp

/-- The finer grouping: the old keys, and then columns of the list, until each of its columns is a
key. -/
theorem groupingWith_eq (groups : List Expr) (columns : List Column) :
    ∃ extra : List Column, groupingWith groups columns = groups ++ extra.map .col ∧
      (∀ c ∈ extra, c ∈ columns) ∧
      ∀ c ∈ columns, ∃ e ∈ groups ++ extra.map .col, e.produces c.id = true := by
  induction columns generalizing groups with
  | nil => exact ⟨[], (List.append_nil groups).symm, by simp, by simp⟩
  | cons c columns ih =>
    by_cases hany : groups.any (produces c.id) = true
    · obtain ⟨extra, heq, hmem, hall⟩ := ih groups
      refine ⟨extra, ?_, fun d hd => List.mem_cons_of_mem _ (hmem d hd), ?_⟩
      · rw [← heq, groupingWith, List.foldl_cons, if_pos hany]
        rfl
      · refine List.forall_mem_cons.mpr ⟨?_, hall⟩
        obtain ⟨e, he, hprod⟩ := List.any_eq_true.mp hany
        exact ⟨e, List.mem_append_left _ he, hprod⟩
    · obtain ⟨extra, heq, hmem, hall⟩ := ih (groups ++ [col c])
      have happend : groups ++ (c :: extra).map col = groups ++ [col c] ++ extra.map col := by simp
      refine ⟨c :: extra, ?_, ?_, ?_⟩
      · rw [happend, ← heq, groupingWith, List.foldl_cons, if_neg hany]
        rfl
      · exact List.forall_mem_cons.mpr
          ⟨List.mem_cons_self, fun d hd => List.mem_cons_of_mem _ (hmem d hd)⟩
      · rw [happend]
        refine List.forall_mem_cons.mpr ⟨⟨col c, by simp, ?_⟩, hall⟩
        exact produces_iff.mpr ⟨c, rfl, rfl⟩

end Expr

/-- Columns of one list with one identity have one key. -/
theorem Column.Among.rowKey_eq {columns : List Column} (hids : (columns.map Column.id).Nodup)
    {c d : Column} (hc : c.Among columns) (hd : d.Among columns) (hid : c.id = d.id) :
    c.rowKey = d.rowKey := by
  obtain ⟨c', hc', hcid, hcname⟩ := hc
  obtain ⟨d', hd', hdid, hdname⟩ := hd
  have : c' = d' := List.inj_on_of_nodup_map hids hc' hd' (by rw [hcid, hdid, hid])
  rw [Column.rowKey, Column.rowKey, ← hcname, ← hdname, hid, this]

namespace Pipeline

variable {p : Pipeline}

/-! ## The parts of a split -/

/-- What the source groups by in a split. -/
def splitGroups (p : Pipeline) : List Expr :=
  Expr.groupingWith p.pushedGroups (Expr.referencesOf p.unsupported)

/-- The plan that leaves some aggregates to the source. -/
def splitPlan? (p : Pipeline) (config : Config) : Option Physical :=
  p.filteredScan.splitPlan? config p.groupBy p.supported p.unsupported p.handover.pushed

/-- The calls that the source computes, of those of the plan. -/
def early (p : Pipeline) (ms : List NamedCall) : List NamedCall :=
  ms.filter fun n => p.source.takesAggregate n.expr

/-- The calls that are left to be done here. -/
def late (p : Pipeline) (ms : List NamedCall) : List NamedCall :=
  ms.filter fun n => !p.source.takesAggregate n.expr

theorem perm_calls (p : Pipeline) (ms : List NamedCall) : ms.Perm (p.late ms ++ p.early ms) :=
  ((List.perm_append_comm).trans (List.filter_append_perm _ ms)).symm

section Calls

variable {ms : List NamedCall} (hms : p.inlined = ms.map NamedCall.expr)
include hms

theorem supported_eq : p.supported = (p.early ms).map NamedCall.expr := by
  rw [supported, hms, List.filter_map]
  rfl

theorem unsupported_eq : p.unsupported = (p.late ms).map NamedCall.expr := by
  rw [unsupported, hms, List.filter_map]
  rfl

/-- What a split plan is, and what its being there says. -/
theorem splitPlan?_eq_some {config : Config} {physical : Physical}
    (h : p.splitPlan? config = some physical) :
    (∀ n ∈ p.early ms, (n.call.func.merge? n.call.distinct).isSome) ∧
    (∀ n ∈ p.late ms, n.call.ignoresDuplicates = true) ∧
    (p.groupBy = [] → (∃ n ∈ p.early ms, n.call.func = .count) → p.splitGroups = []) ∧
    physical = .aggregate false p.groupBy
      ((TwoStages.finals (p.early ms) (p.late ms)).map NamedCall.expr)
      (p.filteredScan.groupedScan p.handover.pushed p.splitGroups
        ((p.early ms).map NamedCall.expr)) := by
  obtain ⟨merged, hmerged, h⟩ := Option.bind_eq_some_iff.mp h
  rw [supported_eq hms, mapM_eq_some_iff, List.forall₂_map_left_iff] at hmerged
  have hsome : ∀ n ∈ p.early ms, (n.call.func.merge? n.call.distinct).isSome := by
    intro n hn
    obtain ⟨m, -, hm⟩ := forall₂_exists_of_mem hmerged hn
    rw [NamedCall.merged?_expr] at hm
    obtain ⟨f, hf, -⟩ := Option.map_eq_some_iff.mp hm
    rw [hf, Option.isSome_some]
  have hmergers : (p.early ms).map (fun n => (n.folded n.call.finisher).expr) = merged := by
    rw [map_eq_map_of_forall₂ (g := id) hmerged fun n hn m _ hm => ?_, List.map_id]
    rw [NamedCall.merged?_expr] at hm
    obtain ⟨f, hf, hfm⟩ := Option.map_eq_some_iff.mp hm
    rw [AggregateCall.finisher, hf]
    exact hfm
  change (if (config.allowSplit && p.unsupported.all Expr.ignoresDuplicates &&
    !(p.groupBy.isEmpty && !p.splitGroups.isEmpty && p.supported.any Expr.isCount)) = true then
      some (Physical.aggregate false p.groupBy (p.unsupported ++ merged)
        (p.filteredScan.groupedScan p.handover.pushed p.splitGroups p.supported))
    else none) = _ at h
  split at h
  · next hcond =>
    rw [Bool.and_eq_true, Bool.and_eq_true, Bool.not_eq_true', unsupported_eq hms,
      supported_eq hms] at hcond
    obtain ⟨⟨-, hignores⟩, hguard⟩ := hcond
    refine ⟨hsome, fun n hn => ?_, fun hgroup hcount => ?_, ?_⟩
    · exact List.all_eq_true.mp hignores n.expr (List.mem_map_of_mem hn)
    · obtain ⟨n, hn, hfunc⟩ := hcount
      have hany : ((p.early ms).map NamedCall.expr).any Expr.isCount = true :=
        List.any_eq_true.mpr ⟨n.expr, List.mem_map_of_mem hn, beq_iff_eq.mpr hfunc⟩
      rw [hgroup, hany] at hguard
      simpa using hguard
    · rw [TwoStages.finals, List.map_append, List.map_map, ← unsupported_eq hms, ← supported_eq hms]
      exact hmergers ▸ (Option.some.inj h).symm
  · cases h

end Calls

/-! ## A split is a grouping in two stages -/

theorem definitionOf_scanned (hp : p.WellFormed) {c : Column} (hc : c.Among p.columns) :
    p.definitions.definitionOf c = .col c := by
  cases hproj : p.projection with
  | none => rw [definitions, hproj]; rfl
  | some exprs =>
    rw [definitions, hproj]
    refine definitionOf_of_no_alias fun operand output ha hid => ?_
    obtain ⟨d, hd, hdc, -⟩ := hc.trans hp.scanned
    exact (hp.projection exprs hproj).fresh output (List.mem_filterMap.mpr ⟨_, ha, rfl⟩) d hd
      (hid.trans hdc.symm)

/-- An output with the identity of a scanned column is that column. -/
theorem among_columns_of_id (hp : p.WellFormed) {c d : Column} (hc : c.Among p.output)
    (hd : d.Among p.columns) (hid : c.id = d.id) : c.Among p.columns := by
  cases hproj : p.projection with
  | none => rwa [output, hproj] at hc
  | some exprs =>
    rw [output, hproj] at hc
    obtain ⟨x, hx, hxid, hxname, -⟩ | ⟨operand, o, ho, hoid, -, -⟩ :=
      (hp.projection exprs hproj).output_cases hp.scanned hc
    · obtain ⟨y, hy, hyid, hyname⟩ := (hp.projection exprs hproj).reads _ hx x (by simp)
      exact ⟨y, hy, hyid.trans hxid, hyname.trans hxname⟩
    · obtain ⟨y, hy, hyd, -⟩ := hd.trans hp.scanned
      exact absurd (hoid.trans (hid.trans hyd.symm))
        ((hp.projection exprs hproj).fresh o (List.mem_filterMap.mpr ⟨_, ho, rfl⟩) y hy)

/-- The aggregates that the source does not compute read the scan. -/
theorem among_of_mem_references (hp : p.WellFormed) {c : Column}
    (hc : c ∈ Expr.referencesOf p.unsupported) : c.Among p.columns := by
  obtain ⟨e, he, hce⟩ := Expr.exists_mem_of_mem_referencesOf hc
  obtain ⟨a, ha, rfl⟩ := List.mem_map.mp (List.mem_of_mem_filter he)
  exact columns_below hp (hp.aggregates a ha) c hce

section Split

variable (hp : p.WellFormed) {extra : List Column}
  (hextra : ∀ c ∈ extra, c ∈ Expr.referencesOf p.unsupported)
include hp hextra

/-- A key of the first stage is the definition of its column. -/
theorem output_of_mem_groups {e : Expr} (he : e ∈ p.pushedGroups ++ extra.map .col) :
    ∃ c, e.output? = some c ∧ (c.Among p.output ∨ c.Among p.columns) ∧
      ∀ row, e.eval row = (p.definitions.definitionOf c).eval row := by
  rcases List.mem_append.mp he with he | he
  · obtain ⟨g, hg, rfl⟩ := List.mem_map.mp he
    exact ⟨g, p.output?_pushedGroup g, .inl (hp.groupBy g hg), p.eval_pushedGroup g⟩
  · obtain ⟨c, hc, rfl⟩ := List.mem_map.mp he
    have hamong := among_of_mem_references hp (hextra c hc)
    exact ⟨c, rfl, .inr hamong, fun row => by rw [definitionOf_scanned hp hamong]⟩

/-- A scanned column with the identity of a key is what the key computes. -/
theorem eval_of_produces {e : Expr} (he : e ∈ p.pushedGroups ++ extra.map .col) {c : Column}
    (hc : c.Among p.columns) (hprod : e.produces c.id = true) :
    ∃ o, e.output? = some o ∧ o.rowKey = c.rowKey ∧ ∀ row, e.eval row = row.cell c.rowKey := by
  obtain ⟨o, ho, hamong, heval⟩ := output_of_mem_groups hp hextra he
  obtain ⟨o', ho', hid⟩ := Expr.produces_iff.mp hprod
  obtain rfl : o = o' := Option.some.inj (ho.symm.trans ho')
  have hscanned : o.Among p.columns :=
    hamong.elim (fun h => among_columns_of_id hp h hc hid) id
  have hkey : o.rowKey = c.rowKey :=
    (hscanned.trans hp.scanned).rowKey_eq hp.declared (hc.trans hp.scanned) hid
  refine ⟨o, ho, hkey, fun row => ?_⟩
  rw [heval, definitionOf_scanned hp hscanned, Expr.eval, hkey]

variable {ns : List NamedCall} (hns : p.aggregates = ns.map NamedCall.expr)
include hns

theorem legible_first :
    Legible (p.pushedGroups ++ extra.map .col)
      (p.early (ns.map (NamedCall.readThrough p.definitions))) where
  named e he := by
    obtain ⟨c, hc, -⟩ := output_of_mem_groups hp hextra he
    rw [hc, Option.isSome_some]
  agree a ha b hb c hc d hd hkey row := by
    obtain ⟨c', hc', -, hac⟩ := output_of_mem_groups hp hextra ha
    obtain ⟨d', hd', -, hbd⟩ := output_of_mem_groups hp hextra hb
    obtain rfl : c' = c := Option.some.inj (hc'.symm.trans hc)
    obtain rfl : d' = d := Option.some.inj (hd'.symm.trans hd)
    rw [hac, hbd, IdMap.definitionOf, IdMap.definitionOf, (Column.rowKey_inj hkey).1]
    cases p.definitions.get? d'.id with
    | some e => rfl
    | none => rw [Option.getD_none, Option.getD_none, Expr.eval, Expr.eval, hkey]
  apart a ha c hc n hn hkey := by
    obtain ⟨c', hc', hamong, -⟩ := output_of_mem_groups hp hextra ha
    obtain rfl : c' = c := Option.some.inj (hc'.symm.trans hc)
    have hresult : n.output ∈ p.results := by
      obtain ⟨m, hm, rfl⟩ := List.mem_map.mp (List.mem_of_mem_filter hn)
      rw [results_eq hns]
      exact List.mem_map.mpr ⟨m, hm, rfl⟩
    obtain ⟨d, hd, hid⟩ : ∃ d ∈ p.source.columns ++ p.output, d.id = c'.id := by
      rcases hamong with ⟨d, hd, hid, -⟩ | h
      · exact ⟨d, List.mem_append_right _ hd, hid⟩
      · obtain ⟨d, hd, hid, -⟩ := h.trans hp.scanned
        exact ⟨d, List.mem_append_left _ hd, hid⟩
    exact hp.fresh n.output hresult d hd ((Column.rowKey_inj hkey).1.symm.trans hid.symm)
  results := by
    have h := nodup_rowKey_results hp
    rw [results_eq hns, List.map_map] at h
    refine List.Nodup.sublist (List.Sublist.map _ List.filter_sublist) ?_
    rw [List.map_map]
    exact h

/-- **A split is a grouping in two stages.** -/
theorem twoStages {config : Config} {physical : Physical}
    (hplan : p.splitPlan? config = some physical)
    (hall : ∀ c ∈ Expr.referencesOf p.unsupported, ∃ e ∈ p.pushedGroups ++ extra.map .col,
      e.produces c.id = true) :
    TwoStages p.pushedGroups (extra.map .col) p.groupBy
      (p.early (ns.map (NamedCall.readThrough p.definitions)))
      (p.late (ns.map (NamedCall.readThrough p.definitions))) := by
  have hms := inlined_eq hns
  obtain ⟨hmerges, hignores, -, -⟩ := splitPlan?_eq_some hms hplan
  refine ⟨?_, legible_first hp hextra hns, ?_, hmerges, hignores, fun n hn a ha c hc => ?_⟩
  · rw [pushedGroups, List.forall₂_map_left_iff, List.forall₂_same]
    exact fun g _ => p.output?_pushedGroup g
  · refine (legible_groupBy hp hns).of_perm ?_
    refine ((perm_calls p _).map NamedCall.output).symm.trans (.of_eq ?_)
    rw [List.map_map]
    rfl
  · have hmem : n.expr ∈ p.unsupported := unsupported_eq hms ▸ List.mem_map_of_mem hn
    have hread : c ∈ n.expr.columns := NamedCall.mem_columns_of_mem_args ha hc
    -- the reference that stands for the column has its identity
    obtain ⟨d, hd, hdc⟩ := Expr.exists_mem_referencesOf hmem hread
    obtain ⟨e, he, hprod⟩ := hall d hd
    have hamong : c.Among p.columns := by
      obtain ⟨x, hx, hxn⟩ := List.mem_map.mp (List.mem_of_mem_filter hmem)
      exact columns_below hp (hp.aggregates x hx) c (hxn ▸ hread)
    obtain ⟨o, ho, hkey, heval⟩ := eval_of_produces hp hextra he hamong (hdc ▸ hprod)
    exact ⟨e, he, o, ho, hkey, heval⟩

end Split

/-- The groups of a split: those of the plan, and columns until all that is read here is among
them. -/
theorem exists_splitGroups (p : Pipeline) : ∃ extra : List Column,
    p.splitGroups = p.pushedGroups ++ extra.map .col ∧
    (∀ c ∈ extra, c ∈ Expr.referencesOf p.unsupported) ∧
    ∀ c ∈ Expr.referencesOf p.unsupported, ∃ e ∈ p.pushedGroups ++ extra.map .col,
      e.produces c.id = true :=
  Expr.groupingWith_eq ..

theorem exists_twoStages {config : Config} (hp : p.WellFormed) {ns : List NamedCall}
    (hns : p.aggregates = ns.map NamedCall.expr) {physical : Physical}
    (hplan : p.splitPlan? config = some physical) : ∃ extra : List Column,
    p.splitGroups = p.pushedGroups ++ extra.map .col ∧
    TwoStages p.pushedGroups (extra.map .col) p.groupBy
      (p.early (ns.map (NamedCall.readThrough p.definitions)))
      (p.late (ns.map (NamedCall.readThrough p.definitions))) := by
  obtain ⟨extra, hgroups, hextra, hall⟩ := p.exists_splitGroups
  exact ⟨extra, hgroups, twoStages hp hextra hns hplan hall⟩

/-! ## Arguments that merge exactly -/

/-- In each group, sums and extremes have arguments for which merging is exact. -/
def ExactArguments (p : Pipeline) : Prop :=
  ∀ rows, p.rows = .ok rows → ∀ e ∈ p.aggregates, ∀ call ∈ e.aggregateCall?, ∀ key,
    call.Exact (rowsWith (p.groupBy.map .col) rows key)

/-- Arguments that merge exactly over all rows do so in each group. -/
theorem ExactArguments.of_rows {rows : List Row} (hrows : p.rows = .ok rows)
    (h : ∀ e ∈ p.aggregates, ∀ call ∈ e.aggregateCall?, call.Exact rows) : p.ExactArguments := by
  intro rows' hrows' e he call hcall key
  obtain rfl : rows = rows' := Except.ok.inj (hrows.symm.trans hrows')
  exact (h e he call hcall).sublist List.filter_sublist

/-- Groups below the projection are those above it. -/
theorem rowsWith_map_shape (hp : p.WellFormed) (key : List Value) :
    rowsWith (p.groupBy.map .col) (p.kept.map p.shape) key =
      (rowsWith p.pushedGroups p.kept key).map p.shape := by
  rw [rowsWith, rowsWith, List.filter_map]
  refine congrArg _ (List.filter_congr fun row _ => ?_)
  rw [Function.comp_apply, keyOn_pushedGroups hp]

theorem exact_readThrough (hp : p.WellFormed) (hargs : p.ExactArguments) {ns : List NamedCall}
    (hns : p.aggregates = ns.map NamedCall.expr) {n : NamedCall}
    (hn : n ∈ ns.map (NamedCall.readThrough p.definitions)) (key : List Value) :
    n.call.Exact (rowsWith p.pushedGroups p.kept key) := by
  obtain ⟨m, hm, rfl⟩ := List.mem_map.mp hn
  have hmem : m.expr ∈ p.aggregates := hns ▸ List.mem_map_of_mem hm
  have hexact := hargs _ (rows_eq hp) m.expr hmem m.call rfl key
  have hvalues : (rowsWith (p.groupBy.map .col) (p.kept.map p.shape) key).flatMap m.call.argsOn =
      (rowsWith p.pushedGroups p.kept key).flatMap
        (m.readThrough p.definitions).call.argsOn := by
    rw [rowsWith_map_shape hp, List.flatMap_map]
    exact List.flatMap_congr fun row _ => (argsOn_readThrough hp hmem row).symm
  exact ⟨fun h => hvalues ▸ hexact.words h, fun h => hvalues ▸ hexact.size h,
    fun h => hvalues ▸ hexact.plain h⟩

/-! ## Running a split -/

/-- **A split whose first stage asks for something** gives what the aggregation means, unless late
calls see a row of a group that has none. -/
theorem run_split {config : Config} (hp : p.WellFormed) (hexact : p.handover.isExact)
    (hargs : p.ExactArguments) {ns : List NamedCall}
    (hns : p.aggregates = ns.map NamedCall.expr) {physical : Physical}
    (hplan : p.splitPlan? config = some physical)
    (hask : p.splitGroups ≠ [] ∨ p.early (ns.map (NamedCall.readThrough p.definitions)) ≠ [])
    (hseen : p.splitGroups ≠ [] ∨ p.kept ≠ [] ∨
      ∀ n ∈ p.late (ns.map (NamedCall.readThrough p.definitions)),
        n.call.valueOn [.empty] = n.call.valueOn [])
    {out : List Row} (hdirect : p.direct = .ok out) : physical.run = .ok out := by
  have hms := inlined_eq hns
  obtain ⟨extra, hgroups, h⟩ := exists_twoStages hp hns hplan
  obtain ⟨-, -, hguard, rfl⟩ := splitPlan?_eq_some hms hplan
  rw [← groupAndFold_inlined hp hns, groupAndFold_eq_ok_iff fun e he =>
    h.first.named e (List.mem_append_left _ he)] at hdirect
  have hrows : p.kept.length < 2 ^ 63 := p.kept_length_le.trans_lt hp.inMemory
  have hcount : ∀ n ∈ p.early (ns.map (NamedCall.readThrough p.definitions)),
      n.call.func = .count → p.pushedGroups ≠ [] ∨ extra.map Expr.col = [] ∨ p.kept ≠ [] := by
    intro n hn hcount
    by_cases hgroup : p.groupBy = []
    · have hnone := hguard hgroup ⟨n, hn, hcount⟩
      rw [hgroups, List.append_eq_nil_iff] at hnone
      exact .inr (.inl hnone.2)
    · exact .inl (by simpa [pushedGroups] using hgroup)
  obtain ⟨first, hfirst, hsecond⟩ := h.groupAndFold_eq_ok (perm_calls p _) hdirect
    (fun n hn key _ => exact_readThrough hp hargs hns hn key) hrows hcount
    fun first hfirst n hn key hkey v hv => by
      by_cases hsome : p.pushedGroups ++ extra.map .col ≠ [] ∨ p.kept ≠ []
      · exact h.valueOn_late hfirst hsome hn
          (exact_readThrough hp hargs hns (List.mem_of_mem_filter hn) key) hv
      · rw [not_or, not_ne_iff, not_ne_iff] at hsome
        rw [hgroups] at hseen
        have hempty := (hseen.resolve_left (not_ne_iff.mpr hsome.1)).resolve_left
          (not_ne_iff.mpr hsome.2) n hn
        have hnone : p.pushedGroups = [] := (List.append_eq_nil_iff.mp hsome.1).1
        obtain rfl : key = [] := by
          rw [hnone] at hkey
          exact List.mem_singleton.mp hkey
        rw [h.valueOn_of_no_keys hfirst hsome.1 hn, hempty]
        rwa [hsome.2] at hv
  rw [Physical.run, run_groupedScan hp hexact (hgroups ▸ h.first.named) hask, hgroups, hfirst]
  exact hsecond

/-- **Pushing a grouped aggregation down keeps its meaning**, however many of its aggregates the
source computes: the rows that the aggregation means come out, in their order. -/
theorem run_pushDown?_grouped {config : Config} (hp : p.WellFormed) (hgroup : p.groupBy ≠ [])
    (hargs : p.ExactArguments) {physical : Physical}
    (hplan : p.plan.pushDown? config = some physical) {out : List Row}
    (hdirect : p.direct = .ok out) : physical.run = .ok out := by
  have hnamed := named_of_pushDown? hplan
  obtain ⟨ns, hns⟩ := NamedCall.exists_of_isNamedAggregate (List.all_eq_true.mp hnamed)
  cases hexact : p.handover.isExact with
  | false =>
    rw [pushDown?_of_inexact hnamed hexact] at hplan
    split at hplan
    · cases hplan
    · rw [← Option.some.inj hplan, run_localPlan hp hnamed, hdirect]
  | true =>
    rw [pushDown?_of_exact hnamed hexact] at hplan
    split at hplan
    · next hempty =>
      rw [supported_of_unsupported_eq_nil (List.isEmpty_iff.mp hempty)] at hplan
      rw [run_wholePlan hp hnamed hexact hplan, hdirect]
    · have hgroups : p.splitGroups ≠ [] := by
        obtain ⟨extra, heq, -, -⟩ := p.exists_splitGroups
        rw [heq]
        simp [pushedGroups, hgroup]
      exact run_split hp hexact hargs hns hplan (.inl hgroups) (.inl hgroups) hdirect

/-- A ledger whose source sums, and leaves the kinds to be counted here. -/
def Ledger.summed : Pipeline := Ledger.plan (fun _ => true) Ledger.isSum

set_option maxRecDepth 10000 in
theorem run_pushDown?_grouped_ledger :
    ∃ physical, Ledger.summed.plan.pushDown? {} = some physical ∧
      physical.run = .ok [Ledger.summary "east" 6 1, Ledger.summary "north" 5 1] := by
  obtain ⟨physical, hplan⟩ : ∃ physical, Ledger.summed.plan.pushDown? {} = some physical :=
    ⟨_, rfl⟩
  refine ⟨physical, hplan, run_pushDown?_grouped (by decide) (by decide) ?_ hplan rfl⟩
  exact .of_rows rfl (by decide)

/-! ## Without grouping columns -/

/-- A split whose first stage asks for nothing gets plain rows, and all is done here. -/
theorem run_split_plain {config : Config} (hp : p.WellFormed) (hexact : p.handover.isExact)
    {ns : List NamedCall} (hns : p.aggregates = ns.map NamedCall.expr) {physical : Physical}
    (hplan : p.splitPlan? config = some physical) (hgroups : p.splitGroups = [])
    (hearly : p.early (ns.map (NamedCall.readThrough p.definitions)) = []) :
    physical.run = p.direct := by
  have hms := inlined_eq hns
  obtain ⟨extra, heq, h⟩ := exists_twoStages hp hns hplan
  have hnil : p.pushedGroups ++ extra.map .col = [] := heq.symm.trans hgroups
  have hlate : p.late (ns.map (NamedCall.readThrough p.definitions)) =
      ns.map (NamedCall.readThrough p.definitions) := by
    refine List.filter_eq_self.mpr fun n hn => ?_
    simpa using List.filter_eq_nil_iff.mp hearly n hn
  have hfinals : TwoStages.finals [] (p.late (ns.map (NamedCall.readThrough p.definitions))) =
      ns.map (NamedCall.readThrough p.definitions) := by
    rw [TwoStages.finals, hlate]
    exact List.append_nil _
  have hcoarse : p.pushedGroups = [] := (List.append_eq_nil_iff.mp hnil).1
  have hgroup : p.groupBy = [] := by simpa [pushedGroups] using hcoarse
  obtain ⟨rows, hrows, hlength⟩ := run_groupedScan_plain hp hexact
  obtain ⟨-, -, -, rfl⟩ := splitPlan?_eq_some hms hplan
  rw [← groupAndFold_inlined hp hns, Physical.run, hgroups, hearly, hfinals, hgroup, hcoarse]
  show (p.filteredScan.groupedScan p.handover.pushed [] []).run >>= _ = _
  rw [hrows]
  refine groupAndFold_congr (Q := fun _ _ => True) ?_ .nil (List.forall_mem_nil _) ?_
  · exact List.forall₂_iff_zip.mpr ⟨hlength, fun _ => trivial⟩
  · rw [List.forall₂_same]
    exact fun n hn => ⟨rfl, rfl, rfl, fun row row' _ =>
      h.argsOn_of_no_keys hnil (hlate.symm ▸ hn) row row'⟩

/-- The row of an empty group shows: the first stage makes it where there are no rows, and some
aggregate that is left to be done here comes out otherwise over it than over none. -/
structure ShowsEmptyGroup (p : Pipeline) : Prop where
  nothing : p.rows = .ok []
  early : p.supported ≠ []
  noKeys : Expr.referencesOf p.unsupported = []
  shows : ∃ e ∈ p.unsupported, ∃ call ∈ e.aggregateCall?, call.valueOn [.empty] ≠ call.valueOn []

theorem valueOn_nil (c : AggregateCall) : c.valueOn [] = .ok (Accumulator.fresh c.func).result := by
  have htuples : c.tuples [] = [] := by simp [AggregateCall.tuples]
  rw [AggregateCall.valueOn, AggregateCall.stateOn, htuples]
  rfl

theorem splitGroups_eq_nil_iff (hgroup : p.groupBy = []) :
    p.splitGroups = [] ↔ Expr.referencesOf p.unsupported = [] := by
  obtain ⟨extra, heq, hextra, hall⟩ := p.exists_splitGroups
  have hcoarse : p.pushedGroups = [] := by rw [pushedGroups, hgroup]; rfl
  rw [hcoarse, List.nil_append] at heq hall
  rw [heq, List.map_eq_nil_iff]
  constructor
  · rintro rfl
    refine List.eq_nil_iff_forall_not_mem.mpr fun c hc => ?_
    obtain ⟨e, he, -⟩ := hall c hc
    cases he
  · intro hnil
    refine List.eq_nil_iff_forall_not_mem.mpr fun c hc => ?_
    have := hextra c hc
    rw [hnil] at this
    cases this

theorem rows_eq_nil_iff (hp : p.WellFormed) : p.rows = .ok [] ↔ p.kept = [] := by
  rw [rows_eq hp, Except.ok.injEq, List.map_eq_nil_iff]

/-- Over no rows an aggregation succeeds. -/
theorem exists_direct_of_kept_eq_nil (hp : p.WellFormed) {ns : List NamedCall}
    (hns : p.aggregates = ns.map NamedCall.expr) (hkept : p.kept = []) :
    ∃ out, p.direct = .ok out := by
  have hrows : ∀ key ∈ groupKeys p.pushedGroups p.kept, ∃ row,
      IsGroupRow p.pushedGroups (ns.map (NamedCall.readThrough p.definitions)) p.kept key row := by
    intro key _
    have hvalues : ∀ n ∈ ns.map (NamedCall.readThrough p.definitions),
        ∃ v, n.call.valueOn [] = .ok v := fun n _ => ⟨_, valueOn_nil n.call⟩
    obtain ⟨vs, hvs⟩ := exists_forall₂ hvalues
    refine ⟨_, vs, ?_, rfl⟩
    rw [hkept]
    exact hvs
  obtain ⟨out, hout⟩ := exists_forall₂ hrows
  refine ⟨out, ?_⟩
  rw [← groupAndFold_inlined hp hns]
  exact (groupAndFold_eq_ok_iff (fun _ => isSome_output?_of_mem_pushedGroups) _).mpr hout

/-- The row of an empty group shows: the split does not give what the aggregation means. -/
theorem exists_run_split_ne {config : Config} (hp : p.WellFormed) (hexact : p.handover.isExact)
    (hargs : p.ExactArguments) (hgroup : p.groupBy = []) (hshows : p.ShowsEmptyGroup)
    {ns : List NamedCall} (hns : p.aggregates = ns.map NamedCall.expr) {physical : Physical}
    (hplan : p.splitPlan? config = some physical) :
    ∃ out, p.direct = .ok out ∧ physical.run ≠ .ok out := by
  have hms := inlined_eq hns
  have hkept : p.kept = [] := (rows_eq_nil_iff hp).mp hshows.nothing
  obtain ⟨extra, heq, h⟩ := exists_twoStages hp hns hplan
  have hnil : p.pushedGroups ++ extra.map .col = [] :=
    heq.symm.trans ((splitGroups_eq_nil_iff hgroup).mpr hshows.noKeys)
  obtain ⟨out, hdirect⟩ := exists_direct_of_kept_eq_nil hp hns hkept
  refine ⟨out, hdirect, ?_⟩
  rw [← groupAndFold_inlined hp hns, groupAndFold_eq_ok_iff fun _ =>
    isSome_output?_of_mem_pushedGroups] at hdirect
  obtain ⟨first, hfirst⟩ := h.exists_first (perm_calls p _) hdirect
    (fun n hn key _ => exact_readThrough hp hargs hns hn key)
    (p.kept_length_le.trans_lt hp.inMemory)
  have hearly : p.early (ns.map (NamedCall.readThrough p.definitions)) ≠ [] := by
    have := hshows.early
    rw [supported_eq hms] at this
    exact fun hnone => this (by rw [hnone]; rfl)
  obtain ⟨e, he, call, hcall, hne⟩ := hshows.shows
  rw [unsupported_eq hms] at he
  obtain ⟨n, hn, rfl⟩ := List.mem_map.mp he
  obtain rfl : n.call = call := Option.some.inj hcall
  obtain ⟨-, -, -, rfl⟩ := splitPlan?_eq_some hms hplan
  rw [Physical.run, run_groupedScan hp hexact (heq ▸ h.first.named) (.inr hearly), heq,
    (groupAndFold_eq_ok_iff h.first.named _).mpr hfirst]
  exact h.groupAndFold_ne_ok (perm_calls p _) hdirect hnil hkept hfirst hn hne

/-- **Pushing down an aggregation without grouping columns, split.**  It gives the row that the
aggregation means, unless the row of an empty group shows. -/
theorem run_split_global_iff {config : Config} (hp : p.WellFormed) (hgroup : p.groupBy = [])
    (hexact : p.handover.isExact) (hsplit : p.unsupported ≠ []) (hargs : p.ExactArguments)
    {physical : Physical} (hplan : p.plan.pushDown? config = some physical) :
    (∀ out, p.direct = .ok out → physical.run = .ok out) ↔ ¬p.ShowsEmptyGroup := by
  have hnamed := named_of_pushDown? hplan
  obtain ⟨ns, hns⟩ := NamedCall.exists_of_isNamedAggregate (List.all_eq_true.mp hnamed)
  rw [pushDown?_of_exact hnamed hexact, if_neg (List.isEmpty_iff.not.mpr hsplit)] at hplan
  change p.splitPlan? config = _ at hplan
  have hms := inlined_eq hns
  constructor
  · intro hall hshows
    obtain ⟨out, hdirect, hne⟩ := exists_run_split_ne hp hexact hargs hgroup hshows hns hplan
    exact hne (hall out hdirect)
  · intro hshows out hdirect
    by_cases hask : p.splitGroups ≠ [] ∨
        p.early (ns.map (NamedCall.readThrough p.definitions)) ≠ []
    · refine run_split hp hexact hargs hns hplan hask ?_ hdirect
      by_contra hseen
      rw [not_or, not_or, not_ne_iff, not_ne_iff, not_forall] at hseen
      obtain ⟨hgroups, hkept, n, hn⟩ := hseen
      rw [not_forall] at hn
      obtain ⟨hmem, hne⟩ := hn
      refine hshows ⟨(rows_eq_nil_iff hp).mpr hkept, ?_,
        (splitGroups_eq_nil_iff hgroup).mp hgroups, n.expr, ?_, n.call, rfl, hne⟩
      · rw [supported_eq hms]
        simpa using hask.resolve_left (not_ne_iff.mpr hgroups)
      · rw [unsupported_eq hms]
        exact List.mem_map_of_mem hmem
    · rw [not_or, not_ne_iff, not_ne_iff] at hask
      rw [run_split_plain hp hexact hns hplan hask.1 hask.2, hdirect]

/-- A ledger without entries, taken as a whole, where ones are counted. -/
def Ledger.ones : Pipeline :=
  { Ledger.summed with
    source := { Ledger.summed.source with rows := [] }
    groupBy := []
    aggregates := [.named (.aggregate .sum [.col Ledger.spent] false) Ledger.total,
      .named (.aggregate .count [.lit (.int 1)] true) Ledger.kinds] }

set_option maxRecDepth 10000 in
/-- Without rows, the count of the ones is zero, and the split makes it one. -/
theorem run_split_global_ledger :
    Ledger.ones.ShowsEmptyGroup ∧
      Ledger.ones.direct = .ok [.ofCells [("total#4", .null), ("kinds#5", .int 0)]] ∧
      ∃ physical, Ledger.ones.plan.pushDown? {} = some physical ∧
        physical.run = .ok [.ofCells [("total#4", .null), ("kinds#5", .int 1)]] := by
  obtain ⟨physical, hplan, hrun⟩ : ∃ physical,
      Ledger.ones.plan.pushDown? {} = some physical ∧
        physical.run = .ok [.ofCells [("total#4", .null), ("kinds#5", .int 1)]] := ⟨_, rfl, rfl⟩
  refine ⟨?_, rfl, physical, hplan, hrun⟩
  by_contra hshows
  have hrows : Ledger.ones.rows = .ok [] := rfl
  have hargs : Ledger.ones.ExactArguments := .of_rows hrows (by decide)
  have hone := (run_split_global_iff (by decide) rfl (by decide) (by decide) hargs hplan).mpr
    hshows _ rfl
  have hrow := (List.cons.inj (Except.ok.inj (hrun.symm.trans hone))).1
  have hcell : Value.int 1 = .int 0 := congrArg (fun row => row.cell "kinds#5") hrow
  cases hcell

end Pipeline

end QueryPlan
