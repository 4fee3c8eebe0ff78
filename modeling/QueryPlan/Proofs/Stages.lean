import QueryPlan.Proofs.Folding
import QueryPlan.Proofs.LocalPlan

/-!
# Two stages

A plan that lets the source group has two stages: the source gives a row for each of its groups, and
these rows are grouped and folded once more here.  This module has what is common to all such plans.

* **Rows of groups.**  The keys of groups are those of rows, each once (`mem_groupKeys`,
  `nodup_groupKeys`), and a row of a group has a column for each key and each call.
* **Reading them back.**  A row that comes from the first stage is read by the second one.  It gives
  back what it was made of, the key and the values of the calls (`isGroupRow_iff`), provided that
  its columns do not collide: keys with one column have one value, and no call has the column of
  another or of a key (`Legible`).
* **Calls in two stages.**  A call may be folded once more in its own column
  (`NamedCall.valueOn_folded`), by the function that merges its results where it has one.
* **The first stage.**  A source that is handed the filters exactly groups the rows kept, whatever
  the scan is asked to leave out (`run_groupedScan`).  If it is asked for nothing, it still gives as
  many rows as there are (`run_groupedScan_plain`).
* **The plan.**  Its grouping columns and its calls have the values below the projection that they
  have above (`keyOn_pushedGroups`, `argsOn_readThrough`), and with exact filters the planner
  chooses between its plans by what the source computes (`pushDown?_of_exact`).
-/

set_option autoImplicit false

namespace QueryPlan

/-! ## Rows of groups -/

theorem keyOn_length (keys : List Expr) (row : Row) : (keyOn keys row).length = keys.length :=
  List.length_map ..

/-- The key of a group is that of a row in it; only the group that is always there can do without
rows. -/
theorem mem_groupKeys {keys : List Expr} {rows : List Row} {key : List Value}
    (h : key ∈ groupKeys keys rows) :
    (keys = [] ∧ key = []) ∨ ∃ row ∈ rows, keyOn keys row = key := by
  rw [groupKeys] at h
  split at h
  · next hempty => exact Or.inl ⟨List.isEmpty_iff.mp hempty, List.mem_singleton.mp h⟩
  · exact Or.inr (List.mem_map.mp (List.mem_eraseDups.mp h))

/-- Every row has its group. -/
theorem keyOn_mem_groupKeys (keys : List Expr) {rows : List Row} {row : Row} (hrow : row ∈ rows) :
    keyOn keys row ∈ groupKeys keys rows := by
  rw [groupKeys]
  split
  · next hempty =>
    rw [List.isEmpty_iff.mp hempty]
    exact List.mem_singleton.mpr rfl
  · exact List.mem_eraseDups.mpr (List.mem_map_of_mem hrow)

theorem exists_keyOn {keys : List Expr} {rows : List Row} {key : List Value}
    (h : key ∈ groupKeys keys rows) : ∃ row, keyOn keys row = key := by
  obtain ⟨rfl, rfl⟩ | ⟨row, -, hrow⟩ := mem_groupKeys h
  · exact ⟨.empty, rfl⟩
  · exact ⟨row, hrow⟩

theorem nodup_groupKeys (keys : List Expr) (rows : List Row) : (groupKeys keys rows).Nodup := by
  rw [groupKeys]
  split
  · exact List.nodup_singleton _
  · exact nodup_eraseDups _

/-- The columns of a group's row: those of the keys, then those of the calls. -/
theorem filterMap_output?_exprs (keys : List Expr) (ns : List NamedCall) :
    (keys ++ ns.map NamedCall.expr).filterMap Expr.output? =
      keys.filterMap Expr.output? ++ ns.map NamedCall.output := by
  rw [List.filterMap_append, List.filterMap_map]
  exact congrArg _ (congrFun List.filterMap_eq_map ns)

theorem length_filterMap_output? {keys : List Expr} (hkeys : ∀ e ∈ keys, e.output?.isSome) :
    (keys.filterMap Expr.output?).length = keys.length :=
  List.filterMap_length_eq_length.mpr hkeys

theorem filterMap_output?_map_col (columns : List Column) :
    (columns.map Expr.col).filterMap Expr.output? = columns := by
  rw [List.filterMap_map]
  exact List.filterMap_some ..

theorem projectEach_col (rows : List Row) (columns : List Column) :
    projectEach rows (columns.map .col) = .ok (rows.map fun row =>
      .ofCells ((columns.map Column.rowKey).map fun key => (key, row.cell key))) := by
  have hnamed : ∀ e ∈ columns.map Expr.col, e.output?.isSome := by
    intro e he
    obtain ⟨c, -, rfl⟩ := List.mem_map.mp he
    rfl
  rw [projectEach, Expr.mapM_outputKey hnamed, filterMap_output?_map_col]
  refine congrArg Except.ok (List.map_congr_left fun row _ => ?_)
  rw [projectOne, List.map_map, List.zip_map', List.map_map]
  rfl

/-- The names in a group's row are those of its columns. -/
theorem map_fst_groupRow {keys : List Expr} (hkeys : ∀ e ∈ keys, e.output?.isSome)
    {ns : List NamedCall} {key vs : List Value} (hkey : key.length = keys.length)
    (hvs : ns.length = vs.length) :
    (((keys.filterMap Expr.output?).map Column.rowKey).zip key ++
        (ns.map fun n => n.output.rowKey).zip vs).map Prod.fst =
      ((keys ++ ns.map NamedCall.expr).filterMap Expr.output?).map Column.rowKey := by
  have hkeyNames : (((keys.filterMap Expr.output?).map Column.rowKey).zip key).map Prod.fst =
      (keys.filterMap Expr.output?).map Column.rowKey := by
    refine List.map_fst_zip ?_
    rw [List.length_map, length_filterMap_output? hkeys, hkey]
  have hresultNames : ((ns.map fun n => n.output.rowKey).zip vs).map Prod.fst =
      ns.map fun n => n.output.rowKey := by
    refine List.map_fst_zip ?_
    rw [List.length_map, hvs]
  rw [List.map_append, hkeyNames, hresultNames, filterMap_output?_exprs, List.map_append,
    List.map_map]
  rfl

/-- A group's row is nothing but its columns. -/
theorem IsGroupRow.ofCells_columns {keys : List Expr} (hkeys : ∀ e ∈ keys, e.output?.isSome)
    {ns : List NamedCall} {rows : List Row} {key : List Value} (hkey : key.length = keys.length)
    {out : Row} (h : IsGroupRow keys ns rows key out) :
    .ofCells ((((keys ++ ns.map NamedCall.expr).filterMap Expr.output?).map Column.rowKey).map
      fun key => (key, out.cell key)) = out := by
  obtain ⟨vs, hvs, rfl⟩ := h
  rw [groupRow, ← map_fst_groupRow hkeys hkey hvs.length_eq]
  exact Row.ofCells_map_cell _

/-- Rows of groups pass a projection to their own columns unchanged. -/
theorem projectEach_groupAndFold {keys : List Expr} (hkeys : ∀ e ∈ keys, e.output?.isSome)
    (ns : List NamedCall) (rows : List Row) :
    (groupAndFold rows keys (ns.map NamedCall.expr) >>= fun out =>
      projectEach out (((keys ++ ns.map NamedCall.expr).filterMap Expr.output?).map .col)) =
        groupAndFold rows keys (ns.map NamedCall.expr) := by
  cases hrun : groupAndFold rows keys (ns.map NamedCall.expr) with
  | error e => rfl
  | ok out =>
    have hrows := (groupAndFold_eq_ok_iff hkeys ns).mp hrun
    refine (projectEach_col out _).trans (congrArg Except.ok ?_)
    refine (List.map_congr_left fun row hrow => ?_).trans out.map_id
    obtain ⟨key, hkey, hgroup⟩ := exists_of_forall₂_mem hrows hrow
    obtain ⟨r, rfl⟩ := exists_keyOn hkey
    exact hgroup.ofCells_columns hkeys (keyOn_length keys r)

/-! ## Reading a row of a group -/

/-- The columns of the keys and of the calls can be told apart in a row: keys with one column have
one value, and every call has a column of its own. -/
structure Legible (keys : List Expr) (ns : List NamedCall) : Prop where
  named : ∀ e ∈ keys, e.output?.isSome
  agree : ∀ a ∈ keys, ∀ b ∈ keys, ∀ c ∈ a.output?, ∀ d ∈ b.output?, c.rowKey = d.rowKey →
    ∀ row, a.eval row = b.eval row
  apart : ∀ a ∈ keys, ∀ c ∈ a.output?, ∀ n ∈ ns, c.rowKey ≠ n.output.rowKey
  results : (ns.map fun n => n.output.rowKey).Nodup

namespace Legible

variable {keys : List Expr} {ns : List NamedCall} (h : Legible keys ns)
include h

/-- Only the columns of the calls matter. -/
theorem of_perm {ns' : List NamedCall}
    (hperm : (ns'.map NamedCall.output).Perm (ns.map NamedCall.output)) : Legible keys ns' where
  named := h.named
  agree := h.agree
  apart a ha c hc n hn hkey := by
    obtain ⟨m, hm, hmn⟩ := List.mem_map.mp (hperm.mem_iff.mp (List.mem_map_of_mem hn))
    exact h.apart a ha c hc m hm (hkey.trans (congrArg Column.rowKey hmn.symm))
  results := by
    have hkeys := hperm.map Column.rowKey
    rw [List.map_map, List.map_map] at hkeys
    exact hkeys.nodup_iff.mpr h.results

/-- The cells for the keys. -/
theorem mem_zip_keys {row : Row} {name : String} {v : Value} :
    (name, v) ∈ ((keys.filterMap Expr.output?).map Column.rowKey).zip (keyOn keys row) ↔
      ∃ e ∈ keys, ∃ c ∈ e.output?, c.rowKey = name ∧ e.eval row = v := by
  rw [keyOn, Expr.zip_outputKeys h.named, List.mem_filterMap]
  simp only [Option.map_eq_some_iff, Prod.mk.injEq, Option.mem_def]

theorem consistent (row : Row) (vs : List Value) :
    Row.Consistent (((keys.filterMap Expr.output?).map Column.rowKey).zip (keyOn keys row) ++
      (ns.map fun n => n.output.rowKey).zip vs) := by
  intro name v w hv hw
  have hclash {e : Expr} (he : e ∈ keys) {c : Column} (hc : c ∈ e.output?) (hname : c.rowKey = name)
      {v : Value} (hv : (name, v) ∈ (ns.map fun n => n.output.rowKey).zip vs) : False := by
    obtain ⟨n, hn, hnn⟩ := List.mem_map.mp (List.of_mem_zip hv).1
    exact h.apart e he c hc n hn (hname.trans hnn.symm)
  rcases List.mem_append.mp hv with hv | hv <;> rcases List.mem_append.mp hw with hw | hw
  · obtain ⟨a, ha, c, hc, hcn, rfl⟩ := h.mem_zip_keys.mp hv
    obtain ⟨b, hb, d, hd, hdn, rfl⟩ := h.mem_zip_keys.mp hw
    exact h.agree a ha b hb c hc d hd (hcn.trans hdn.symm) row
  · obtain ⟨a, ha, c, hc, hcn, -⟩ := h.mem_zip_keys.mp hv
    exact (hclash ha hc hcn hw).elim
  · obtain ⟨a, ha, c, hc, hcn, -⟩ := h.mem_zip_keys.mp hw
    exact (hclash ha hc hcn hv).elim
  · exact Row.consistent_zip h.results vs name v w hv hw

/-- A row reads back the key of its group. -/
theorem cell_key {rows : List Row} {row out : Row}
    (hout : IsGroupRow keys ns rows (keyOn keys row) out) {e : Expr} (he : e ∈ keys) {c : Column}
    (hc : c ∈ e.output?) : out.cell c.rowKey = e.eval row := by
  obtain ⟨vs, -, rfl⟩ := hout
  refine Row.cell_ofCells (h.consistent row _) (List.mem_append_left _ ?_)
  exact h.mem_zip_keys.mpr ⟨e, he, c, hc, rfl, rfl⟩

/-- **A row of a group, read back**: it holds the key and, for each call, the value over the rows of
the group, and nothing else. -/
theorem isGroupRow_iff {rows : List Row} {row out : Row} :
    IsGroupRow keys ns rows (keyOn keys row) out ↔
      out = groupRow ((keys.filterMap Expr.output?).map Column.rowKey) ns (keyOn keys row)
        (ns.map fun n => out.cell n.output.rowKey) ∧
      ∀ n ∈ ns, n.call.valueOn (rowsWith keys rows (keyOn keys row)) =
        .ok (out.cell n.output.rowKey) := by
  constructor
  · rintro ⟨vs, hvs, hout⟩
    have hcell : List.Forall₂ (fun n v => out.cell n.output.rowKey = v) ns vs := by
      rw [List.forall₂_iff_zip]
      refine ⟨hvs.length_eq, fun {n v} hnv => ?_⟩
      rw [hout]
      refine Row.cell_ofCells (h.consistent row _) (List.mem_append_right _ ?_)
      rw [List.zip_map_left]
      exact List.mem_map.mpr ⟨(n, v), hnv, rfl⟩
    have hmap : (ns.map fun n => out.cell n.output.rowKey) = vs := by
      rw [← List.forall₂_eq_eq_eq, List.forall₂_map_left_iff]
      exact hcell
    subst hmap
    exact ⟨hout, List.forall₂_same.mp (List.forall₂_map_right_iff.mp hvs)⟩
  · rintro ⟨hout, hvalue⟩
    exact ⟨_, List.forall₂_map_right_iff.mpr (List.forall₂_same.mpr hvalue), hout⟩

end Legible

/-! ## Calls in two stages -/

namespace NamedCall

/-- A call with its arguments read through a projection. -/
def readThrough (definitions : IdMap Expr) (n : NamedCall) : NamedCall :=
  ⟨⟨n.call.func, n.call.args.map (QueryPlan.readThrough definitions), n.call.distinct⟩, n.output⟩

theorem readThrough_expr (definitions : IdMap Expr) (n : NamedCall) :
    QueryPlan.readThrough definitions n.expr = (n.readThrough definitions).expr := by
  obtain ⟨⟨func, args, distinct⟩, output⟩ := n
  obtain ⟨entries⟩ := definitions
  have hmap (depth : Nat) (f : Column → Expr) :
      (expr ⟨⟨func, args, distinct⟩, output⟩).expand f depth =
        expr ⟨⟨func, args.map (Expr.expand f depth), distinct⟩, output⟩ := by
    cases depth with
    | zero => simp [expr, AggregateCall.expr, Expr.expand]
    | succ depth =>
      simp only [expr, AggregateCall.expr, Expr.expand, Expr.bind, Expr.bindList_eq_map]
  exact hmap ..

/-- The call that folds what this one has left in its column. -/
def folded (n : NamedCall) (f : AggregateFunction) : NamedCall :=
  ⟨⟨f, [.col n.output], false⟩, n.output⟩

theorem valueOn_folded (n : NamedCall) (f : AggregateFunction) (rows : List Row) :
    (n.folded f).call.valueOn rows =
      f.fold ((rows.map fun row => row.cell n.output.rowKey).map fun v => [v]) := by
  rw [AggregateCall.valueOn_eq, AggregateCall.tuples, List.map_map]
  rfl

theorem merged?_expr (n : NamedCall) :
    n.expr.merged? = (n.call.func.merge? n.call.distinct).map fun f => (n.folded f).expr := by
  show ((n.call.func.merge? n.call.distinct).map _ >>= _) = _
  cases n.call.func.merge? n.call.distinct <;> rfl

theorem finished?_expr (n : NamedCall) :
    n.expr.finished? = some (n.folded n.call.finisher).expr := by
  rw [Expr.finished?, merged?_expr, AggregateCall.finisher]
  cases n.call.func.merge? n.call.distinct <;> rfl

end NamedCall

/-! ## The first stage -/

/-- A pruned scan that asks for groups gives them, however it is pruned. -/
theorem run_prunedScan {projection filters : List Expr} {source : Source} {request : Request}
    (hknown : source.unknownColumn? request.filters = none)
    (hgroups : ∀ e ∈ request.groupBy, e.output?.isSome) {ns : List NamedCall}
    (haggregates : request.aggregates = ns.map NamedCall.expr) (hask : request.isAggregate) :
    (prunedScan projection filters source request).run =
      groupAndFold (source.matching request.filters) request.groupBy request.aggregates := by
  have hscan (columns : List Column) : source.scan { request with columns } =
      groupAndFold (source.matching request.filters) request.groupBy request.aggregates := by
    rw [Source.scan]
    simp only [hknown]
    exact if_pos hask
  have houtput : request.output =
      (request.groupBy ++ ns.map NamedCall.expr).filterMap Expr.output? := by
    rw [Request.output, if_pos hask, haggregates]
  rw [prunedScan]
  split
  · exact hscan _
  · rw [Physical.run, Physical.run, hscan, houtput, haggregates]
    exact projectEach_groupAndFold hgroups ns _

/-- A pruned scan that asks for nothing gives as many rows as there are. -/
theorem run_prunedScan_plain {projection filters : List Expr} {source : Source}
    {pushed : List Filter} (hknown : source.unknownColumn? pushed = none) :
    ∃ rows, (prunedScan projection filters source { filters := pushed }).run = .ok rows ∧
      rows.length = (source.matching pushed).length := by
  rw [prunedScan]
  split
  · exact ⟨_, source.scan_columns _ _ hknown, List.length_map ..⟩
  · let needed := Expr.referencesOf (projection ++ filters)
    refine ⟨((source.matching pushed).map (Row.prune needed)).map (projectOne [] []), ?_,
      (List.length_map _).trans (List.length_map _)⟩
    rw [Physical.run, Physical.run, source.scan_columns needed _ hknown]
    rfl

namespace Pipeline

variable {p : Pipeline}

/-- **A source that is handed the filters exactly groups the rows kept.** -/
theorem run_groupedScan (hp : p.WellFormed) (hexact : p.handover.isExact) {groups : List Expr}
    (hgroups : ∀ e ∈ groups, e.output?.isSome) {ns : List NamedCall}
    (hask : groups ≠ [] ∨ ns ≠ []) :
    (p.filteredScan.groupedScan p.handover.pushed groups (ns.map NamedCall.expr)).run =
      groupAndFold p.kept groups (ns.map NamedCall.expr) := by
  rw [FilteredScan.groupedScan, filteredScan_source, ← matching_eq hp hexact]
  refine run_prunedScan (Source.unknownColumn?_handOverAll _) hgroups rfl ?_
  rw [Request.isAggregate]
  rcases hask with h | h
  · simp [h]
  · simp [h]

/-- What a column above the projection stands for below it. -/
theorem eval_definitionOf (hp : p.WellFormed) {c : Column} (hc : c.Among p.output) (row : Row) :
    (p.definitions.definitionOf c).eval row = (p.shape row).cell c.rowKey := by
  cases hproj : p.projection with
  | none => rw [definitions, shape, hproj]; rfl
  | some exprs =>
    rw [output, hproj] at hc
    rw [definitions, shape, hproj]
    exact (((hp.projection exprs hproj).transparent hp.scanned).cell_projectOne row hc).symm

/-- The grouping columns as the source has to compute them. -/
def pushedGroups (p : Pipeline) : List Expr := p.groupBy.map p.filteredScan.pushedGroup

theorem output?_pushedGroup (p : Pipeline) (g : Column) :
    (p.filteredScan.pushedGroup g).output? = some g := by
  rw [FilteredScan.pushedGroup]
  split <;> rfl

theorem isSome_output?_of_mem_pushedGroups {e : Expr} (he : e ∈ p.pushedGroups) :
    e.output?.isSome := by
  obtain ⟨g, -, rfl⟩ := List.mem_map.mp he
  rw [output?_pushedGroup, Option.isSome_some]

theorem eval_pushedGroup (p : Pipeline) (g : Column) (row : Row) :
    (p.filteredScan.pushedGroup g).eval row = (p.definitions.definitionOf g).eval row := by
  rw [FilteredScan.pushedGroup, filteredScan_definitions, IdMap.definitionOf]
  cases p.definitions.get? g.id <;> rfl

theorem keyOn_pushedGroups (hp : p.WellFormed) (row : Row) :
    keyOn p.pushedGroups row = keyOn (p.groupBy.map .col) (p.shape row) := by
  rw [pushedGroups, keyOn, keyOn, List.map_map, List.map_map]
  refine List.map_congr_left fun g hg => ?_
  rw [Function.comp_apply, eval_pushedGroup, eval_definitionOf hp (hp.groupBy g hg)]
  rfl

/-- A call below the projection has the arguments that it has above. -/
theorem argsOn_readThrough (hp : p.WellFormed) {n : NamedCall} (hn : n.expr ∈ p.aggregates)
    (row : Row) : (n.readThrough p.definitions).call.argsOn row = n.call.argsOn (p.shape row) := by
  rw [AggregateCall.argsOn, AggregateCall.argsOn]
  refine (List.map_map ..).trans (List.map_congr_left fun e he => ?_)
  refine eval_below hp (fun c hc => ?_) row
  exact hp.aggregates n.expr hn c (NamedCall.mem_columns_of_mem_args he hc)

theorem inlined_eq {ns : List NamedCall} (hns : p.aggregates = ns.map NamedCall.expr) :
    p.inlined = (ns.map (NamedCall.readThrough p.definitions)).map NamedCall.expr := by
  rw [inlined, hns, List.map_map, List.map_map]
  exact List.map_congr_left fun n _ => n.readThrough_expr _

theorem results_eq {ns : List NamedCall} (hns : p.aggregates = ns.map NamedCall.expr) :
    p.results = ns.map NamedCall.output := by
  rw [results, hns, List.filterMap_map]
  exact congrFun List.filterMap_eq_map ns

theorem nodup_rowKey_results (hp : p.WellFormed) : (p.results.map Column.rowKey).Nodup := by
  have h := hp.results
  rw [List.Nodup, List.pairwise_map] at h ⊢
  exact h.imp fun hid hkey => hid (Column.rowKey_inj hkey).1

/-- What the plan groups by and what it gives can be told apart. -/
theorem legible_groupBy (hp : p.WellFormed) {ns : List NamedCall}
    (hns : p.aggregates = ns.map NamedCall.expr) : Legible (p.groupBy.map .col) ns where
  named e he := by
    obtain ⟨g, -, rfl⟩ := List.mem_map.mp he
    rfl
  agree a ha b hb c hc d hd hkey row := by
    obtain ⟨g, -, rfl⟩ := List.mem_map.mp ha
    obtain ⟨g', -, rfl⟩ := List.mem_map.mp hb
    obtain rfl : g = c := Option.some.inj hc
    obtain rfl : g' = d := Option.some.inj hd
    rw [Expr.eval, Expr.eval, hkey]
  apart a ha c hc n hn hkey := by
    obtain ⟨g, hg, rfl⟩ := List.mem_map.mp ha
    obtain rfl : g = c := Option.some.inj hc
    obtain ⟨d, hd, hid, -⟩ := hp.groupBy g hg
    have hmem : n.output ∈ p.results := results_eq hns ▸ List.mem_map_of_mem hn
    exact hp.fresh n.output hmem d (List.mem_append_right _ hd)
      ((Column.rowKey_inj hkey).1.symm.trans hid.symm)
  results := by
    have h := nodup_rowKey_results hp
    rwa [results_eq hns, List.map_map] at h

theorem run_groupedScan_plain (hp : p.WellFormed) (hexact : p.handover.isExact) :
    ∃ rows, (p.filteredScan.groupedScan p.handover.pushed [] []).run = .ok rows ∧
      rows.length = p.kept.length := by
  rw [FilteredScan.groupedScan, filteredScan_source, ← matching_eq hp hexact]
  exact run_prunedScan_plain (Source.unknownColumn?_handOverAll _)

/-! ## The plan -/

/-- The aggregates that the source computes. -/
def supported (p : Pipeline) : List Expr := p.inlined.filter p.source.takesAggregate

/-- The aggregates that the source does not compute. -/
def unsupported (p : Pipeline) : List Expr := p.inlined.filter fun e => !p.source.takesAggregate e

/-- The plan for filters that can be handed over exactly. -/
theorem pushDown?_of_exact {config : Config} (hnamed : p.aggregates.all Expr.isNamedAggregate)
    (hexact : p.handover.isExact) : p.plan.pushDown? config =
      if p.unsupported.isEmpty then
        p.filteredScan.wholePlan? p.groupBy p.supported p.handover.pushed
      else
        p.filteredScan.splitPlan? config p.groupBy p.supported p.unsupported p.handover.pushed := by
  rw [pushDown?_plan, if_pos hnamed, FilteredScan.plan?, handOverAll_filteredScan,
    filteredScan_definitions, filteredScan_source, if_pos hexact]
  rfl

/-- A source that does not compute none of the aggregates computes them all. -/
theorem supported_of_unsupported_eq_nil (h : p.unsupported = []) : p.supported = p.inlined := by
  refine List.filter_eq_self.mpr fun e he => ?_
  simpa using List.filter_eq_nil_iff.mp h e he

end Pipeline

end QueryPlan
