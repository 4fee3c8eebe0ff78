import QueryPlan.Proofs.Alike
import QueryPlan.Proofs.Pipeline

/-!
# Everything done here

When some filter cannot be handed over exactly, the source is asked for plain rows, and filters,
projection and aggregation follow here.  The rows that come are pruned: they hold only the columns
that something above still reads.  A column forgotten there would read as null and nothing would
fail, so the point is that nothing is forgotten: everything above the scan reads columns asked for
(`among_referencesOf`), and on these a pruned row agrees with the row it was cut from
(`agreeOn_prune`).
-/

set_option autoImplicit false

namespace QueryPlan

/-! ## Rows that agree on some columns -/

namespace Row

/-- Two rows hold the same values in some columns. -/
def AgreeOn (columns : List Column) (row row' : Row) : Prop :=
  ∀ c : Column, c.Among columns → row.cell c.rowKey = row'.cell c.rowKey

/-- A row cut down to some columns, as a source gives it. -/
def prune (columns : List Column) (row : Row) : Row :=
  .ofCells (Source.takeCells (columns.map Column.rowKey) row)

theorem agreeOn_prune {columns : List Column} (h : (columns.map Column.rowKey).Nodup) (row : Row) :
    AgreeOn columns (prune columns row) row := by
  intro c hc
  obtain ⟨d, hd, hkey⟩ := hc.rowKey
  rw [prune, Source.takeCells_eq h, ← hkey]
  refine cell_ofCells (consistent_map fun a _ b _ hab => congrArg row.cell hab) ?_
  exact List.mem_map.mpr ⟨_, List.mem_map_of_mem hd, rfl⟩

end Row

namespace Expr

variable {columns : List Column} {row row' : Row}

theorem eval_agree (h : Row.AgreeOn columns row row') {e : Expr}
    (he : ∀ c ∈ e.columns, c.Among columns) : e.eval row = e.eval row' :=
  eval_congr fun c hc => h c (he c hc)

theorem accept_agree (h : Row.AgreeOn columns row row') {es : List Expr}
    (hes : ∀ e ∈ es, ∀ c ∈ e.columns, c.Among columns) :
    Pipeline.accept es row = Pipeline.accept es row' := by
  rw [Pipeline.accept, Pipeline.accept, Bool.eq_iff_iff, List.all_eq_true, List.all_eq_true]
  exact forall₂_congr fun e he => by rw [truth, truth, eval_agree h (hes e he)]

/-- What expressions read is among their references, when the columns they read have one name
each. -/
theorem among_referencesOf {es : List Expr} (hids : (columns.map Column.id).Nodup)
    (hes : ∀ e ∈ es, ∀ c ∈ e.columns, c.Among columns) {e : Expr} (he : e ∈ es) {c : Column}
    (hc : c ∈ e.columns) : c.Among (referencesOf es) := by
  have hread : ∀ d ∈ es.flatMap Expr.columns, d.Among columns := by
    intro d hd
    obtain ⟨x, hx, hdx⟩ := List.mem_flatMap.mp hd
    exact hes x hx d hdx
  rw [referencesOf_eq]
  exact Column.Among.distinct (List.mem_flatMap.mpr ⟨e, he, hc⟩) hread hids

end Expr

/-! ## The plan -/

theorem Source.scan_columns (s : Source) (columns : List Column) (filters : List Filter)
    (h : s.unknownColumn? filters = none) :
    s.scan { columns, filters } = .ok ((s.matching filters).map (Row.prune columns)) := by
  rw [scan, h]
  rfl

/-- A local filter for several predicates, if there are any. -/
def Physical.filterAll (predicates : List Expr) (input : Physical) : Physical :=
  match Expr.conjunction? predicates with
  | some predicate => .filter predicate input
  | none => input

theorem Physical.run_filterAll {input : Physical} {rows : List Row} (h : input.run = .ok rows)
    (predicates : List Expr) :
    (filterAll predicates input).run = .ok (rows.filter (Pipeline.accept predicates)) := by
  rw [filterAll]
  cases hconj : Expr.conjunction? predicates with
  | some predicate =>
    simp only [run, h]
    exact congrArg Except.ok (List.filter_congr fun row _ => Expr.accepts_conjunction? hconj)
  | none =>
    have hnil : predicates = [] := by
      match predicates with
      | [] => rfl
      | [_] => cases hconj
      | _ :: _ :: _ => cases hconj
    rw [hnil]
    exact h.trans (congrArg Except.ok (List.filter_eq_self.mpr fun _ _ => rfl).symm)

/-- A local projection, if there is one. -/
def Physical.projected (projection : Option (List Expr)) (input : Physical) : Physical :=
  match projection with
  | some exprs => .project exprs input
  | none => input

namespace Pipeline

variable {p : Pipeline}

theorem run_projected (hp : p.WellFormed) {input : Physical} {rows : List Row}
    (h : input.run = .ok rows) : (input.projected p.projection).run = .ok (rows.map p.shape) := by
  cases hproj : p.projection with
  | none =>
    rw [shape_of_none hproj, List.map_id]
    exact h
  | some exprs =>
    simp only [Physical.projected, Physical.run, h, projectEach,
      Expr.mapM_outputKey (hp.projection exprs hproj).named, shape_of_some hproj]
    rfl

/-- The plan that leaves everything but plain rows to be done here. -/
def localPlan (p : Pipeline) : Physical :=
  p.filteredScan.localPlan p.groupBy p.aggregates p.handover

/-- What is read above the scan, filters apart. -/
def readers (p : Pipeline) : List Expr :=
  match p.projection with
  | some exprs => exprs
  | none => p.groupBy.map .col ++ p.aggregates

/-- The columns that the scan is asked for. -/
def needed (p : Pipeline) : List Column := Expr.referencesOf (p.readers ++ p.handover.remaining)

theorem localPlan_eq (p : Pipeline) : p.localPlan = .aggregate false p.groupBy p.aggregates
    (.projected p.projection (.filterAll p.handover.remaining
      (.scan p.source { columns := p.needed, filters := p.handover.pushed }))) := by
  rw [localPlan, needed, readers, filteredScan]
  cases p.projection <;> rfl

theorem columns_readers (hp : p.WellFormed) :
    ∀ e ∈ p.readers ++ p.handover.remaining, ∀ c ∈ e.columns, c.Among p.source.columns := by
  intro e he c hc
  refine Column.Among.trans ?_ hp.scanned
  rcases List.mem_append.mp he with he | he
  · cases hproj : p.projection with
    | some exprs =>
      rw [readers, hproj] at he
      exact (hp.projection exprs hproj).reads e he c hc
    | none =>
      have hout : p.output = p.columns := by rw [output, hproj]
      rw [readers, hproj] at he
      rcases List.mem_append.mp he with he | he
      · obtain ⟨g, hg, rfl⟩ := List.mem_map.mp he
        rw [Expr.columns_col, List.mem_singleton] at hc
        exact hout ▸ hc ▸ hp.groupBy g hg
      · exact hout ▸ hp.aggregates e he c hc
  · exact columns_filters hp (Source.mem_of_mem_remaining he) c hc

/-- What is read above the scan is asked for. -/
theorem among_needed (hp : p.WellFormed) {e : Expr} (he : e ∈ p.readers ++ p.handover.remaining) :
    ∀ c ∈ e.columns, c.Among p.needed :=
  fun _ hc => Expr.among_referencesOf hp.declared (columns_readers hp) he hc

theorem agreeOn_needed (p : Pipeline) (row : Row) :
    Row.AgreeOn p.needed (row.prune p.needed) row :=
  Row.agreeOn_prune (Column.nodup_map_rowKey_distinct _) row

/-- What is grouped here comes from the rows kept, each pruned and then projected. -/
theorem run_localPlan_eq (hp : p.WellFormed) : p.localPlan.run =
    groupAndFold ((p.kept.map (Row.prune p.needed)).map p.shape) (p.groupBy.map .col)
      p.aggregates := by
  have hscan : (Physical.scan p.source { columns := p.needed, filters := p.handover.pushed }).run =
      .ok ((p.source.matching p.handover.pushed).map (Row.prune p.needed)) :=
    p.source.scan_columns _ _ (Source.unknownColumn?_handOverAll _)
  -- the pruned rows hold what the remaining predicates read
  have hkept : ((p.source.matching p.handover.pushed).map (Row.prune p.needed)).filter
      (accept p.handover.remaining) = p.kept.map (Row.prune p.needed) := by
    rw [List.filter_map, ← filter_matching hp]
    refine congrArg _ (List.filter_congr fun row _ => ?_)
    exact Expr.accept_agree (p.agreeOn_needed row) fun e he =>
      among_needed hp (List.mem_append_right _ he)
  have hfiltered := Physical.run_filterAll hscan p.handover.remaining
  rw [hkept] at hfiltered
  rw [localPlan_eq, Physical.run, run_projected hp hfiltered]
  rfl

/-- A pruned row has the shape of the row it was cut from, or agrees with it on what is grouped. -/
theorem agreeOn_shape (hp : p.WellFormed) (row : Row) (e : Expr)
    (he : e ∈ p.groupBy.map .col ++ p.aggregates) :
    ∀ c ∈ e.columns,
      (p.shape (row.prune p.needed)).cell c.rowKey = (p.shape row).cell c.rowKey := by
  intro c hc
  cases hproj : p.projection with
  | none =>
    have hreaders : p.readers = p.groupBy.map .col ++ p.aggregates := by rw [readers, hproj]
    rw [shape_of_none hproj]
    exact p.agreeOn_needed row c
      (among_needed hp (List.mem_append_left _ (hreaders ▸ he)) c hc)
  | some exprs =>
    have hreaders : p.readers = exprs := by rw [readers, hproj]
    have hexprs : exprs.map (Expr.eval (row.prune p.needed)) = exprs.map (Expr.eval row) :=
      List.map_congr_left fun x hx => Expr.eval_agree (p.agreeOn_needed row)
        (among_needed hp (List.mem_append_left _ (hreaders ▸ hx)))
    rw [shape_of_some hproj]
    simp only [projectOne, hexprs]

/-- **Leaving everything but plain rows to be done here changes nothing.** -/
theorem run_localPlan (hp : p.WellFormed) (hnamed : p.aggregates.all Expr.isNamedAggregate) :
    p.localPlan.run = p.direct := by
  obtain ⟨ns, hns⟩ := exists_calls hnamed
  let Q (row row' : Row) : Prop := ∃ r, row = p.shape (r.prune p.needed) ∧ row' = p.shape r
  have halike {e x : Expr} (he : e ∈ p.groupBy.map .col ++ p.aggregates)
      (hx : ∀ c ∈ x.columns, c ∈ e.columns) : x.Alike Q x := by
    rintro _ _ ⟨r, rfl, rfl⟩
    exact Expr.eval_congr fun c hc => agreeOn_shape hp r e he c (hx c hc)
  rw [run_localPlan_eq hp, direct_eq hp, hns]
  refine groupAndFold_congr (Q := Q) ?_ ?_ ?_ ?_
  · rw [List.map_map, List.forall₂_map_left_iff, List.forall₂_map_right_iff]
    exact List.forall₂_same.mpr fun r _ => ⟨r, rfl, rfl⟩
  · exact List.forall₂_same.mpr fun e he =>
      ⟨rfl, halike (List.mem_append_left _ he) fun _ hc => hc⟩
  · intro e he
    obtain ⟨g, -, rfl⟩ := List.mem_map.mp he
    rfl
  · refine List.forall₂_same.mpr fun n hn => ⟨rfl, .of_args rfl rfl ?_⟩
    have hmem : n.expr ∈ p.groupBy.map .col ++ p.aggregates :=
      List.mem_append_right _ (hns ▸ List.mem_map_of_mem hn)
    exact List.forall₂_same.mpr fun x hx =>
      halike hmem fun c hc => NamedCall.mem_columns_of_mem_args hx hc

theorem pushDown?_of_inexact {config : Config} (hnamed : p.aggregates.all Expr.isNamedAggregate)
    (hexact : p.handover.isExact = false) : p.plan.pushDown? config =
      if config.exactFiltersOnly then none else some p.localPlan := by
  rw [pushDown?_plan, if_pos hnamed, FilteredScan.plan?, handOverAll_filteredScan, hexact]
  rfl

/-- **The fallback is exact.**  Where some filter cannot be handed over exactly and the settings
leave it to be done here, there is a plan, and it gives what the aggregation means: the same rows,
or the same failure. -/
theorem pushDown?_inexact {config : Config} (hp : p.WellFormed)
    (hnamed : p.aggregates.all Expr.isNamedAggregate) (hexact : p.handover.isExact = false)
    (hconfig : config.exactFiltersOnly = false) :
    p.plan.pushDown? config = some p.localPlan ∧ p.localPlan.run = p.direct := by
  refine ⟨?_, run_localPlan hp hnamed⟩
  rw [pushDown?_of_inexact hnamed hexact, if_neg (by simp [hconfig])]

/-- A ledger whose source takes no filter on an amount. -/
def Ledger.unfiltered : Pipeline := Ledger.plan (fun c => c != Ledger.amount) fun _ => true

set_option maxRecDepth 10000 in
theorem pushDown?_inexact_ledger :
    ∃ physical, Ledger.unfiltered.plan.pushDown? { exactFiltersOnly := false } = some physical ∧
      physical.run = .ok [Ledger.summary "east" 6 1, Ledger.summary "north" 5 1] := by
  have h : Ledger.unfiltered.plan.pushDown? { exactFiltersOnly := false } =
        some Ledger.unfiltered.localPlan ∧
      Ledger.unfiltered.localPlan.run = Ledger.unfiltered.direct :=
    pushDown?_inexact (by decide) (by decide) (by decide) rfl
  exact ⟨_, h.1, h.2.trans rfl⟩

end Pipeline

end QueryPlan
