import QueryPlan.Proofs.Grouping
import QueryPlan.Proofs.Handover
import QueryPlan.Pushdown.Aggregation

/-!
# Aggregations over one source

A `Pipeline` is a partial aggregation over filters, at most one projection, filters again, and the
scan of a source: the plans that can be handed to a source, and the only ones
(`Pipeline.exists_of_pushDown?`).

* `Pipeline.direct` is what such a plan means.  It takes every stored row as it is, filters and
  projects here, and groups and folds here; nothing is asked of the source but its rows.
* `Pipeline.WellFormed` collects what is promised of a plan: every part reads what its input gives,
  under the names given there, and new identities are new.
* `Pipeline.pushDown?_plan` says what the planner makes of the parts of such a plan.

What the planner does with filters and grouping columns is to read them below the projection.  Under
the promises everything above the projection can be read there (`eval_below`), and the columns read
are then those of the scan (`columns_below`).  Hence all filters can be tested on the stored rows
(`accept_filters`), and the rows to be grouped are images of the rows kept by them (`rows_eq`).

The source tests the filters that it was handed, and what remains of the predicates is tested here.
Wherever they are tested, the same rows are kept (`filter_matching`), and if nothing remains then
the rows that match for the source are those rows (`matching_eq`).

At the end stands a small plan over a ledger, for what is said of plans to be tried on.
-/

set_option autoImplicit false

namespace QueryPlan

/-! ## The plans -/

namespace Plan

/-- A plan under filters, the first one at the top. -/
def under (predicates : List Expr) (p : Plan) : Plan := predicates.foldr filter p

theorem peelFilters_under (predicates : List Expr) {p : Plan} (hp : p.peelFilters = ([], p)) :
    (under predicates p).peelFilters = (predicates.flatMap Expr.conjuncts, p) := by
  induction predicates with
  | nil => exact hp
  | cons e es ih =>
    show (filter e (under es p)).peelFilters = _
    rw [peelFilters, ih, List.flatMap_cons]

theorem eq_under (p : Plan) : ∃ predicates bottom, p = under predicates bottom ∧
    bottom.peelFilters = ([], bottom) ∧ p.peelFilters.2 = bottom := by
  induction p with
  | filter e input ih =>
    obtain ⟨es, bottom, hinput, hbottom, hpeel⟩ := ih
    exact ⟨e :: es, bottom, congrArg (filter e) hinput, hbottom, hpeel⟩
  | _ => exact ⟨[], _, rfl, rfl, rfl⟩

end Plan

/-- A partial aggregation over filters, at most one projection, filters, and a scan. -/
structure Pipeline where
  table : String
  /-- The columns of the scan. -/
  columns : List Column
  source : Source
  /-- The filters below the projection, from the top. -/
  below : List Expr
  projection : Option (List Expr)
  /-- The filters above the projection, from the top. -/
  above : List Expr
  groupBy : List Column
  aggregates : List Expr

namespace Pipeline

/-- The projection over a plan, if there is one. -/
def projected (p : Pipeline) (input : Plan) : Plan :=
  match p.projection with
  | some exprs => .project exprs input
  | none => input

/-- What is aggregated. -/
def input (p : Pipeline) : Plan :=
  .under p.above (p.projected (.under p.below (.scan p.table p.columns p.source)))

/-- The whole plan. -/
def plan (p : Pipeline) : Plan := .aggregate true p.groupBy p.aggregates p.input

/-! ## What a plan means -/

/-- Whether some predicates all accept a row. -/
def accept (predicates : List Expr) (row : Row) : Bool :=
  predicates.all fun e => (e.truth row).accepts

/-- The rows to be grouped: the stored rows as the plan keys them, filtered, projected, and
filtered again. -/
def rows (p : Pipeline) : Except PlanError (List Row) := do
  let scanned := p.source.rows.map p.source.engineRow
  let kept := scanned.filter (accept p.below)
  let projected ← match p.projection with
    | some exprs => projectEach kept exprs
    | none => .ok kept
  return projected.filter (accept p.above)

/-- What a plan means, with everything done here. -/
def direct (p : Pipeline) : Except PlanError (List Row) := do
  groupAndFold (← p.rows) (p.groupBy.map .col) p.aggregates

/-! ## What is promised of a plan -/

/-- The columns of what is aggregated. -/
def output (p : Pipeline) : List Column :=
  match p.projection with
  | some exprs => exprs.filterMap Expr.output?
  | none => p.columns

/-- The columns that the aggregates give. -/
def results (p : Pipeline) : List Column := p.aggregates.filterMap Expr.output?

/-- Every part reads only what its input gives, under the names given there, and new identities are
new. -/
structure WellFormed (p : Pipeline) : Prop where
  /-- The source declares each column once. -/
  declared : (p.source.columns.map Column.id).Nodup
  /-- The scan gives declared columns. -/
  scanned : ∀ c ∈ p.columns, c.Among p.source.columns
  below : ∀ e ∈ p.below, ∀ c ∈ e.columns, c.Among p.columns
  projection : ∀ exprs ∈ p.projection, Projects p.source.columns p.columns exprs
  above : ∀ e ∈ p.above, ∀ c ∈ e.columns, c.Among p.output
  groupBy : ∀ c ∈ p.groupBy, c.Among p.output
  aggregates : ∀ e ∈ p.aggregates, ∀ c ∈ e.columns, c.Among p.output
  /-- The results are new columns. -/
  fresh : ∀ o ∈ p.results, ∀ c ∈ p.source.columns ++ p.output, o.id ≠ c.id
  /-- Each result is given once. -/
  results : (p.results.map Column.id).Nodup
  /-- A list in memory is shorter than what a signed word counts, so every count fits one. -/
  inMemory : p.source.rows.length < 2 ^ 63

instance (p : Pipeline) : Decidable p.WellFormed :=
  decidable_of_iff ((p.source.columns.map Column.id).Nodup ∧
    (∀ c ∈ p.columns, c.Among p.source.columns) ∧
    (∀ e ∈ p.below, ∀ c ∈ e.columns, c.Among p.columns) ∧
    (∀ exprs ∈ p.projection, Projects p.source.columns p.columns exprs) ∧
    (∀ e ∈ p.above, ∀ c ∈ e.columns, c.Among p.output) ∧
    (∀ c ∈ p.groupBy, c.Among p.output) ∧
    (∀ e ∈ p.aggregates, ∀ c ∈ e.columns, c.Among p.output) ∧
    (∀ o ∈ p.results, ∀ c ∈ p.source.columns ++ p.output, o.id ≠ c.id) ∧
    (p.results.map Column.id).Nodup ∧ p.source.rows.length < 2 ^ 63)
    ⟨fun ⟨h₁, h₂, h₃, h₄, h₅, h₆, h₇, h₈, h₉, h⟩ => ⟨h₁, h₂, h₃, h₄, h₅, h₆, h₇, h₈, h₉, h⟩,
      fun ⟨h₁, h₂, h₃, h₄, h₅, h₆, h₇, h₈, h₉, h⟩ => ⟨h₁, h₂, h₃, h₄, h₅, h₆, h₇, h₈, h₉, h⟩⟩

/-- The shape that the planner finds. -/
def filteredScan (p : Pipeline) : FilteredScan :=
  match p.projection with
  | some exprs => ⟨some exprs, p.below.flatMap Expr.conjuncts ++
      (p.above.flatMap Expr.conjuncts).map (readThrough (definitionsOf exprs)), p.source⟩
  | none => ⟨none, p.above.flatMap Expr.conjuncts ++ p.below.flatMap Expr.conjuncts, p.source⟩

/-- What the projection defines. -/
def definitions (p : Pipeline) : IdMap Expr := definitionsOf (p.projection.getD [])

/-- The filters, all of them tested below the projection. -/
def filters (p : Pipeline) : List Expr := p.filteredScan.filters

/-- What the source is handed of the filters. -/
def handover (p : Pipeline) : Handover := p.source.handOverAll p.filters

theorem filteredScan_source (p : Pipeline) : p.filteredScan.source = p.source := by
  rw [filteredScan]
  split <;> rfl

theorem filteredScan_definitions (p : Pipeline) : p.filteredScan.definitions = p.definitions := by
  rw [filteredScan, definitions]
  cases p.projection <;> rfl

theorem handOverAll_filteredScan (p : Pipeline) :
    p.filteredScan.source.handOverAll p.filteredScan.filters = p.handover := by
  rw [filteredScan_source]
  rfl

/-- The aggregates as they are below the projection. -/
def inlined (p : Pipeline) : List Expr := p.aggregates.map (readThrough p.definitions)

theorem ofPlan?_input (p : Pipeline) : FilteredScan.ofPlan? p.input = some p.filteredScan := by
  cases hproj : p.projection with
  | none =>
    have hinput : p.input = .under (p.above ++ p.below) (.scan p.table p.columns p.source) := by
      rw [input, projected, hproj, Plan.under, Plan.under, Plan.under, List.foldr_append]
    rw [FilteredScan.ofPlan?, hinput, Plan.peelFilters_under _ rfl, filteredScan, hproj,
      List.flatMap_append]
  | some exprs =>
    have hbelow := Plan.peelFilters_under p.below (p := .scan p.table p.columns p.source) rfl
    rw [FilteredScan.ofPlan?, input, projected, hproj, Plan.peelFilters_under _ rfl,
      filteredScan, hproj]
    simp only [hbelow]

theorem pushDown?_plan (config : Config) (p : Pipeline) : p.plan.pushDown? config =
    if p.aggregates.all Expr.isNamedAggregate then
      p.filteredScan.plan? config p.groupBy p.aggregates
    else none := by
  rw [plan, Plan.pushDown?, ofPlan?_input]
  rfl

theorem named_of_pushDown? {config : Config} {p : Pipeline} {physical : Physical}
    (h : p.plan.pushDown? config = some physical) : p.aggregates.all Expr.isNamedAggregate := by
  rw [pushDown?_plan] at h
  split at h
  · assumption
  · cases h

/-- Named aggregates are calls under names. -/
theorem exists_calls {p : Pipeline} (h : p.aggregates.all Expr.isNamedAggregate) :
    ∃ ns : List NamedCall, p.aggregates = ns.map NamedCall.expr :=
  NamedCall.exists_of_isNamedAggregate (List.all_eq_true.mp h)

/-- **Only these plans can be handed to a source.** -/
theorem exists_of_pushDown? {config : Config} {plan : Plan} {physical : Physical}
    (h : plan.pushDown? config = some physical) : ∃ p : Pipeline, p.plan = plan := by
  have hshape {input : Plan} {s : FilteredScan} (hs : FilteredScan.ofPlan? input = some s)
      (groupBy : List Column) (aggregates : List Expr) :
      ∃ p : Pipeline, p.plan = .aggregate true groupBy aggregates input := by
    obtain ⟨above, bottom, rfl, hbottom, hpeel⟩ := input.eq_under
    rw [FilteredScan.ofPlan?, Plan.peelFilters_under _ hbottom] at hs
    cases bottom with
    | scan table columns source =>
      exact ⟨⟨table, columns, source, [], none, above, groupBy, aggregates⟩, rfl⟩
    | project exprs inner =>
      obtain ⟨below, bottom, rfl, hbottom, -⟩ := inner.eq_under
      simp only [Plan.peelFilters_under _ hbottom] at hs
      cases bottom with
      | scan table columns source =>
        exact ⟨⟨table, columns, source, below, some exprs, above, groupBy, aggregates⟩, rfl⟩
      | _ => cases hs
    | _ => cases hs
  cases plan with
  | aggregate isPartial groupBy aggregates input =>
    cases isPartial with
    | false => cases h
    | true =>
      rw [Plan.pushDown?] at h
      split at h
      · obtain ⟨s, hs, -⟩ := Option.bind_eq_some_iff.mp h
        exact hshape hs groupBy aggregates
      · cases h
  | _ => cases h

/-! ## Reading below the projection -/

/-- What the projection makes of a row. -/
def shape (p : Pipeline) (row : Row) : Row :=
  match p.projection with
  | some exprs => projectOne ((exprs.filterMap Expr.output?).map Column.rowKey) exprs row
  | none => row

/-- The stored rows that all filters keep, as the plan keys them. -/
def kept (p : Pipeline) : List Row :=
  (p.source.rows.map p.source.engineRow).filter fun row =>
    accept p.below row && accept p.above (p.shape row)

section Reading

variable {p : Pipeline}

theorem kept_length_le (p : Pipeline) : p.kept.length ≤ p.source.rows.length :=
  (List.length_filter_le ..).trans (List.length_map ..).le

theorem shape_of_none (hproj : p.projection = none) : p.shape = id :=
  funext fun row => by rw [shape, hproj]; rfl

theorem shape_of_some {exprs : List Expr} (hproj : p.projection = some exprs) :
    p.shape = projectOne ((exprs.filterMap Expr.output?).map Column.rowKey) exprs :=
  funext fun row => by rw [shape, hproj]

theorem readThrough_definitions (hproj : p.projection = none) (e : Expr) :
    readThrough p.definitions e = e := by
  rw [definitions, hproj]
  rfl

/-- **What is read above the projection can be read below it.** -/
theorem eval_below (hp : p.WellFormed) {e : Expr} (he : ∀ c ∈ e.columns, c.Among p.output)
    (row : Row) : (readThrough p.definitions e).eval row = e.eval (p.shape row) := by
  cases hproj : p.projection with
  | none => rw [readThrough_definitions hproj, shape_of_none hproj, id]
  | some exprs =>
    rw [output, hproj] at he
    rw [definitions, shape_of_some hproj, hproj]
    exact (hp.projection exprs hproj).eval_readThrough hp.scanned row he

theorem columns_below (hp : p.WellFormed) {e : Expr} (he : ∀ c ∈ e.columns, c.Among p.output) :
    ∀ d ∈ (readThrough p.definitions e).columns, d.Among p.columns := by
  cases hproj : p.projection with
  | none =>
    rw [output, hproj] at he
    rwa [readThrough_definitions hproj]
  | some exprs =>
    rw [output, hproj] at he
    rw [definitions, hproj]
    exact (hp.projection exprs hproj).columns_readThrough hp.scanned he

theorem accept_conjuncts (es : List Expr) (row : Row) :
    accept (es.flatMap Expr.conjuncts) row = accept es row := by
  rw [accept, accept, List.all_flatMap]
  exact congrArg es.all (funext (Expr.all_conjuncts row))

/-- The filters, with those above the projection read through it. -/
theorem filters_perm (p : Pipeline) : p.filters.Perm (p.below.flatMap Expr.conjuncts ++
    (p.above.flatMap Expr.conjuncts).map (readThrough p.definitions)) := by
  cases hproj : p.projection with
  | none =>
    have hmap (es : List Expr) : es.map (readThrough p.definitions) = es :=
      (List.map_congr_left fun e _ => readThrough_definitions hproj e).trans es.map_id
    rw [filters, filteredScan, hproj, hmap]
    exact List.perm_append_comm
  | some exprs =>
    rw [filters, filteredScan, definitions, hproj]
    rfl

/-- All filters can be tested below the projection. -/
theorem accept_filters (hp : p.WellFormed) (row : Row) :
    accept p.filters row = (accept p.below row && accept p.above (p.shape row)) := by
  have habove : accept ((p.above.flatMap Expr.conjuncts).map (readThrough p.definitions)) row =
      accept p.above (p.shape row) := by
    rw [← accept_conjuncts p.above, accept, accept, List.all_map, Bool.eq_iff_iff,
      List.all_eq_true, List.all_eq_true]
    refine forall₂_congr fun q hq => ?_
    obtain ⟨e, he, hqe⟩ := List.mem_flatMap.mp hq
    rw [Function.comp_apply, Expr.truth, eval_below hp fun c hc =>
      hp.above e he c (Expr.mem_columns_of_mem_conjuncts hqe hc), Expr.truth]
  rw [accept, p.filters_perm.all_eq, List.all_append]
  exact congrArg₂ _ (accept_conjuncts p.below row) habove

/-- Filters read the scan. -/
theorem columns_filters (hp : p.WellFormed) {q : Expr} (hq : q ∈ p.filters) :
    ∀ c ∈ q.columns, c.Among p.columns := by
  rcases List.mem_append.mp (p.filters_perm.mem_iff.mp hq) with hq | hq
  · obtain ⟨e, he, hqe⟩ := List.mem_flatMap.mp hq
    exact fun c hc => hp.below e he c (Expr.mem_columns_of_mem_conjuncts hqe hc)
  · obtain ⟨x, hx, rfl⟩ := List.mem_map.mp hq
    obtain ⟨e, he, hxe⟩ := List.mem_flatMap.mp hx
    exact columns_below hp fun c hc =>
      hp.above e he c (Expr.mem_columns_of_mem_conjuncts hxe hc)

/-- **The rows to be grouped are the images of the rows kept.** -/
theorem rows_eq (hp : p.WellFormed) : p.rows = .ok (p.kept.map p.shape) := by
  have hkept : p.kept = ((p.source.rows.map p.source.engineRow).filter (accept p.below)).filter
      fun row => accept p.above (p.shape row) := by
    rw [kept, List.filter_filter]
    exact List.filter_congr fun row _ => Bool.and_comm ..
  have hmap (rows : List Row) : (rows.map p.shape).filter (accept p.above) =
      (rows.filter fun row => accept p.above (p.shape row)).map p.shape := List.filter_map
  rw [rows, hkept, ← hmap]
  cases hproj : p.projection with
  | none =>
    rw [shape_of_none hproj, List.map_id]
    rfl
  | some exprs =>
    rw [shape_of_some hproj]
    simp only [projectEach, Expr.mapM_outputKey (hp.projection exprs hproj).named]
    rfl

theorem direct_eq (hp : p.WellFormed) :
    p.direct = groupAndFold (p.kept.map p.shape) (p.groupBy.map .col) p.aggregates := by
  rw [direct, rows_eq hp]
  rfl

/-- The rows that the filters handed over leave, tested for what remains, are the rows kept. -/
theorem filter_matching (hp : p.WellFormed) :
    (p.source.matching p.handover.pushed).filter (accept p.handover.remaining) = p.kept := by
  rw [Source.matching, kept, List.filter_map, List.filter_map, List.filter_filter]
  refine congrArg (List.map _) (List.filter_congr fun row _ => ?_)
  rw [Function.comp_apply, Function.comp_apply, ← accept_filters hp, accept, accept,
    Source.accepts_handOverAll fun q hq c hc _ => (columns_filters hp hq c hc).trans hp.scanned]
  exact Bool.and_comm ..

theorem matching_eq (hp : p.WellFormed) (hexact : p.handover.isExact) :
    p.source.matching p.handover.pushed = p.kept := by
  rw [← filter_matching hp, List.isEmpty_iff.mp hexact]
  exact (List.filter_eq_self.mpr fun _ _ => rfl).symm

end Reading

/-! ## A small plan

The entries of a ledger, without those of one region.  What is spent is an amount under another
name. -/

namespace Ledger

def region : Column := .plain 1 "region"

def amount : Column := .plain 2 "amount"

def spent : Column := .plain 3 "spent"

def total : Column := .plain 4 "total"

def kinds : Column := .plain 5 "kinds"

/-- An entry as the source stores it. -/
def entry (region : String) (amount : Int) : Row :=
  .ofCells [("REGION", .str region), ("AMOUNT", .int amount)]

/-- A row of the result for one region. -/
def summary (region : String) (total kinds : Int) : Row :=
  .ofCells [("region#1", .str region), ("total#4", .int total), ("kinds#5", .int kinds)]

/-- Whether an aggregate is a sum. -/
def isSum (e : Expr) : Bool := e.aggregateCall?.any fun call => call.func == .sum

/-- What is spent in each region, and in how many kinds of amounts. -/
def plan (takesFiltersOn : Column → Bool) (takesAggregate : Expr → Bool) : Pipeline where
  table := "ledger"
  columns := [region, amount]
  source :=
    { name := "ledger"
      declared := [(region, "REGION"), (amount, "AMOUNT")]
      rows := [entry "east" 3, entry "west" 1, entry "north" 5, entry "east" 3]
      takesFiltersOn, takesAggregate }
  below := [.isNull (.col amount) true]
  projection := some [.col region, .named (.col amount) spent]
  above := [.compare (.col region) .ne (.lit (.str "west"))]
  groupBy := [region]
  aggregates := [.named (.aggregate .sum [.col spent] false) total,
    .named (.aggregate .count [.col spent] true) kinds]

end Ledger

end Pipeline

end QueryPlan
