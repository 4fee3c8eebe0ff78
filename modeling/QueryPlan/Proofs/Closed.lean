import QueryPlan.Proofs.SplitPlan

/-!
# Nothing is read that is not given

A column that an operator reads and its input does not give is no error: it reads as a null.  So no
failure tells when a column is lost between the parts of a physical plan.  What excludes it is that
the plan is closed: every local operator reads only columns that its input gives, and what the
request has to be computed reads only columns that the request asks for (`Physical.Closed`).

`Plan.pushDown?_closed` says that closed plans become closed physical plans, with the same columns
in their output.  Two columns are the same here when they have the same identity
(`Column.GivenBy`); names do not matter, and nothing is assumed of the identities, be they given
twice or defined through one another.

* **Below a projection.**  An expression over the outputs of a projection reads, once read through
  it, only what the projection itself reads (`Expr.givenBy_readThrough`).  Reading through goes on
  in what it has put in, so this needs a property that every replacement keeps
  (`Expr.forall_columns_expand`): being an output, or being read by the projection.
* **The request.**  It asks for what the projection reads, or for all that is computed, and so it is
  closed however it is pruned (`closed_prunedScan`).
* **What the source computes.**  Groups and aggregates are read through the projection before they
  are handed over, so they read what the projection reads (`closed_groupedScan`).
* **The three plans.**  The local plan has the operators of the plan (`closed_localPlan`), and the
  whole plan is a scan that groups (`closed_wholePlan`).  In a split plan the late calls read what
  the source groups by, since the groups were extended by what they read (`closed_splitGroups`), and
  the functions that merge read the columns of the early calls (`closed_finals`).

A split plan gives the columns of the late calls before those of the early ones.  So its output is
that of the plan up to order only, and for the other two plans it is the same list.
-/

set_option autoImplicit false

namespace QueryPlan

/-! ## Columns by their identities -/

namespace Column

/-- A column is given by a list that has one of its identity. -/
def GivenBy (columns : List Column) (c : Column) : Prop := ∃ d ∈ columns, d.id = c.id

instance (columns : List Column) : DecidablePred (GivenBy columns) :=
  fun _ => inferInstanceAs (Decidable (∃ _ ∈ _, _))

variable {columns columns' : List Column} {c : Column}

theorem givenBy_of_mem (h : c ∈ columns) : c.GivenBy columns := ⟨c, h, rfl⟩

theorem GivenBy.trans (h : c.GivenBy columns) (hsub : ∀ d ∈ columns, d.GivenBy columns') :
    c.GivenBy columns' := by
  obtain ⟨d, hd, hid⟩ := h
  obtain ⟨e, he, heid⟩ := hsub d hd
  exact ⟨e, he, heid.trans hid⟩

theorem GivenBy.mono (h : c.GivenBy columns) (hsub : columns ⊆ columns') : c.GivenBy columns' :=
  h.trans fun _ hd => givenBy_of_mem (hsub hd)

theorem givenBy_distinct_iff : c.GivenBy (distinct columns) ↔ c.GivenBy columns := by
  refine ⟨fun h => h.mono fun d => mem_of_mem_distinct, fun h => h.trans fun d hd => ?_⟩
  exact exists_mem_distinct hd

end Column

namespace Expr

theorem givenBy_referencesOf_iff {es : List Expr} {c : Column} :
    c.GivenBy (referencesOf es) ↔ c.GivenBy (es.flatMap columns) := by
  rw [referencesOf_eq, Column.givenBy_distinct_iff]

/-- Where a list is nothing but columns, it gives what it reads. -/
theorem filterMap_output?_of_all_isColumn {es : List Expr} (h : es.all isColumn = true) :
    es.filterMap output? = es.flatMap columns := by
  induction es with
  | nil => rfl
  | cons e rest ih =>
    rw [List.all_cons, Bool.and_eq_true] at h
    cases e with
    | col c => exact congrArg (List.cons c) (ih h.2)
    | _ => cases h.1

theorem flatMap_columns_map_col (columns : List Column) :
    (columns.map col).flatMap Expr.columns = columns := by
  rw [List.flatMap_map]
  exact List.flatMap_singleton' columns

/-- A conjunction reads what its operands read. -/
theorem columns_of_conjunction? {es : List Expr} {e : Expr} (h : conjunction? es = some e) :
    e.columns = es.flatMap columns := by
  match es with
  | [] => cases h
  | [_] => cases h; exact (List.flatMap_singleton ..).symm
  | _ :: _ :: _ => cases h; exact columns_eq rfl

/-! ## Reading through a projection -/

variable {P : Column → Prop}

/-- A property of the columns read is kept where it is kept in each part. -/
theorem forall_columns_mapChildren {g : Expr → Expr} {e : Expr} (he : ∀ c ∈ e.columns, P c)
    (hg : ∀ x ∈ e.children, (∀ c ∈ x.columns, P c) → ∀ d ∈ (g x).columns, P d) :
    ∀ d ∈ (e.mapChildren g).columns, P d := by
  cases h : e.column? with
  | some c =>
    obtain rfl := eq_col_of_column? h
    exact he
  | none =>
    intro d hd
    rw [columns_eq ((column?_mapChildren g e).trans h), children_mapChildren] at hd
    obtain ⟨_, hgx, hd⟩ := List.mem_flatMap.mp hd
    obtain ⟨x, hx, rfl⟩ := List.mem_map.mp hgx
    exact hg x hx (fun c hc => he c (mem_columns_of_mem_children hx hc)) d hd

/-- A property of the columns read is kept by expanding if every replacement keeps it, however
deep the expansion goes. -/
theorem forall_columns_expand {f : Column → Expr} (hf : ∀ c, P c → ∀ d ∈ (f c).columns, P d)
    (depth : Nat) {e : Expr} (he : ∀ c ∈ e.columns, P c) :
    ∀ d ∈ (e.expand f depth).columns, P d := by
  induction depth generalizing e with
  | zero => exact he
  | succ depth ih =>
    intro d hd
    rw [expand, columns_bind] at hd
    obtain ⟨c, hc, hd⟩ := List.mem_flatMap.mp hd
    exact forall_columns_mapChildren (hf c (he c hc)) (fun x _ hx => ih hx) d hd

section Projection

variable {exprs : List Expr}

/-- What is defined is part of the list. -/
theorem mem_columns_of_definition {id : ColumnId} {e : Expr}
    (h : (definitionsOf exprs).get? id = some e) {c : Column} (hc : c ∈ e.columns) :
    c ∈ exprs.flatMap columns := by
  obtain ⟨output, hmem, -⟩ := exists_alias_of_definition h
  exact List.mem_flatMap.mpr ⟨_, hmem, mem_columns_named.mpr hc⟩

/-- An output without a definition is a column passed on, or an alias that reads its own identity:
either way the list reads it. -/
theorem givenBy_of_no_definition {c : Column} (hc : c.GivenBy (exprs.filterMap output?))
    (h : (definitionsOf exprs).get? c.id = none) : c.GivenBy (exprs.flatMap columns) := by
  obtain ⟨d, hd, hid⟩ := hc
  obtain ⟨x, hx, hout⟩ := List.mem_filterMap.mp hd
  have hread {c' : Column} (hc' : c' ∈ x.columns) (hid' : c'.id = d.id) :
      c.GivenBy (exprs.flatMap columns) :=
    ⟨c', List.mem_flatMap.mpr ⟨x, hx, hc'⟩, hid'.trans hid⟩
  cases x with
  | col x =>
    cases hout
    exact hread List.mem_cons_self rfl
  | named operand output =>
    obtain rfl : output = d := Option.some.inj hout
    by_cases hself : ∃ c' ∈ operand.columns, c'.id = output.id
    · obtain ⟨c', hc', hid'⟩ := hself
      exact hread (mem_columns_named.mpr hc') hid'
    · have hdef : (output.id, operand) ∈ exprs.filterMap definition? :=
        List.mem_filterMap.mpr ⟨_, hx, definition?_eq_some_iff.mpr
          ⟨output, rfl, rfl, fun c' hc' hid' => hself ⟨c', hc', hid'⟩⟩⟩
      have hsome : ((definitionsOf exprs).get? output.id).isSome := IdMap.isSome_get?_ofList hdef
      rw [hid, h] at hsome
      cases hsome
  | _ => cases hout

/-- What an output stands for reads what the list reads. -/
theorem givenBy_definitionOf {c : Column}
    (hc : c.GivenBy (exprs.filterMap output?) ∨ c.GivenBy (exprs.flatMap columns)) :
    ∀ d ∈ ((definitionsOf exprs).definitionOf c).columns, d.GivenBy (exprs.flatMap columns) := by
  intro d hd
  rw [IdMap.definitionOf] at hd
  cases hget : (definitionsOf exprs).get? c.id with
  | some e =>
    rw [hget] at hd
    exact Column.givenBy_of_mem (mem_columns_of_definition hget hd)
  | none =>
    rw [hget, Option.getD_none, columns_col, List.mem_singleton] at hd
    subst hd
    exact hc.elim (givenBy_of_no_definition · hget) id

/-- **An expression over the outputs of a projection, read through it, reads what the projection
reads.**  One replacement gets there, and further ones do not leave. -/
theorem givenBy_readThrough {e : Expr} (he : ∀ c ∈ e.columns, c.GivenBy (exprs.filterMap output?)) :
    ∀ d ∈ (readThrough (definitionsOf exprs) e).columns, d.GivenBy (exprs.flatMap columns) := by
  intro d hd
  rw [readThrough] at hd
  cases hdepth : (definitionsOf exprs).entries.length with
  | zero =>
    -- nothing is defined, so the outputs read are themselves read by the list
    rw [hdepth] at hd
    have hnone : (definitionsOf exprs).get? d.id = none := by
      rw [IdMap.get?, List.length_eq_zero_iff.mp hdepth]
      rfl
    exact givenBy_of_no_definition (he d hd) hnone
  | succ depth =>
    rw [hdepth, expand, columns_bind] at hd
    obtain ⟨c, hc, hd⟩ := List.mem_flatMap.mp hd
    have hfirst := givenBy_definitionOf (.inl (he c hc))
    refine forall_columns_mapChildren hfirst (fun x _ hx => ?_) d hd
    exact forall_columns_expand (fun c hc => givenBy_definitionOf (.inr hc)) depth hx

end Projection

end Expr

/-! ## Closed plans -/

/-- Every operator reads only columns that its inputs give. -/
def Plan.Closed (p : Plan) : Prop :=
  ∀ n ∈ p.nodes, ∀ c ∈ n.ownReferences, c.GivenBy (n.children.flatMap output)

instance (p : Plan) : Decidable p.Closed :=
  inferInstanceAs (Decidable (∀ n ∈ p.nodes, ∀ c ∈ n.ownReferences, _))

namespace Physical

/-- Every local operator reads only columns that its input gives, and the groups and aggregates of
the request read only columns that the request asks for. -/
def Closed : Physical → Prop
  | aggregate _ groupBy aggregates input =>
    (∀ c ∈ groupBy ++ aggregates.flatMap Expr.columns, c.GivenBy input.output) ∧ Closed input
  | filter predicate input => (∀ c ∈ predicate.columns, c.GivenBy input.output) ∧ Closed input
  | project exprs input =>
    (∀ c ∈ exprs.flatMap Expr.columns, c.GivenBy input.output) ∧ Closed input
  | scan _ request =>
    ∀ c ∈ (request.groupBy ++ request.aggregates).flatMap Expr.columns, c.GivenBy request.columns

/-- Whether the source computes some of the aggregates, and others follow locally. -/
def isSplit : Physical → Bool
  | aggregate _ _ aggregates input =>
    !input.request.aggregates.isEmpty && input.request.aggregates.length < aggregates.length
  | _ => false

/-! ### Pruned scans -/

section Pruned

variable {projection filters : List Expr} {source : Source} {request : Request}

/-- What is computed for a request is in its answer, whichever columns it asks for. -/
theorem mem_output_request {c : Column}
    (hc : c ∈ (request.groupBy ++ request.aggregates).filterMap Expr.output?)
    (columns : List Column) : c ∈ { request with columns }.output := by
  have haggregate : { request with columns }.isAggregate = true := by
    by_contra hnone
    simp [Request.isAggregate] at hnone
    simp [hnone] at hc
  rw [Request.output, if_pos haggregate]
  exact hc

/-- A request for what a projection list reads is closed, however it is pruned. -/
theorem closed_prunedScan (hcolumns : request.columns = [])
    (hreads : ∀ c ∈ (request.groupBy ++ request.aggregates).flatMap Expr.columns,
      c.GivenBy (projection.flatMap Expr.columns)) :
    (prunedScan projection filters source request).Closed := by
  rw [prunedScan]
  split
  · next hplain =>
    intro c hc
    rw [Expr.filterMap_output?_of_all_isColumn (Bool.and_eq_true_iff.mp hplain).1]
    exact hreads c hc
  · refine ⟨fun c hc => ?_, fun c hc => ?_⟩
    · -- a request for no groups has no output yet, so there is nothing to narrow its rows to
      rw [Expr.flatMap_columns_map_col, Request.output, hcolumns] at hc
      exact Column.givenBy_of_mem (mem_output_request ((List.mem_ite_nil_right ..).mp hc).2 _)
    · refine Expr.givenBy_referencesOf_iff.mpr ((hreads c hc).mono ?_)
      rw [List.flatMap_append]
      exact List.subset_append_left ..

theorem mem_output_prunedScan {c : Column}
    (hc : c ∈ (request.groupBy ++ request.aggregates).filterMap Expr.output?) :
    c ∈ (prunedScan projection filters source request).output := by
  rw [prunedScan]
  split
  · exact mem_output_request hc _
  · rw [output, filterMap_output?_map_col]
    exact mem_output_request hc request.columns

theorem request_prunedScan_aggregates :
    (prunedScan projection filters source request).request.aggregates = request.aggregates := by
  rw [prunedScan]
  split <;> rfl

end Pruned

/-! ### The scan of a plan -/

theorem output_filterAll (predicates : List Expr) (input : Physical) :
    (filterAll predicates input).output = input.output := by
  rw [filterAll]
  split <;> rfl

theorem closed_filterAll {predicates : List Expr} {input : Physical} (hinput : input.Closed)
    (h : ∀ c ∈ predicates.flatMap Expr.columns, c.GivenBy input.output) :
    (filterAll predicates input).Closed := by
  rw [filterAll]
  split
  · next predicate hconj =>
    exact ⟨fun c hc => h c (Expr.columns_of_conjunction? hconj ▸ hc), hinput⟩
  · exact hinput

end Physical

namespace Pipeline

variable {p : Pipeline}

theorem output_under (predicates : List Expr) (plan : Plan) :
    (Plan.under predicates plan).output = plan.output := by
  induction predicates with
  | nil => rfl
  | cons e es ih => exact ih

theorem output_input (p : Pipeline) : p.input.output = p.output := by
  rw [input, output_under, projected, output]
  cases p.projection with
  | none => exact output_under ..
  | some exprs => rfl

/-- In a closed plan the aggregation reads what is given to it. -/
theorem reads_of_closed (h : p.plan.Closed) :
    ∀ c ∈ p.groupBy ++ p.aggregates.flatMap Expr.columns, c.GivenBy p.output := by
  intro c hc
  have hown : p.plan.ownReferences = p.groupBy ++ p.aggregates.flatMap Expr.columns := by
    show (p.groupBy.map Expr.col ++ p.aggregates).flatMap Expr.columns = _
    rw [List.flatMap_append, Expr.flatMap_columns_map_col]
  have hnode : p.plan ∈ p.plan.nodes := by
    rw [Plan.nodes_eq]
    exact List.mem_cons_self
  have hgiven := h p.plan hnode c (hown ▸ hc)
  rwa [show p.plan.children = [p.input] from rfl, List.flatMap_singleton, output_input] at hgiven

theorem filteredScan_projection (p : Pipeline) : p.filteredScan.projection = p.projection := by
  rw [filteredScan]
  split <;> simp [*]

theorem columns_pushedGroup (p : Pipeline) (g : Column) :
    (p.filteredScan.pushedGroup g).columns = (p.definitions.definitionOf g).columns := by
  rw [FilteredScan.pushedGroup, filteredScan_definitions, IdMap.definitionOf]
  cases p.definitions.get? g.id with
  | none => rfl
  | some e => exact (Expr.columns_eq rfl).trans (List.flatMap_singleton ..)

/-! ### What the source computes -/

section Reads

variable (hreads : ∀ c ∈ p.groupBy ++ p.aggregates.flatMap Expr.columns, c.GivenBy p.output)
include hreads

/-- What the source groups by reads what the projection reads. -/
theorem givenBy_of_mem_pushedGroups {exprs : List Expr} (hproj : p.projection = some exprs)
    {e : Expr} (he : e ∈ p.pushedGroups) :
    ∀ c ∈ e.columns, c.GivenBy (exprs.flatMap Expr.columns) := by
  obtain ⟨g, hg, rfl⟩ := List.mem_map.mp he
  have hgiven := hreads g (List.mem_append_left _ hg)
  rw [output, hproj] at hgiven
  rw [columns_pushedGroup, definitions, hproj]
  exact Expr.givenBy_definitionOf (.inl hgiven)

/-- What the aggregates read below the projection, the projection reads. -/
theorem givenBy_of_mem_inlined {exprs : List Expr} (hproj : p.projection = some exprs) {e : Expr}
    (he : e ∈ p.inlined) : ∀ c ∈ e.columns, c.GivenBy (exprs.flatMap Expr.columns) := by
  obtain ⟨a, ha, rfl⟩ := List.mem_map.mp he
  rw [definitions, hproj]
  refine Expr.givenBy_readThrough fun d hd => ?_
  have hgiven := hreads d (List.mem_append_right _ (List.mem_flatMap.mpr ⟨a, ha, hd⟩))
  rwa [output, hproj] at hgiven

end Reads

/-- A scan that groups is closed if the projection, where there is one, reads what is computed. -/
theorem closed_groupedScan {filters : List Filter} {groups aggregates : List Expr}
    (h : ∀ exprs, p.projection = some exprs → ∀ e ∈ groups ++ aggregates, ∀ c ∈ e.columns,
      c.GivenBy (exprs.flatMap Expr.columns)) :
    (p.filteredScan.groupedScan filters groups aggregates).Closed := by
  rw [FilteredScan.groupedScan, filteredScan_projection]
  refine Physical.closed_prunedScan rfl fun c hc => ?_
  cases hproj : p.projection with
  | some exprs =>
    obtain ⟨e, he, hc⟩ := List.mem_flatMap.mp hc
    exact h exprs hproj e he c hc
  | none =>
    simp only [Expr.flatMap_columns_map_col]
    exact Expr.givenBy_referencesOf_iff.mpr (Column.givenBy_of_mem hc)

/-- The local stage over a scan that groups: the late calls read what the scan groups by, and the
others what it has left of them. -/
theorem closed_finals {filters : List Filter} {groups : List Expr} {early late : List NamedCall}
    (hgroupBy : ∀ g ∈ p.groupBy, g ∈ groups.filterMap Expr.output?)
    (hlate : ∀ n ∈ late, ∀ c ∈ n.expr.columns, c.GivenBy (groups.filterMap Expr.output?))
    (hscan : (p.filteredScan.groupedScan filters groups (early.map NamedCall.expr)).Closed) :
    (Physical.aggregate false p.groupBy ((TwoStages.finals early late).map NamedCall.expr)
      (p.filteredScan.groupedScan filters groups (early.map NamedCall.expr))).Closed := by
  have houtput : groups.filterMap Expr.output? ++ early.map NamedCall.output ⊆
      (p.filteredScan.groupedScan filters groups (early.map NamedCall.expr)).output := by
    intro c hc
    rw [← filterMap_output?_exprs] at hc
    exact Physical.mem_output_prunedScan hc
  refine ⟨fun c hc => ?_, hscan⟩
  refine Column.GivenBy.mono ?_ houtput
  rcases List.mem_append.mp hc with hc | hc
  · exact Column.givenBy_of_mem (List.mem_append_left _ (hgroupBy c hc))
  · obtain ⟨_, he, hc⟩ := List.mem_flatMap.mp hc
    obtain ⟨n, hn, rfl⟩ := List.mem_map.mp he
    rcases List.mem_append.mp hn with hn | hn
    · exact (hlate n hn c hc).mono (List.subset_append_left ..)
    · obtain ⟨m, hm, rfl⟩ := List.mem_map.mp hn
      obtain rfl : c = m.output := List.mem_singleton.mp hc
      exact Column.givenBy_of_mem (List.mem_append_right _ (List.mem_map_of_mem hm))

theorem output_finals (groupBy : List Column) (early late : List NamedCall) (input : Physical) :
    (Physical.aggregate false groupBy ((TwoStages.finals early late).map NamedCall.expr)
      input).output = groupBy ++ (late ++ early).map NamedCall.output := by
  rw [← TwoStages.map_output_finals]
  exact congrArg _ (filterMap_output?_exprs [] _)

/-- A grouping column is given by what the source groups by. -/
theorem mem_output_pushedGroups {g : Column} (hg : g ∈ p.groupBy) :
    g ∈ p.pushedGroups.filterMap Expr.output? :=
  List.mem_filterMap.mpr ⟨_, List.mem_map_of_mem hg, p.output?_pushedGroup g⟩

theorem output_plan {ns : List NamedCall} (hns : p.aggregates = ns.map NamedCall.expr) :
    p.plan.output = p.groupBy ++ ns.map NamedCall.output :=
  congrArg _ (results_eq hns)

/-! ### The three plans -/

section Plans

variable (hreads : ∀ c ∈ p.groupBy ++ p.aggregates.flatMap Expr.columns, c.GivenBy p.output)
include hreads

theorem closed_localPlan : p.localPlan.Closed := by
  have hneeded : ∀ es ⊆ p.readers ++ p.handover.remaining,
      ∀ c ∈ es.flatMap Expr.columns, c.GivenBy p.needed := by
    intro es hes c hc
    refine Expr.givenBy_referencesOf_iff.mpr (Column.givenBy_of_mem ?_)
    obtain ⟨e, he, hc⟩ := List.mem_flatMap.mp hc
    exact List.mem_flatMap.mpr ⟨e, hes he, hc⟩
  have hscan : (Physical.scan p.source
      { columns := p.needed, filters := p.handover.pushed }).Closed := fun c hc => by cases hc
  have hfiltered := Physical.closed_filterAll hscan
    (hneeded p.handover.remaining (List.subset_append_right ..))
  have hreaders := hneeded p.readers (List.subset_append_left ..)
  rw [localPlan_eq]
  rw [readers] at hreaders
  cases hproj : p.projection with
  | none =>
    rw [hproj] at hreaders
    refine ⟨fun c hc => ?_, hfiltered⟩
    -- without a projection the scan is asked for what the aggregation itself reads
    rw [Physical.projected, Physical.output_filterAll]
    refine hreaders c ?_
    rwa [List.flatMap_append, Expr.flatMap_columns_map_col]
  | some exprs =>
    rw [hproj] at hreaders
    refine ⟨fun c hc => ?_, fun c hc => ?_, hfiltered⟩
    · have hgiven := hreads c hc
      rwa [output, hproj] at hgiven
    · rw [Physical.output_filterAll]
      exact hreaders c hc

/-- What the source groups by in a split is closed, and gives what the late calls read. -/
theorem closed_splitGroups {ms : List NamedCall} (hms : p.inlined = ms.map NamedCall.expr) :
    (p.filteredScan.groupedScan p.handover.pushed p.splitGroups
        ((p.early ms).map NamedCall.expr)).Closed ∧
      (∀ g ∈ p.groupBy, g ∈ p.splitGroups.filterMap Expr.output?) ∧
      ∀ n ∈ p.late ms, ∀ c ∈ n.expr.columns,
        c.GivenBy (p.splitGroups.filterMap Expr.output?) := by
  obtain ⟨extra, hgroups, hextra, hproduced⟩ :=
    Expr.groupingWith_eq p.pushedGroups (Expr.referencesOf p.unsupported)
  rw [splitGroups, hgroups]
  refine ⟨closed_groupedScan fun exprs hproj e he => ?_, fun g hg => ?_, fun n hn c hc => ?_⟩
  · rcases List.mem_append.mp he with he | he
    · rcases List.mem_append.mp he with he | he
      · exact givenBy_of_mem_pushedGroups hreads hproj he
      · obtain ⟨c, hc, rfl⟩ := List.mem_map.mp he
        obtain ⟨x, hx, hcx⟩ := Expr.exists_mem_of_mem_referencesOf (hextra c hc)
        refine fun d hd => givenBy_of_mem_inlined hreads hproj (List.mem_of_mem_filter hx) d ?_
        rw [Expr.columns_col, List.mem_singleton] at hd
        exact hd ▸ hcx
    · rw [← supported_eq hms] at he
      exact givenBy_of_mem_inlined hreads hproj (List.mem_of_mem_filter he)
  · rw [List.filterMap_append]
    exact List.mem_append_left _ (mem_output_pushedGroups hg)
  · have hmem : n.expr ∈ p.unsupported := unsupported_eq hms ▸ List.mem_map_of_mem hn
    obtain ⟨d, hd, hid⟩ := Expr.givenBy_referencesOf_iff.mpr
      (Column.givenBy_of_mem (List.mem_flatMap.mpr ⟨n.expr, hmem, hc⟩))
    obtain ⟨e, he, hproduces⟩ := hproduced d hd
    obtain ⟨o, ho, hoid⟩ := Expr.produces_iff.mp hproduces
    exact ⟨o, List.mem_filterMap.mpr ⟨e, he, ho⟩, hoid.trans hid⟩

variable {ns : List NamedCall} (hns : p.aggregates = ns.map NamedCall.expr)
include hns

theorem closed_wholePlan {physical : Physical} (h : p.wholePlan? = some physical) :
    physical.Closed ∧ physical.output = p.plan.output := by
  have hinlined := inlined_eq hns
  have hfinals : ns.map (fun n => n.folded n.call.finisher) =
      TwoStages.finals (ns.map (NamedCall.readThrough p.definitions)) [] := by
    rw [TwoStages.finals, List.nil_append, List.map_map]
    rfl
  rw [wholePlan?_eq hns, hfinals, Option.some.injEq] at h
  subst h
  refine ⟨?_, ?_⟩
  · refine closed_finals (fun g => mem_output_pushedGroups) (fun n hn => by cases hn) ?_
    refine closed_groupedScan fun exprs hproj e he => ?_
    rw [← hinlined] at he
    exact (List.mem_append.mp he).elim (givenBy_of_mem_pushedGroups hreads hproj)
      (givenBy_of_mem_inlined hreads hproj)
  · rw [output_finals, output_plan hns, List.nil_append, List.map_map]
    rfl

/-- A split plan gives the columns of the late calls before those of the early ones, which changes
nothing if there are no early ones. -/
theorem closed_splitPlan {config : Config} (hlate : p.unsupported ≠ []) {physical : Physical}
    (h : p.splitPlan? config = some physical) :
    physical.Closed ∧ physical.output.Perm p.plan.output ∧
      (physical.isSplit = false → physical.output = p.plan.output) := by
  have hms := inlined_eq hns
  have houtputs : p.plan.output = p.groupBy ++
      (ns.map (NamedCall.readThrough p.definitions)).map NamedCall.output := by
    rw [output_plan hns, List.map_map]
    rfl
  generalize ns.map (NamedCall.readThrough p.definitions) = ms at hms houtputs
  obtain ⟨-, -, -, rfl⟩ := splitPlan?_eq_some hms h
  obtain ⟨hscan, hgroupBy, hreadsLate⟩ := closed_splitGroups hreads hms
  refine ⟨closed_finals hgroupBy hreadsLate hscan, ?_, fun hsplit => ?_⟩
  · rw [output_finals, houtputs]
    exact ((p.perm_calls ms).symm.map NamedCall.output).append_left p.groupBy
  · rw [unsupported_eq hms, ne_eq, List.map_eq_nil_iff] at hlate
    have hearly : p.early ms = [] := by
      have hrequest : (p.filteredScan.groupedScan p.handover.pushed p.splitGroups
          ((p.early ms).map NamedCall.expr)).request.aggregates =
            (p.early ms).map NamedCall.expr := Physical.request_prunedScan_aggregates
      have hlength := List.length_pos_iff.mpr hlate
      rw [Physical.isSplit, hrequest, TwoStages.finals] at hsplit
      simpa [hlength] using hsplit
    have hall : p.late ms = ms := by
      refine List.filter_eq_self.mpr fun n hn => ?_
      simpa using List.filter_eq_nil_iff.mp hearly n hn
    rw [output_finals, houtputs, hearly, hall, List.append_nil]

end Plans

end Pipeline

/-- **Physical plans are closed.**  A closed plan that is handed to a source becomes a closed
physical plan.  It gives the columns that the plan gives, and in their order unless the source
computes some of the aggregates and leaves others. -/
theorem Plan.pushDown?_closed {config : Config} {plan : Plan} {physical : Physical}
    (hplan : plan.Closed) (h : plan.pushDown? config = some physical) :
    physical.Closed ∧ physical.output.Perm plan.output ∧
      (physical.isSplit = false → physical.output = plan.output) := by
  obtain ⟨p, rfl⟩ := Pipeline.exists_of_pushDown? h
  have hreads := Pipeline.reads_of_closed hplan
  have hnamed := Pipeline.named_of_pushDown? h
  obtain ⟨ns, hns⟩ := Pipeline.exists_calls hnamed
  have hsame (hwhole : physical.Closed ∧ physical.output = p.plan.output) :
      physical.Closed ∧ physical.output.Perm p.plan.output ∧
        (physical.isSplit = false → physical.output = p.plan.output) :=
    ⟨hwhole.1, .of_eq hwhole.2, fun _ => hwhole.2⟩
  cases hexact : p.handover.isExact with
  | false =>
    rw [Pipeline.pushDown?_of_inexact hnamed hexact] at h
    split at h
    · cases h
    · cases h
      exact hsame ⟨Pipeline.closed_localPlan hreads, by rw [Pipeline.localPlan_eq]; rfl⟩
  | true =>
    rw [Pipeline.pushDown?_of_exact hnamed hexact] at h
    split at h
    · next hnone =>
      rw [Pipeline.supported_of_unsupported_eq_nil (List.isEmpty_iff.mp hnone)] at h
      exact hsame (Pipeline.closed_wholePlan hreads hns h)
    · next hsome =>
      exact Pipeline.closed_splitPlan hreads hns (fun hnil => hsome (hnil ▸ rfl)) h

/-- The source adds up what is spent, and counting its kinds is left: the count comes first then. -/
theorem Pipeline.pushDown?_closed_ledger : Ledger.summed.plan.Closed ∧
    ∃ physical, Ledger.summed.plan.pushDown? {} = some physical ∧ physical.Closed ∧
      physical.output.Perm Ledger.summed.plan.output ∧ physical.isSplit = true ∧
      physical.output = [Ledger.region, Ledger.kinds, Ledger.total] := by
  have hclosed : Ledger.summed.plan.Closed := by decide
  obtain ⟨physical, hplan⟩ : ∃ physical, Ledger.summed.plan.pushDown? {} = some physical :=
    ⟨_, rfl⟩
  obtain ⟨hphysical, hperm, -⟩ := Plan.pushDown?_closed hclosed hplan
  refine ⟨hclosed, physical, hplan, hphysical, hperm, ?_⟩
  cases hplan
  exact ⟨rfl, rfl⟩

end QueryPlan
