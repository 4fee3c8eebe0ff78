import QueryPlan.Proofs.LocalPlan

/-!
# The rows of a raw scan

A source that is asked for columns answers with one row for each stored row that its filters accept,
in their order, and with the stored values in them (`Source.Answers`), as long as no column is asked
for twice.  The source takes each cell out of its row when it comes to it, so the second time there
is nothing left of the cell, and what the answer holds in the end is a null.  Hence the answer is
right if and only if whatever is asked for twice is null anyway (`Source.scan_answers_iff`).

What a stored row holds for a column is said by the declarations of the source (`Source.held`), and
not by the map and the re-keyed row through which the source finds it.
-/

set_option autoImplicit false

namespace QueryPlan

/-! ## Cells taken out one by one -/

namespace Source

theorem takeCells_concat (keys : List String) (key : String) (row : Row) :
    takeCells (keys ++ [key]) row =
      takeCells keys row ++ [(key, if key ∈ keys then .null else row.cell key)] := by
  induction keys generalizing row with
  | nil => rfl
  | cons k keys ih =>
    have hcell : (row.erase k).cell key = if key = k then .null else row.cell key := by
      rw [Row.cell, Row.get?_erase, apply_ite (Option.getD · Value.null)]
      rfl
    rw [List.cons_append, takeCells, takeCells, ih, List.cons_append, hcell, ← ite_or]
    simp only [List.mem_cons, or_comm]

/-- The cells taken out of a row, as a row: those asked for once are there, and those asked for more
than once are null. -/
theorem get?_ofCells_takeCells (keys : List String) (row : Row) (key : String) :
    (Row.ofCells (takeCells keys row)).get? key =
      if key ∈ keys then some (if keys.count key = 1 then row.cell key else .null) else none := by
  induction keys using List.reverseRecOn with
  | nil => rfl
  | append_singleton keys k ih =>
    rw [takeCells_concat, Row.ofCells_append, Row.get?_insert, ih, List.count_append]
    by_cases hk : key = k
    · subst hk
      have hmem : key ∈ keys ++ [key] := List.mem_append_right _ List.mem_cons_self
      have honce : keys.count key + [key].count key = 1 ↔ key ∉ keys := by
        rw [List.count_singleton_self, Nat.add_eq_right, List.count_eq_zero]
      simp only [if_true, hmem, honce, ite_not]
    · have hmem : key ∈ keys ++ [k] ↔ key ∈ keys := by simp [hk]
      have hcount : [k].count key = 0 := List.count_eq_zero.mpr (by simpa using hk)
      simp only [hk, if_false, hmem, hcount, Nat.add_zero]

end Source

/-! ## What is asked for -/

namespace Source

variable {s : Source} {columns : List Column}

/-- What a stored row holds for a column: the cell under the stored name of the column, and null if
the row has no such cell or the source declares no such column. -/
def held (s : Source) (stored : Row) (c : Column) : Value :=
  match s.declared.find? fun d => d.1.id = c.id ∧ d.1.name = c.name with
  | some d => stored.cell d.2
  | none => .null

/-- The stored rows that every filter accepts. -/
def accepted (s : Source) (filters : List Filter) : List Row :=
  s.rows.filter fun r => filters.all fun f => (f.truth r).accepts

/-- A row answers for a stored row when it has the asked columns and no others, and holds for them
what is stored. -/
structure Answers (s : Source) (columns : List Column) (stored row : Row) : Prop where
  keys : ∀ key, (row.get? key).isSome ↔ key ∈ columns.map Column.rowKey
  cells : ∀ c ∈ columns, row.cell c.rowKey = s.held stored c

theorem get?_storedColumns (hids : (s.columns.map Column.id).Nodup) {d : Column × String}
    (hd : d ∈ s.declared) : s.storedColumns.get? d.1.id = some (.plain d.1.id d.2) := by
  have hinj : ∀ d' ∈ s.declared, d'.1.id = d.1.id → d' = d := by
    rw [columns, List.map_map] at hids
    exact fun d' hd' => List.inj_on_of_nodup_map hids hd' hd
  refine IdMap.get?_ofList (List.mem_map.mpr ⟨d, hd, rfl⟩) fun b hb => ?_
  obtain ⟨d', hd', heq⟩ := List.mem_map.mp hb
  obtain ⟨hid, rfl⟩ := Prod.mk.inj heq
  rw [hinj d' hd' hid]

/-- A source with distinct columns has each column under its stored name. -/
theorem stores_of_mem (hids : (s.columns.map Column.id).Nodup) {name : String}
    (h : name ∈ s.declared.map Prod.snd) : s.stores name := by
  obtain ⟨d, hd, rfl⟩ := List.mem_map.mp h
  refine List.any_eq_true.mpr ⟨_, IdMap.mem_values_of_get? (get?_storedColumns hids hd), ?_⟩
  exact beq_self_eq_true d.2

/-- A re-keyed row holds under any column what the stored row holds for it. -/
theorem cell_engineRow_eq_held (hids : (s.columns.map Column.id).Nodup) (stored : Row)
    (c : Column) : (s.engineRow stored).cell c.rowKey = s.held stored c := by
  rw [held]
  split
  · next d hd =>
    have hsame := List.find?_some hd
    rw [decide_eq_true_eq] at hsame
    have hmem := List.mem_of_find?_eq_some hd
    rw [s.cell_engineRow stored ⟨d.1, List.mem_map_of_mem hmem, hsame⟩, storedCell, ← hsame.1,
      get?_storedColumns hids hmem]
    rfl
  · next hnone =>
    have hkey : (s.engineRow stored).get? c.rowKey = none := by
      rw [← Option.not_isSome_iff_eq_none, engineRow, Row.isSome_get?_ofCells, List.map_map]
      intro hmem
      obtain ⟨d', hd', hkey⟩ := List.mem_map.mp hmem
      obtain ⟨d, hd, rfl⟩ := List.mem_map.mp hd'
      exact absurd (Column.rowKey_inj hkey) (by simpa using List.find?_eq_none.mp hnone d hd)
    rw [Row.cell, hkey, Option.getD_none]

/-! ## The answer -/

/-- What is given for one stored row: the right keys, and a null under each key asked for twice. -/
theorem prune_engineRow (hids : (s.columns.map Column.id).Nodup) (columns : List Column)
    (stored : Row) :
    (∀ key, (((s.engineRow stored).prune columns).get? key).isSome ↔
      key ∈ columns.map Column.rowKey) ∧
    ∀ c ∈ columns, ((s.engineRow stored).prune columns).cell c.rowKey =
      if (columns.map Column.rowKey).count c.rowKey = 1 then s.held stored c else .null := by
  constructor
  · intro key
    rw [Row.prune, get?_ofCells_takeCells]
    split <;> simp [*]
  · intro c hc
    rw [Row.cell, Row.prune, get?_ofCells_takeCells, if_pos (List.mem_map_of_mem hc),
      cell_engineRow_eq_held hids, Option.getD_some]

theorem answers_prune_engineRow_iff (hids : (s.columns.map Column.id).Nodup)
    (columns : List Column) (stored : Row) :
    s.Answers columns stored ((s.engineRow stored).prune columns) ↔
      ∀ c ∈ columns, (columns.map Column.rowKey).count c.rowKey ≠ 1 → s.held stored c = .null := by
  obtain ⟨hkeys, hcells⟩ := prune_engineRow hids columns stored
  constructor
  · intro h c hc hcount
    rw [← h.cells c hc, hcells c hc, if_neg hcount]
  · intro h
    refine ⟨hkeys, fun c hc => ?_⟩
    rw [hcells c hc]
    split
    · rfl
    · next hcount => exact (h c hc hcount).symm

/-- **What a raw scan gives**: a row for each stored row that the filters accept, in their order,
with the asked columns and with what is stored for each that is asked for once.  So the rows are the
asked ones if and only if nothing is stored for those that are asked for more than once. -/
theorem scan_answers_iff {request : Request} (hids : (s.columns.map Column.id).Nodup)
    (hgroupBy : request.groupBy = []) (haggregates : request.aggregates = [])
    (hknown : ∀ f ∈ request.filters, ∀ name ∈ f.columns, name ∈ s.declared.map Prod.snd) :
    ∃ rows, s.scan request = .ok rows ∧
      List.Forall₂ (fun stored row =>
        (∀ key, (row.get? key).isSome ↔ key ∈ request.columns.map Column.rowKey) ∧
        ∀ c ∈ request.columns, row.cell c.rowKey =
          if (request.columns.map Column.rowKey).count c.rowKey = 1 then s.held stored c
          else .null) (s.accepted request.filters) rows ∧
      (List.Forall₂ (s.Answers request.columns) (s.accepted request.filters) rows ↔
        ∀ stored ∈ s.accepted request.filters, ∀ c ∈ request.columns,
          (request.columns.map Column.rowKey).count c.rowKey ≠ 1 → s.held stored c = .null) := by
  obtain ⟨columns, filters, groupBy, aggregates⟩ := request
  obtain rfl : groupBy = [] := hgroupBy
  obtain rfl : aggregates = [] := haggregates
  have hscan := s.scan_columns columns filters
    (unknownColumn?_eq_none fun f hf name hname => stores_of_mem hids (hknown f hf name hname))
  rw [matching, List.map_map] at hscan
  refine ⟨_, hscan, ?_, ?_⟩
  · rw [List.forall₂_map_right_iff, accepted, List.forall₂_same]
    exact fun stored _ => prune_engineRow hids columns stored
  · rw [List.forall₂_map_right_iff, accepted, List.forall₂_same]
    exact forall₂_congr fun stored _ => answers_prune_engineRow_iff hids columns stored

/-- A stock with two columns, and a row in which one of them is missing. -/
def stock : Source where
  name := "stock"
  declared := [(.plain 1 "item", "ITEM"), (.plain 2 "left", "LEFT")]
  rows := [.ofCells [("ITEM", .str "nut"), ("LEFT", .int 7)], .ofCells [("ITEM", .str "bolt")],
    .ofCells [("ITEM", .null), ("LEFT", .int 1)]]
  takesFiltersOn := fun _ => true
  takesAggregate := fun _ => false

/-- The items, with how many are left asked for twice: once with a qualifier. -/
def stockRequest : Request where
  columns := [⟨2, "left", ["s"]⟩, .plain 1 "item", .plain 2 "left"]
  filters := [.isNotNull "ITEM"]

/-- How many nuts are left is stored, and comes as a null. -/
theorem scan_answers_iff_stock :
    (stock.columns.map Column.id).Nodup ∧
    (∀ f ∈ stockRequest.filters, ∀ name ∈ f.columns, name ∈ stock.declared.map Prod.snd) ∧
    ∃ rows, stock.scan stockRequest = .ok rows ∧ rows.length = 2 ∧
      (∀ row ∈ rows, row.cell "left#2" = .null) ∧
      ¬ List.Forall₂ (stock.Answers stockRequest.columns) (stock.accepted stockRequest.filters)
        rows := by
  have hids : (stock.columns.map Column.id).Nodup := by decide
  have hknown : ∀ f ∈ stockRequest.filters, ∀ name ∈ f.columns,
      name ∈ stock.declared.map Prod.snd := by decide
  obtain ⟨rows, hrows, hcells, hiff⟩ := scan_answers_iff hids rfl rfl hknown
  refine ⟨hids, hknown, rows, hrows, ?_, fun row hrow => ?_, fun h => ?_⟩
  · rw [← hcells.length_eq]
    rfl
  · obtain ⟨stored, -, -, hcell⟩ := exists_of_forall₂_mem hcells hrow
    exact hcell (.plain 2 "left") (by decide)
  · have hnull := hiff.mp h _ List.mem_cons_self _ List.mem_cons_self (by decide)
    cases hnull

end Source

end QueryPlan
