import QueryPlan.Proofs.Stages

/-!
# The rows of a grouping, cell by cell

`groupAndFold_eq_ok_iff` says what comes out of a grouping as rows made of lists of cells.  Where no
two of the expressions share a name, each cell can be read off by itself (`HoldsGroup`): under the
name of a key stands the value of the key, under the name of an aggregate the result of its call
over the rows of the group, and nothing else stands in the row.

`groupAndFold_holdsGroup` says this of every run that succeeds, and of the others why they fail: an
expression without a name or without a call, or a call that cannot take in the rows of some group.
The failure need not be that of the first group, only of some group: a call fails on a group by
itself, whatever the others do.

Tuples of key values are told apart as values.  An integer and the float equal to it are two values,
and so are the two zeros.
-/

set_option autoImplicit false

namespace QueryPlan

/-! ## Reading the cells -/

/-- Cells under different keys do not contradict each other. -/
theorem Row.consistent_of_nodup {cells : List (String × Value)}
    (h : (cells.map Prod.fst).Nodup) : Consistent cells := fun _ _ _ hv hw =>
  congrArg Prod.snd (List.inj_on_of_nodup_map h hv hw rfl)

section Keys

variable {keys : List Expr} {rows : List Row}

/-- The groups are those of the rows; the one that is always there may be without any. -/
theorem groupKeys_eq_append (keys : List Expr) (rows : List Row) :
    groupKeys keys rows =
      (rows.map (keyOn keys)).eraseDups ++ if keys.isEmpty && rows.isEmpty then [[]] else [] := by
  cases keys with
  | cons e keys => simp [groupKeys]
  | nil =>
    cases rows with
    | nil => rfl
    | cons row rows =>
      rw [groupKeys_eq_eraseDups (.inr (List.cons_ne_nil row rows))]
      simp

theorem length_of_mem_groupKeys {key : List Value} (h : key ∈ groupKeys keys rows) :
    key.length = keys.length := by
  obtain ⟨row, rfl⟩ := exists_keyOn h
  exact keyOn_length keys row

/-- What a row has to hold to be that of the group with a key. -/
structure HoldsGroup (keys aggregates : List Expr) (rows : List Row) (key : List Value)
    (out : Row) : Prop where
  /-- Each key stands under its name. -/
  ofKeys : List.Forall₂ (fun e v => ∃ c, e.output? = some c ∧ out.get? c.rowKey = some v) keys key
  /-- Under the name of each aggregate stands what its call, once it has taken in the rows of the
  group, comes to. -/
  ofCalls : ∀ e ∈ aggregates, ∃ call c state, e.aggregateCall? = some call ∧
    e.output? = some c ∧ call.stateOn (rowsWith keys rows key) = .ok state ∧
    out.get? c.rowKey = some state.result
  /-- Nothing else stands in the row. -/
  only : ∀ name, (out.get? name).isSome →
    name ∈ ((keys ++ aggregates).filterMap Expr.output?).map Column.rowKey

/-- **Where names differ, the row of a group can be read cell by cell.** -/
theorem IsGroupRow.holds {ns : List NamedCall} {key : List Value} {out : Row}
    (hnamed : ∀ e ∈ keys, e.output?.isSome)
    (hnames : (((keys ++ ns.map NamedCall.expr).filterMap Expr.output?).map Column.rowKey).Nodup)
    (hkey : key ∈ groupKeys keys rows) (h : IsGroupRow keys ns rows key out) :
    HoldsGroup keys (ns.map NamedCall.expr) rows key out := by
  obtain ⟨vs, hvs, rfl⟩ := h
  have hlength := length_of_mem_groupKeys hkey
  have hfst := map_fst_groupRow hnamed hlength hvs.length_eq
  have hcells := Row.consistent_of_nodup (hfst ▸ hnames)
  refine ⟨?_, fun e he => ?_, fun name hname => ?_⟩
  · have hnames : ((keys.filterMap Expr.output?).map Column.rowKey).length = key.length := by
      rw [List.length_map, length_filterMap_output? hnamed, hlength]
    have hzip := List.forall₂_map_left_iff.mp (forall₂_mem_zip hnames)
    refine (forall₂_comp_iff.mp ⟨_, Expr.forall₂_output hnamed, hzip⟩).imp ?_
    rintro e v ⟨c, hc, hv⟩
    exact ⟨c, hc, (Row.get?_ofCells_eq_some_iff hcells ..).mpr (List.mem_append_left _ hv)⟩
  · obtain ⟨n, hn, rfl⟩ := List.mem_map.mp he
    obtain ⟨v, -, hzip⟩ := forall₂_exists_of_mem (forall₂_mem_zip hvs.length_eq) hn
    obtain ⟨state, hstate, rfl⟩ := map_eq_ok_iff.mp ((List.forall₂_iff_zip.mp hvs).2 hzip)
    refine ⟨n.call, n.output, state, rfl, rfl, hstate, ?_⟩
    refine (Row.get?_ofCells_eq_some_iff hcells ..).mpr (List.mem_append_right _ ?_)
    rw [List.zip_map_left]
    exact List.mem_map.mpr ⟨_, hzip, rfl⟩
  · rw [← hfst]
    exact (Row.isSome_get?_ofCells _ name).mp hname

end Keys

/-! ## Success and failure -/

theorem Expr.outputKey_isOk_iff {e : Expr} : (∃ k, e.outputKey = .ok k) ↔ e.output?.isSome := by
  rw [outputKey]
  cases e.output? <;> simp

theorem Expr.aggregateCall_isOk_iff {e : Expr} :
    (∃ c, e.aggregateCall = .ok c) ↔ e.aggregateCall?.isSome := by
  rw [aggregateCall]
  cases e.aggregateCall? <;> simp

section Runs

variable {keys aggregates : List Expr} {rows : List Row}

/-- Nothing comes out before every expression has been seen to have what it needs. -/
theorem named_of_groupAndFold {out : List Row}
    (h : groupAndFold rows keys aggregates = .ok out) :
    (∀ e ∈ aggregates, (e.aggregateCall?.isSome && e.output?.isSome) = true) ∧
      ∀ e ∈ keys, e.output?.isSome := by
  simp only [groupAndFold, bind_eq_ok_iff, mapM_eq_ok_iff] at h
  obtain ⟨calls, hcalls, keyNames, hkeys, names, hnames, -⟩ := h
  have hname {exprs : List Expr} {names : List String}
      (h : List.Forall₂ (fun e k => e.outputKey = .ok k) exprs names) {e : Expr} (he : e ∈ exprs) :
      e.output?.isSome := by
    obtain ⟨k, -, hk⟩ := forall₂_exists_of_mem h he
    exact Expr.outputKey_isOk_iff.mp ⟨k, hk⟩
  refine ⟨fun e he => ?_, fun e he => hname hkeys he⟩
  obtain ⟨c, -, hc⟩ := forall₂_exists_of_mem hcalls he
  rw [Bool.and_eq_true]
  exact ⟨Expr.aggregateCall_isOk_iff.mp ⟨c, hc⟩, hname hnames he⟩

/-- Named calls over named keys come to something as soon as each does in each group. -/
theorem exists_groupAndFold_ok_iff (hnamed : ∀ e ∈ keys, e.output?.isSome) (ns : List NamedCall) :
    (∃ out, groupAndFold rows keys (ns.map NamedCall.expr) = .ok out) ↔
      ∀ key ∈ groupKeys keys rows, ∀ n ∈ ns,
        ∃ state, n.call.stateOn (rowsWith keys rows key) = .ok state := by
  simp only [groupAndFold_eq_ok_iff hnamed]
  constructor
  · rintro ⟨out, hout⟩ key hkey n hn
    obtain ⟨_, -, vs, hvs, -⟩ := forall₂_exists_of_mem hout hkey
    obtain ⟨v, -, hv⟩ := forall₂_exists_of_mem hvs hn
    obtain ⟨state, hstate, -⟩ := map_eq_ok_iff.mp hv
    exact ⟨state, hstate⟩
  · intro h
    refine exists_forall₂ fun key hkey => ?_
    obtain ⟨vs, hvs⟩ := exists_forall₂
      (R := fun (n : NamedCall) v => n.call.valueOn (rowsWith keys rows key) = .ok v)
      fun n hn => by
        obtain ⟨state, hstate⟩ := h key hkey n hn
        exact ⟨_, map_eq_ok_iff.mpr ⟨state, hstate, rfl⟩⟩
    exact ⟨_, vs, hvs, rfl⟩

/-- A call that takes in the rows with the keys of any row takes in those with any key: there may be
none. -/
theorem exists_stateOn_rowsWith {c : AggregateCall}
    (h : ∀ row ∈ rows, ∃ state, c.stateOn (rowsWith keys rows (keyOn keys row)) = .ok state)
    (key : List Value) : ∃ state, c.stateOn (rowsWith keys rows key) = .ok state := by
  cases hgroup : rowsWith keys rows key with
  | nil =>
    refine ⟨.fresh c.func, ?_⟩
    rw [AggregateCall.stateOn, AggregateCall.tuples]
    split <;> rfl
  | cons row rest =>
    have hmem : row ∈ rowsWith keys rows key := hgroup ▸ List.mem_cons_self
    obtain ⟨hrow, hkey⟩ := List.mem_filter.mp hmem
    rw [← hgroup, ← of_decide_eq_true hkey]
    exact h row hrow

/-- **When grouping fails**: some aggregate is not a named call, some key has no name, or some call
fails on the rows that share the keys of a row. -/
theorem exists_groupAndFold_error_iff : (∃ e, groupAndFold rows keys aggregates = .error e) ↔
    (∃ a ∈ aggregates, a.aggregateCall? = none ∨ a.output? = none) ∨
      (∃ k ∈ keys, k.output? = none) ∨
      ∃ row ∈ rows, ∃ a ∈ aggregates, ∃ call, a.aggregateCall? = some call ∧
        ∃ e, call.stateOn (rowsWith keys rows (keyOn keys row)) = .error e := by
  rw [exists_error_iff]
  constructor
  · intro hnone
    by_contra! hgood
    obtain ⟨hcalls, hnamed, hstates⟩ := hgood
    have haggregates : ∀ a ∈ aggregates, (a.aggregateCall?.isSome && a.output?.isSome) = true := by
      simpa [Option.isSome_iff_ne_none] using hcalls
    obtain ⟨ns, rfl⟩ := NamedCall.exists_of_isNamedAggregate haggregates
    refine hnone ((exists_groupAndFold_ok_iff
      (fun k hk => Option.isSome_iff_ne_none.mpr (hnamed k hk)) ns).mpr fun key _ n hn => ?_)
    refine exists_stateOn_rowsWith (fun row hrow => ?_) key
    by_contra hfail
    obtain ⟨e, he⟩ := exists_error_iff.mpr hfail
    exact hstates row hrow n.expr (List.mem_map_of_mem hn) n.call rfl e he
  · rintro hbad ⟨out, hout⟩
    obtain ⟨haggregates, hnamed⟩ := named_of_groupAndFold hout
    obtain ⟨a, ha, hnone⟩ | ⟨k, hk, hnone⟩ | ⟨row, hrow, a, ha, call, hcall, e, he⟩ := hbad
    · have := haggregates a ha
      obtain hnone | hnone := hnone <;> simp [hnone] at this
    · have := hnamed k hk
      simp [hnone] at this
    · obtain ⟨ns, rfl⟩ := NamedCall.exists_of_isNamedAggregate haggregates
      obtain ⟨n, hn, rfl⟩ := List.mem_map.mp ha
      obtain ⟨state, hstate⟩ := (exists_groupAndFold_ok_iff hnamed ns).mp ⟨out, hout⟩ _
        (keyOn_mem_groupKeys _ hrow) n hn
      cases hcall
      cases he.symm.trans hstate

end Runs

/-- **What a grouping gives, cell by cell, and when it fails.**  A run that succeeds has a row for
each tuple of key values, in the order in which they first appear, and one for no rows at all where
there are no keys; each row holds what `HoldsGroup` says.  A run fails exactly where an expression
is not what it should be, or a call cannot take in the rows of a group. -/
theorem groupAndFold_holdsGroup {rows : List Row} {keys aggregates : List Expr}
    (hnames : (((keys ++ aggregates).filterMap Expr.output?).map Column.rowKey).Nodup) :
    (∀ out, groupAndFold rows keys aggregates = .ok out →
      List.Forall₂ (HoldsGroup keys aggregates rows)
        ((rows.map (keyOn keys)).eraseDups ++ if keys.isEmpty && rows.isEmpty then [[]] else [])
        out) ∧
    ((∃ e, groupAndFold rows keys aggregates = .error e) ↔
      (∃ a ∈ aggregates, a.aggregateCall? = none ∨ a.output? = none) ∨
        (∃ k ∈ keys, k.output? = none) ∨
        ∃ row ∈ rows, ∃ a ∈ aggregates, ∃ call, a.aggregateCall? = some call ∧
          ∃ e, call.stateOn (rowsWith keys rows (keyOn keys row)) = .error e) := by
  refine ⟨fun out hout => ?_, exists_groupAndFold_error_iff⟩
  obtain ⟨haggregates, hnamed⟩ := named_of_groupAndFold hout
  obtain ⟨ns, rfl⟩ := NamedCall.exists_of_isNamedAggregate haggregates
  rw [← groupKeys_eq_append]
  exact forall₂_imp_of_mem ((groupAndFold_eq_ok_iff hnamed ns).mp hout) fun key hkey _ _ h =>
    h.holds hnamed hnames hkey

/-! ### What two people spent -/

namespace Spending

def who : Column := .plain 1 "who"

def amount : Column := .plain 2 "amount"

def total : Column := .plain 3 "total"

def items : Column := .plain 4 "items"

def item (name : String) (cents : Int) : Row :=
  .ofCells [("who#1", .str name), ("amount#2", .int cents)]

def summary (name : String) (cents count : Int) : Row :=
  .ofCells [("who#1", .str name), ("total#3", .int cents), ("items#4", .int count)]

def entries : List Row := [item "ann" 3, item "bob" 5, item "ann" 3, item "ann" 4]

def keys : List Expr := [.col who]

/-- The different amounts of each person added up, and all of them counted. -/
def aggregates : List Expr :=
  [.named (.aggregate .sum [.col amount] true) total, .named (.aggregate .count [] false) items]

theorem groupAndFold_holdsGroup_spending :
    (((keys ++ aggregates).filterMap Expr.output?).map Column.rowKey).Nodup ∧
      groupAndFold entries keys aggregates = .ok [summary "ann" 7 3, summary "bob" 5 1] ∧
      List.Forall₂ (HoldsGroup keys aggregates entries) [[.str "ann"], [.str "bob"]]
        [summary "ann" 7 3, summary "bob" 5 1] := by
  have hnames : (((keys ++ aggregates).filterMap Expr.output?).map Column.rowKey).Nodup := by decide
  have hrun : groupAndFold entries keys aggregates =
      .ok [summary "ann" 7 3, summary "bob" 5 1] := rfl
  exact ⟨hnames, hrun, (groupAndFold_holdsGroup hnames).1 _ hrun⟩

end Spending

end QueryPlan
