import QueryPlan.Proofs.Stages

/-!
# Groups of groups

A grouping may be done in two stages.  The first groups by more than is asked for and folds some of
the calls, the *early* ones; the second groups what comes from it by what is asked for, folds the
other calls, the *late* ones, and merges what the early ones have left.  `TwoStages` says when this
is meant to give what one stage gives, and `TwoStages.groupAndFold_eq_ok` that it does.

* **Keys.**  The groups of the first stage refine those that are asked for: the key of a coarse
  group is the front part of the key of each fine group in it (`take_keyOn`).  So the rows of a
  coarse group fall into the rows of its fine groups (`perm_parts`), and the second stage has the
  coarse groups in their order (`groupKeys_second`).
* **Early calls** have a value for each fine group, and these merge (`valueOn_early`).
* **Late calls** see one row for each fine group.  That is enough for calls that ignore duplicates,
  since the columns that they read are part of the fine keys: on all rows of a fine group they have
  the same arguments (`argsOn_of_first`, `valueOn_late`).

The one case that needs care is a group without rows.  The first stage has a row for it exactly if
it has no keys at all, and then a late call sees a row where there was none (`valueOn_of_no_keys`).
If that makes a difference, two stages do not give what one gives (`groupAndFold_ne_ok`).
-/

set_option autoImplicit false

namespace QueryPlan

/-- A grouping by `coarse`, given out in `columns`, that is to be done in two stages. -/
structure TwoStages (coarse extra : List Expr) (columns : List Column)
    (early late : List NamedCall) : Prop where
  given : List.Forall₂ (fun e c => e.output? = some c) coarse columns
  first : Legible (coarse ++ extra) early
  second : Legible (columns.map .col) (late ++ early)
  merges : ∀ n ∈ early, (n.call.func.merge? n.call.distinct).isSome
  ignores : ∀ n ∈ late, n.call.ignoresDuplicates = true
  /-- What late calls read is among the keys of the first stage. -/
  reads : ∀ n ∈ late, ∀ a ∈ n.call.args, ∀ c ∈ a.columns, ∃ e ∈ coarse ++ extra, ∃ o ∈ e.output?,
    o.rowKey = c.rowKey ∧ ∀ row, e.eval row = row.cell c.rowKey

namespace TwoStages

variable {coarse extra : List Expr} {columns : List Column} {early late : List NamedCall}
  (h : TwoStages coarse extra columns early late)

/-! ## Keys -/

/-- The coarse key is the front part of the fine one. -/
theorem take_keyOn (coarse extra : List Expr) (row : Row) :
    (keyOn (coarse ++ extra) row).take coarse.length = keyOn coarse row := by
  rw [keyOn, List.map_append, keyOn]
  exact List.take_left' (List.length_map ..)

/-- The fine keys in a coarse group. -/
def parts (coarse extra : List Expr) (rows : List Row) (key : List Value) : List (List Value) :=
  (groupKeys (coarse ++ extra) rows).filter fun k => k.take coarse.length = key

/-- **A coarse group falls into fine groups.** -/
theorem perm_parts (coarse extra : List Expr) (rows : List Row) (key : List Value) :
    ((parts coarse extra rows key).map (rowsWith (coarse ++ extra) rows)).flatten.Perm
      (rowsWith coarse rows key) := by
  have hrows : (parts coarse extra rows key).map (rowsWith (coarse ++ extra) rows) =
      (parts coarse extra rows key).map fun k =>
        (rowsWith coarse rows key).filter fun row => keyOn (coarse ++ extra) row = k := by
    refine List.map_congr_left fun k hk => ?_
    have hkey : k.take coarse.length = key := by simpa using (List.mem_filter.mp hk).2
    rw [rowsWith, rowsWith, List.filter_filter]
    refine List.filter_congr fun row _ => ?_
    by_cases hrow : keyOn (coarse ++ extra) row = k
    · have : keyOn coarse row = key := by rw [← take_keyOn coarse extra, hrow, hkey]
      simp [hrow, this]
    · simp [hrow]
  rw [hrows, ← List.flatMap_def]
  refine perm_flatMap_filter ((nodup_groupKeys _ rows).filter _) fun row hrow => ?_
  obtain ⟨hmem, hkey⟩ := List.mem_filter.mp hrow
  refine List.mem_filter.mpr ⟨keyOn_mem_groupKeys _ hmem, ?_⟩
  rw [take_keyOn]
  exact hkey

section First

variable {rows first : List Row}
  (hfirst : List.Forall₂ (IsGroupRow (coarse ++ extra) early rows)
    (groupKeys (coarse ++ extra) rows) first)
include h

/-- A row of the first stage has the coarse key of its rows. -/
theorem keyOn_of_first {k : List Value} (hk : k ∈ groupKeys (coarse ++ extra) rows) {row : Row}
    (hrow : IsGroupRow (coarse ++ extra) early rows k row) :
    keyOn (columns.map .col) row = k.take coarse.length := by
  obtain ⟨r, rfl⟩ := exists_keyOn hk
  rw [take_keyOn, keyOn, keyOn, List.map_map]
  refine (map_eq_map_of_forall₂ h.given fun e he c _ hc => ?_).symm
  exact (h.first.cell_key hrow (List.mem_append_left _ he) hc).symm

/-- A late call has the arguments that it has on the rows of a fine group. -/
theorem argsOn_of_first {n : NamedCall} (hn : n ∈ late) {r row : Row}
    (hrow : IsGroupRow (coarse ++ extra) early rows (keyOn (coarse ++ extra) r) row) :
    n.call.argsOn row = n.call.argsOn r := by
  refine List.map_congr_left fun a ha => Expr.eval_congr fun c hc => ?_
  obtain ⟨e, he, o, ho, hkey, heval⟩ := h.reads n hn a ha c hc
  rw [← hkey, h.first.cell_key hrow he ho, heval, hkey]

include hfirst

/-- **The second stage has the groups that are asked for**, in their order. -/
theorem groupKeys_second : groupKeys (columns.map .col) first = groupKeys coarse rows := by
  have hmap : first.map (keyOn (columns.map .col)) =
      (groupKeys (coarse ++ extra) rows).map (List.take coarse.length) :=
    (map_eq_map_of_forall₂ hfirst fun k hk row _ hrow => (h.keyOn_of_first hk hrow).symm).symm
  cases hcoarse : coarse with
  | nil =>
    have hcolumns := h.given
    rw [hcoarse, List.forall₂_nil_left_iff] at hcolumns
    rw [hcolumns]
    rfl
  | cons e es =>
    have hne : (columns.map Expr.col).isEmpty = false := by
      have := h.given
      rw [hcoarse] at this
      cases this
      rfl
    have hfine : groupKeys (coarse ++ extra) rows =
        (rows.map (keyOn (coarse ++ extra))).eraseDups := by
      rw [groupKeys, hcoarse]
      rfl
    have htake : (rows.map (keyOn (coarse ++ extra))).map (List.take coarse.length) =
        rows.map (keyOn coarse) := by
      rw [List.map_map]
      exact List.map_congr_left fun row _ => take_keyOn coarse extra row
    rw [groupKeys, hne, hmap, hfine, if_neg (by simp), eraseDups_map_eraseDups, htake, ← hcoarse,
      groupKeys, hcoarse]
    rfl

/-- The rows of a group of the second stage are those of the fine groups in it. -/
theorem rowsWith_second (key : List Value) :
    List.Forall₂ (fun k row => k ∈ groupKeys (coarse ++ extra) rows ∧
        IsGroupRow (coarse ++ extra) early rows k row)
      (parts coarse extra rows key) (rowsWith (columns.map .col) first key) := by
  have hmem : List.Forall₂ (fun k row => k ∈ groupKeys (coarse ++ extra) rows ∧
      IsGroupRow (coarse ++ extra) early rows k row) (groupKeys (coarse ++ extra) rows) first :=
    forall₂_imp_of_mem hfirst fun k hk _ _ hrow => ⟨hk, hrow⟩
  refine List.rel_filter (fun k row hrow => ?_) hmem
  show decide (k.take coarse.length = key) = true ↔ decide (keyOn _ row = key) = true
  rw [h.keyOn_of_first hrow.1 hrow.2]

/-! ## Calls -/

omit hfirst in
/-- An early call has a value for each fine group, and its finisher merges these. -/
theorem valueOn_parts {n : NamedCall} (hn : n ∈ early) {key : List Value}
    (hexact : n.call.Exact (rowsWith coarse rows key)) (hrows : rows.length < 2 ^ 63)
    (hcount : n.call.func = .count → parts coarse extra rows key ≠ []) {v : Value}
    (hv : n.call.valueOn (rowsWith coarse rows key) = .ok v) :
    ∃ vs, List.Forall₂ (fun k w => n.call.valueOn (rowsWith (coarse ++ extra) rows k) = .ok w)
        (parts coarse extra rows key) vs ∧
      n.call.finisher.fold (vs.map fun v => [v]) = .ok v := by
  obtain ⟨f, hf⟩ := Option.isSome_iff_exists.mp (h.merges n hn)
  have hfinisher : n.call.finisher = f := by rw [AggregateCall.finisher, hf, Option.getD_some]
  obtain ⟨vs, hvs, hmerge⟩ := AggregateCall.valueOn_merge (perm_parts coarse extra rows key) hf
    hexact (fun hc => by simpa using hcount hc) ((List.length_filter_le ..).trans_lt hrows) hv
  exact ⟨vs, List.forall₂_map_left_iff.mp hvs, hfinisher ▸ hmerge⟩

/-- What an early call has left in the second stage merges into its value. -/
theorem valueOn_early {n : NamedCall} (hn : n ∈ early) {key : List Value}
    (hexact : n.call.Exact (rowsWith coarse rows key)) (hrows : rows.length < 2 ^ 63)
    (hcount : n.call.func = .count → parts coarse extra rows key ≠ []) {v : Value}
    (hv : n.call.valueOn (rowsWith coarse rows key) = .ok v) :
    (n.folded n.call.finisher).call.valueOn (rowsWith (columns.map .col) first key) = .ok v := by
  obtain ⟨vs, hvs, hmerge⟩ := h.valueOn_parts hn hexact hrows hcount hv
  -- the rows of the second stage hold what the parts come to
  have hcells : (rowsWith (columns.map .col) first key).map
      (fun row => row.cell n.output.rowKey) = vs := by
    have hsecond := h.rowsWith_second hfirst key
    rw [← List.forall₂_eq_eq_eq, List.forall₂_map_left_iff]
    have hboth := forall₂_comp_iff.mp ⟨_, hsecond.flip, hvs⟩
    refine hboth.imp ?_
    rintro row v ⟨k, ⟨hk, hrow⟩, hvalue⟩
    obtain ⟨r, rfl⟩ := exists_keyOn hk
    have hcell := (h.first.isGroupRow_iff.mp hrow).2 n hn
    exact Except.ok.inj (hcell.symm.trans hvalue)
  rw [NamedCall.valueOn_folded, hcells]
  exact hmerge

/-- **A late call sees what it needs**: one row for each fine group. -/
theorem valueOn_late (hsome : coarse ++ extra ≠ [] ∨ rows ≠ []) {n : NamedCall} (hn : n ∈ late)
    {key : List Value} (hexact : n.call.Exact (rowsWith coarse rows key)) {v : Value}
    (hv : n.call.valueOn (rowsWith coarse rows key) = .ok v) :
    n.call.valueOn (rowsWith (columns.map .col) first key) = .ok v := by
  refine AggregateCall.valueOn_congr_of_eraseDups (h.ignores n hn) hexact ?_ hv
  -- arguments as a function of the fine key, by a row with that key
  have hrep : ∀ k ∈ groupKeys (coarse ++ extra) rows, ∃ t, ∀ r,
      keyOn (coarse ++ extra) r = k → n.call.argsOn r = t := by
    intro k hk
    obtain ⟨row, -, hrow⟩ := forall₂_exists_of_mem hfirst hk
    exact ⟨n.call.argsOn row, fun r hr => (h.argsOn_of_first hn (hr ▸ hrow)).symm⟩
  have : Nonempty (List Value) := ⟨[]⟩
  choose! args hargs using hrep
  have hfine : (rowsWith coarse rows key).map n.call.argsOn =
      ((rowsWith coarse rows key).map (keyOn (coarse ++ extra))).map args := by
    rw [List.map_map]
    refine List.map_congr_left fun r hr => ?_
    exact hargs _ (keyOn_mem_groupKeys _ (List.mem_of_mem_filter hr)) r rfl
  have hparts : parts coarse extra rows key =
      ((rowsWith coarse rows key).map (keyOn (coarse ++ extra))).eraseDups := by
    rw [parts, groupKeys_eq_eraseDups hsome, filter_eraseDups, List.filter_map, rowsWith]
    refine congrArg (fun l : List Row => (l.map (keyOn (coarse ++ extra))).eraseDups)
      (List.filter_congr fun row _ => ?_)
    rw [Function.comp_apply, take_keyOn]
  have hsecond : (rowsWith (columns.map .col) first key).map n.call.argsOn =
      (parts coarse extra rows key).map args := by
    refine (map_eq_map_of_forall₂ (h.rowsWith_second hfirst key) fun k _ row _ hrow => ?_).symm
    obtain ⟨r, rfl⟩ := exists_keyOn hrow.1
    rw [h.argsOn_of_first hn hrow.2, hargs _ hrow.1 r rfl]
  rw [hfine, hsecond, hparts, eraseDups_map_eraseDups]

omit hfirst in
/-- Without keys, late calls read nothing. -/
theorem argsOn_of_no_keys (hnil : coarse ++ extra = []) {n : NamedCall} (hn : n ∈ late)
    (row row' : Row) : n.call.argsOn row = n.call.argsOn row' := by
  refine List.map_congr_left fun a ha => Expr.eval_congr fun c hc => ?_
  obtain ⟨e, he, -⟩ := h.reads n hn a ha c hc
  rw [hnil] at he
  cases he

/-- Without keys, late calls see one row, whether there were rows or not. -/
theorem valueOn_of_no_keys (hnil : coarse ++ extra = []) {n : NamedCall} (hn : n ∈ late) :
    n.call.valueOn (rowsWith (columns.map .col) first []) = n.call.valueOn [.empty] := by
  have hsecond := h.rowsWith_second hfirst []
  have hparts : parts coarse extra rows [] = [[]] := by
    rw [parts, hnil, (List.append_eq_nil_iff.mp hnil).1]
    rfl
  rw [hparts, List.forall₂_cons_left_iff] at hsecond
  obtain ⟨row, rest, -, hrest, heq⟩ := hsecond
  rw [List.forall₂_nil_left_iff] at hrest
  rw [heq, hrest]
  refine AggregateCall.valueOn_congr (congrArg (fun t => [t]) ?_)
  exact h.argsOn_of_no_keys hnil hn row .empty

end First

/-! ## Both stages -/

/-- The calls of the second stage: the late ones, and what merges the early ones. -/
def finals (early late : List NamedCall) : List NamedCall :=
  late ++ early.map fun n => n.folded n.call.finisher

theorem map_output_finals (early late : List NamedCall) :
    (finals early late).map NamedCall.output = (late ++ early).map NamedCall.output := by
  rw [finals, List.map_append, List.map_append, List.map_map]
  rfl

theorem parts_ne_nil {rows : List Row} {key : List Value} (hkey : key ∈ groupKeys coarse rows)
    (hne : coarse ≠ [] ∨ extra = [] ∨ rows ≠ []) : parts coarse extra rows key ≠ [] := by
  have hrow {row : Row} (hrow : row ∈ rows) (hk : keyOn coarse row = key) :
      parts coarse extra rows key ≠ [] := by
    refine List.ne_nil_of_mem (a := keyOn (coarse ++ extra) row) (List.mem_filter.mpr ⟨?_, ?_⟩)
    · exact keyOn_mem_groupKeys _ hrow
    · rw [take_keyOn, hk, decide_eq_true rfl]
  obtain ⟨rfl, rfl⟩ | ⟨row, hmem, hk⟩ := mem_groupKeys hkey
  · rcases hne with hne | rfl | hne
    · exact absurd rfl hne
    · exact List.ne_nil_of_mem (a := []) (List.mem_singleton.mpr rfl)
    · obtain ⟨row, hmem⟩ := List.exists_mem_of_ne_nil rows hne
      exact hrow hmem rfl
  · exact hrow hmem hk

theorem groupRow_cells (names : List String) (ns : List NamedCall) (key : List Value) (row : Row) :
    groupRow names ns key (ns.map fun n => row.cell n.output.rowKey) =
      .ofCells (names.zip key ++
        (ns.map NamedCall.output).map fun c => (c.rowKey, row.cell c.rowKey)) := by
  rw [groupRow, List.zip_map', List.map_map]
  rfl

section Both

variable {ns : List NamedCall} (hns : ns.Perm (late ++ early)) {rows out : List Row}
include h

/-- Both stages name the keys alike. -/
theorem filterMap_output?_columns :
    (columns.map Expr.col).filterMap Expr.output? = coarse.filterMap Expr.output? := by
  have hgiven := h.given
  clear h
  induction hgiven with
  | nil => rfl
  | @cons e c _ _ hc _ ih =>
    have hcol : (Expr.col c).output? = some c := rfl
    rw [List.map_cons, List.filterMap_cons_some hcol, List.filterMap_cons_some hc, ih]

theorem legible_direct (hns : ns.Perm (late ++ early)) : Legible coarse ns where
  named e he := h.first.named e (List.mem_append_left _ he)
  agree a ha b hb := h.first.agree a (List.mem_append_left _ ha) b (List.mem_append_left _ hb)
  apart a ha c hc n hn := by
    obtain ⟨d, hd, had⟩ := forall₂_exists_of_mem h.given ha
    obtain rfl : d = c := Option.some.inj (had.symm.trans hc)
    exact h.second.apart (.col d) (List.mem_map_of_mem hd) d rfl n (hns.mem_iff.mp hn)
  results := (hns.map _).nodup_iff.mpr h.second.results

theorem legible_finals : Legible (columns.map .col) (finals early late) :=
  h.second.of_perm (.of_eq (map_output_finals early late))

variable (hdirect : List.Forall₂ (IsGroupRow coarse ns rows) (groupKeys coarse rows) out)
include hns hdirect

/-- Without keys and without rows, the late calls see a row where there is none.  If that makes a
difference to one of them, two stages do not give what one gives. -/
theorem groupAndFold_ne_ok (hnil : coarse ++ extra = []) (hempty : rows = []) {first : List Row}
    (hfirst : List.Forall₂ (IsGroupRow (coarse ++ extra) early rows)
      (groupKeys (coarse ++ extra) rows) first)
    {n : NamedCall} (hn : n ∈ late) (hne : n.call.valueOn [.empty] ≠ n.call.valueOn []) :
    groupAndFold first (columns.map .col) ((finals early late).map NamedCall.expr) ≠ .ok out := by
  intro hrun
  replace hrun := (groupAndFold_eq_ok_iff h.second.named _).mp hrun
  rw [h.groupKeys_second hfirst] at hrun
  have hcoarse : coarse = [] := (List.append_eq_nil_iff.mp hnil).1
  have hcolumns : columns = [] := by
    have hgiven := h.given
    rwa [hcoarse, List.forall₂_nil_left_iff] at hgiven
  have hone : groupKeys coarse rows = [[]] := by rw [hcoarse]; rfl
  rw [hone, List.forall₂_cons_left_iff] at hdirect hrun
  obtain ⟨d, rest, hd, -, rfl⟩ := hdirect
  obtain ⟨d', rest', hd', -, hcons⟩ := hrun
  obtain rfl : d = d' := (List.cons.inj hcons).1
  -- one value over no rows, another over the row of the first stage, in one cell
  have hkey : keyOn coarse .empty = [] := by rw [hcoarse]; rfl
  have hkey' : keyOn (columns.map .col) .empty = [] := by rw [hcolumns]; rfl
  rw [← hkey] at hd
  rw [← hkey'] at hd'
  have hnone := ((h.legible_direct hns).isGroupRow_iff.mp hd).2 n
    (hns.mem_iff.mpr (List.mem_append_left _ hn))
  have hsome := (h.legible_finals.isGroupRow_iff.mp hd').2 n (List.mem_append_left _ hn)
  rw [hempty] at hnone
  rw [hkey', h.valueOn_of_no_keys hfirst hnil hn] at hsome
  exact hne (hsome.trans hnone.symm)

variable (hexact : ∀ n ∈ ns, ∀ key ∈ groupKeys coarse rows, n.call.Exact (rowsWith coarse rows key))
  (hrows : rows.length < 2 ^ 63)
include hexact hrows

/-- Where the grouping succeeds, its first stage does. -/
theorem exists_first : ∃ first, List.Forall₂ (IsGroupRow (coarse ++ extra) early rows)
    (groupKeys (coarse ++ extra) rows) first := by
  refine exists_forall₂ fun k hk => ?_
  obtain ⟨r, rfl⟩ := exists_keyOn hk
  have hkey : keyOn coarse r ∈ groupKeys coarse rows := by
    obtain ⟨hnil, -⟩ | ⟨row, hrow, hk⟩ := mem_groupKeys hk
    · rw [(List.append_eq_nil_iff.mp hnil).1]
      exact List.mem_singleton.mpr rfl
    · rw [← take_keyOn coarse extra, ← hk, take_keyOn]
      exact keyOn_mem_groupKeys coarse hrow
  have hpart : keyOn (coarse ++ extra) r ∈ parts coarse extra rows (keyOn coarse r) :=
    List.mem_filter.mpr ⟨hk, by rw [take_keyOn, decide_eq_true rfl]⟩
  obtain ⟨d, -, hd⟩ := forall₂_exists_of_mem hdirect hkey
  have hvalue : ∀ n ∈ early, ∃ v,
      n.call.valueOn (rowsWith (coarse ++ extra) rows (keyOn (coarse ++ extra) r)) = .ok v := by
    intro n hn
    have hmem : n ∈ ns := hns.mem_iff.mpr (List.mem_append_right _ hn)
    obtain ⟨vs, hvs, -⟩ := h.valueOn_parts hn (hexact n hmem _ hkey) hrows
      (fun _ => List.ne_nil_of_mem hpart)
      (((h.legible_direct hns).isGroupRow_iff.mp hd).2 n hmem)
    obtain ⟨v, -, hv⟩ := forall₂_exists_of_mem hvs hpart
    exact ⟨v, hv⟩
  obtain ⟨vs, hvs⟩ := exists_forall₂ hvalue
  exact ⟨_, vs, hvs, rfl⟩

/-- **Two stages give what one gives**, if the early counts have something to add up and the late
calls see what they need. -/
theorem groupAndFold_eq_ok (hcount : ∀ n ∈ early, n.call.func = .count →
      coarse ≠ [] ∨ extra = [] ∨ rows ≠ [])
    (hlate : ∀ first, List.Forall₂ (IsGroupRow (coarse ++ extra) early rows)
        (groupKeys (coarse ++ extra) rows) first → ∀ n ∈ late, ∀ key ∈ groupKeys coarse rows, ∀ v,
      n.call.valueOn (rowsWith coarse rows key) = .ok v →
        n.call.valueOn (rowsWith (columns.map .col) first key) = .ok v) :
    ∃ first, groupAndFold rows (coarse ++ extra) (early.map NamedCall.expr) = .ok first ∧
      groupAndFold first (columns.map .col) ((finals early late).map NamedCall.expr) = .ok out := by
  obtain ⟨first, hfirst⟩ := h.exists_first hns hdirect hexact hrows
  refine ⟨first, (groupAndFold_eq_ok_iff h.first.named early).mpr hfirst, ?_⟩
  rw [groupAndFold_eq_ok_iff h.second.named, h.groupKeys_second hfirst]
  refine forall₂_imp_of_mem hdirect fun key hkey d _ hd => ?_
  obtain ⟨r', hr'⟩ := exists_keyOn (h.groupKeys_second hfirst ▸ hkey)
  obtain ⟨r, rfl⟩ := exists_keyOn hkey
  obtain ⟨hcells, hvalue⟩ := (h.legible_direct hns).isGroupRow_iff.mp hd
  rw [← hr', h.legible_finals.isGroupRow_iff, hr']
  refine ⟨?_, fun n hn => ?_⟩
  · rw [groupRow_cells, map_output_finals, h.filterMap_output?_columns]
    rw [groupRow_cells] at hcells
    refine hcells.trans (Row.ofCells_congr ?_ fun c => ?_)
    · have hcons := (h.legible_direct hns).consistent r
        (ns.map fun n => d.cell n.output.rowKey)
      rw [List.zip_map'] at hcons
      rwa [List.map_map]
    · rw [List.mem_append, List.mem_append, ((hns.map NamedCall.output).map _).mem_iff]
  · rw [finals, List.mem_append, List.mem_map] at hn
    rcases hn with hn | ⟨m, hm, rfl⟩
    · exact hlate first hfirst n hn _ hkey _
        (hvalue n (hns.mem_iff.mpr (List.mem_append_left _ hn)))
    · have hmem := hns.mem_iff.mpr (List.mem_append_right late hm)
      exact h.valueOn_early hfirst hm (hexact m hmem _ hkey) hrows
        (fun hc => parts_ne_nil hkey (hcount m hm hc)) (hvalue m hmem)

end Both

end TwoStages

end QueryPlan
