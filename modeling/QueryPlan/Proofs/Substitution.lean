import QueryPlan.Proofs.Cells
import QueryPlan.Proofs.Evaluation
import QueryPlan.Proofs.Lists

/-!
# Substituting definitions

An expression above a projection means the same below it once the definitions are put in for what
it reads: `Transparent.eval_readThrough`.  What that takes of the projection list is that each
identity means one thing, above and below.

* **Definitions.**  An entry defines something if it is an alias and does not read its own identity
  (`Expr.definition?_eq_some_iff`).  A column without a definition stands for itself.
* **Transparent lists.**  Every entry has a name.  An alias may pass a column on under the column's
  own identity and name (`Expr.PassesOn`), and any other alias is an identity that nothing in the
  list reads.  An identity that is given twice is given the same thing.
* **Below.**  In a transparent list an output stands for an expression that has the value of its
  entry (`eval_definitionOf`) and reads what the list reads (`columns_definitionOf`).
* **Above.**  A projected row holds that value under the output (`cell_projectOne`): entries with
  one key have one value, so it does not matter which of them is written last.
* **In between.**  Since nothing that is put in has a definition again, reading through a
  transparent list replaces columns by their definitions once (`readThrough_eq_bind`), and replacing
  commutes with evaluating.

A list that gives each identity once and has fresh aliases is transparent
(`eval_readThrough_of_nodup`).  So a predicate in such a list can be tested before the projection,
although the projection leaves it in a cell as a value.
-/

set_option autoImplicit false

namespace QueryPlan

/-! ## Maps from lists -/

namespace IdMap

variable {α : Type}

theorem ofList_append (entries : List (ColumnId × α)) (id : ColumnId) (a : α) :
    ofList (entries ++ [(id, a)]) = (ofList entries).insert id a := by
  simp [ofList]

theorem mem_of_get?_ofList {entries : List (ColumnId × α)} {id : ColumnId} {a : α}
    (h : (ofList entries).get? id = some a) : (id, a) ∈ entries := by
  induction entries using List.reverseRecOn with
  | nil => cases h
  | append_singleton entries e ih =>
    obtain ⟨i, b⟩ := e
    rw [ofList_append, get?_insert] at h
    split at h
    · next hid =>
      cases h
      rw [hid]
      exact List.mem_append_right _ List.mem_cons_self
    · exact List.mem_append_left _ (ih h)

theorem isSome_get?_ofList {entries : List (ColumnId × α)} {id : ColumnId} {a : α}
    (h : (id, a) ∈ entries) : ((ofList entries).get? id).isSome := by
  induction entries using List.reverseRecOn with
  | nil => cases h
  | append_singleton entries e ih =>
    obtain ⟨i, b⟩ := e
    rw [ofList_append, get?_insert]
    split
    · rfl
    · next hid =>
      rcases List.mem_append.mp h with h | h
      · exact ih h
      · exact absurd (congrArg Prod.fst (List.mem_singleton.mp h)) hid

/-- Where an identity comes with one value only, the map has that value. -/
theorem get?_ofList {entries : List (ColumnId × α)} {id : ColumnId} {a : α}
    (h : (id, a) ∈ entries) (hone : ∀ b, (id, b) ∈ entries → b = a) :
    (ofList entries).get? id = some a := by
  obtain ⟨b, hb⟩ := Option.isSome_iff_exists.mp (isSome_get?_ofList h)
  rw [hb, hone b (mem_of_get?_ofList hb)]

end IdMap

/-! ## Lists of named expressions -/

namespace Expr

/-- An expression with a name is a column, or an alias of an expression. -/
theorem entry_cases {e : Expr} (h : e.output?.isSome) :
    (∃ c, e = col c) ∨ ∃ operand output, e = named operand output := by
  cases e with
  | col c => exact .inl ⟨c, rfl⟩
  | named operand output => exact .inr ⟨operand, output, rfl⟩
  | _ => cases h

variable {exprs : List Expr}

/-- Named expressions and their names. -/
theorem forall₂_output (h : ∀ e ∈ exprs, e.output?.isSome) :
    List.Forall₂ (fun e c => e.output? = some c) exprs (exprs.filterMap output?) := by
  induction exprs with
  | nil => exact .nil
  | cons e rest ih =>
    obtain ⟨c, hc⟩ := Option.isSome_iff_exists.mp (h e List.mem_cons_self)
    rw [List.filterMap_cons_some hc]
    exact .cons hc (ih fun x hx => h x (List.mem_cons_of_mem _ hx))

theorem mapM_outputKey (h : ∀ e ∈ exprs, e.output?.isSome) :
    exprs.mapM outputKey = .ok ((exprs.filterMap output?).map Column.rowKey) := by
  rw [mapM_eq_ok_iff, List.forall₂_map_right_iff]
  refine (forall₂_output h).imp fun e c hc => ?_
  rw [outputKey, hc]

/-- Values under the keys of the expressions they come from. -/
theorem zip_outputKeys {β : Type} (h : ∀ e ∈ exprs, e.output?.isSome) (f : Expr → β) :
    ((exprs.filterMap output?).map Column.rowKey).zip (exprs.map f) =
      exprs.filterMap fun e => e.output?.map fun c => (c.rowKey, f e) := by
  induction exprs with
  | nil => rfl
  | cons e rest ih =>
    obtain ⟨c, hc⟩ := Option.isSome_iff_exists.mp (h e List.mem_cons_self)
    rw [List.filterMap_cons_some hc, List.filterMap_cons_some (by rw [hc, Option.map_some]),
      List.map_cons, List.map_cons, List.zip_cons_cons,
      ih fun x hx => h x (List.mem_cons_of_mem _ hx)]

end Expr

/-! ## What a list defines -/

/-- An entry defines something if it is an alias and does not read its own identity. -/
theorem Expr.definition?_eq_some_iff {e x : Expr} {id : ColumnId} :
    e.definition? = some (id, x) ↔
      ∃ output, e = named x output ∧ output.id = id ∧ ∀ c ∈ x.columns, c.id ≠ id := by
  constructor
  · intro h
    cases e with
    | named operand output =>
      rw [definition?] at h
      split at h
      · cases h
      · next hself =>
        cases h
        refine ⟨output, rfl, rfl, fun c hc hid => hself (List.any_eq_true.mpr ?_)⟩
        obtain ⟨d, hd, hdc⟩ := Column.exists_mem_distinct hc
        exact ⟨d, hd, beq_iff_eq.mpr (hdc.trans hid)⟩
    | _ => cases h
  · rintro ⟨output, rfl, rfl, hself⟩
    rw [definition?, if_neg]
    intro hany
    obtain ⟨c, hc, hid⟩ := List.any_eq_true.mp hany
    exact hself c (Column.mem_of_mem_distinct hc) (beq_iff_eq.mp hid)

theorem exists_alias_of_definition {exprs : List Expr} {id : ColumnId} {x : Expr}
    (h : (definitionsOf exprs).get? id = some x) :
    ∃ output, Expr.named x output ∈ exprs ∧ output.id = id ∧ ∀ c ∈ x.columns, c.id ≠ id := by
  obtain ⟨e, he, hdef⟩ := List.mem_filterMap.mp (IdMap.mem_of_get?_ofList h)
  obtain ⟨output, rfl, hid, hself⟩ := Expr.definition?_eq_some_iff.mp hdef
  exact ⟨output, he, hid, hself⟩

/-- A column without a definition stands for itself. -/
theorem IdMap.definitionOf_eq_col {definitions : IdMap Expr} {c : Column}
    (h : definitions.get? c.id = none) : definitions.definitionOf c = .col c := by
  rw [definitionOf, h, Option.getD_none]

/-- A column that is no alias stands for itself. -/
theorem definitionOf_of_no_alias {exprs : List Expr} {c : Column}
    (hc : ∀ operand output, Expr.named operand output ∈ exprs → output.id ≠ c.id) :
    (definitionsOf exprs).definitionOf c = .col c := by
  refine IdMap.definitionOf_eq_col (Option.eq_none_iff_forall_ne_some.mpr fun x hget => ?_)
  obtain ⟨output, hx, hid, -⟩ := exists_alias_of_definition hget
  exact hc x output hx hid

/-! ## Transparent lists -/

/-- Whether an expression is a column, perhaps under aliases, with the identity and the name of an
output. -/
def Expr.PassesOn (output : Column) : Expr → Prop
  | col c => c.id = output.id ∧ c.name = output.name
  | named operand _ => operand.PassesOn output
  | _ => False

namespace Expr.PassesOn

variable {output : Column} {e : Expr}

theorem among (h : e.PassesOn output) : output.Among e.columns := by
  induction e using children_induction with
  | step e ih =>
    cases e with
    | col c => exact ⟨c, by simp, h.1, h.2⟩
    | named operand _ =>
      obtain ⟨c, hc, hid, hname⟩ := ih operand List.mem_cons_self h
      exact ⟨c, mem_columns_named.mpr hc, hid, hname⟩
    | _ => cases h

theorem eval_eq (h : e.PassesOn output) (row : Row) : e.eval row = row.cell output.rowKey := by
  induction e using children_induction with
  | step e ih =>
    cases e with
    | col c => rw [eval, Column.rowKey, Column.rowKey, h.1, h.2]
    | named operand _ => exact ih operand List.mem_cons_self h
    | _ => cases h

end Expr.PassesOn

/-- A projection list in which each identity means one thing. -/
structure Transparent (exprs : List Expr) : Prop where
  /-- Each entry has a name. -/
  named : ∀ e ∈ exprs, e.output?.isSome
  /-- An alias passes a column on, or nothing reads its identity. -/
  fresh : ∀ operand output, .named operand output ∈ exprs →
    operand.PassesOn output ∨ ∀ e ∈ exprs, ∀ c ∈ e.columns, c.id ≠ output.id
  /-- Aliases with one identity are the same. -/
  once : ∀ operand output operand' output', .named operand output ∈ exprs →
    .named operand' output' ∈ exprs → output.id = output'.id → operand = operand' ∧ output = output'

namespace Transparent

section

variable {exprs : List Expr} (h : Transparent exprs)
include h

/-- A column that the list reads has no definition. -/
theorem get?_read {c : Column} (hc : ∃ e ∈ exprs, ∃ d ∈ e.columns, d.id = c.id) :
    (definitionsOf exprs).get? c.id = none := by
  refine Option.eq_none_iff_forall_ne_some.mpr fun x hget => ?_
  obtain ⟨output, hx, hid, hself⟩ := exists_alias_of_definition hget
  obtain ⟨e, he, d, hd, hdc⟩ := hc
  rcases h.fresh x output hx with hpass | hfresh
  · obtain ⟨d, hd, hdid, -⟩ := hpass.among
    exact hself d hd (hdid.trans hid)
  · exact hfresh e he d hd (hdc.trans hid.symm)

/-- A column that the list reads stands for itself. -/
theorem definitionOf_read {c : Column} (hc : ∃ e ∈ exprs, ∃ d ∈ e.columns, d.id = c.id) :
    (definitionsOf exprs).definitionOf c = .col c :=
  IdMap.definitionOf_eq_col (h.get?_read hc)

/-- An alias that nothing reads stands for what is under it. -/
theorem definitionOf_fresh {operand : Expr} {output c : Column}
    (he : Expr.named operand output ∈ exprs)
    (hfresh : ∀ e ∈ exprs, ∀ d ∈ e.columns, d.id ≠ output.id) (hid : output.id = c.id) :
    (definitionsOf exprs).definitionOf c = operand := by
  have hself : ∀ d ∈ operand.columns, d.id ≠ c.id := fun d hd =>
    hid ▸ hfresh _ he d (Expr.mem_columns_named.mpr hd)
  have hget : (definitionsOf exprs).get? c.id = some operand := by
    refine IdMap.get?_ofList (List.mem_filterMap.mpr ⟨_, he, ?_⟩) fun x hx => ?_
    · exact Expr.definition?_eq_some_iff.mpr ⟨output, rfl, hid, hself⟩
    · obtain ⟨e, hmem, hdef⟩ := List.mem_filterMap.mp hx
      obtain ⟨output', rfl, hid', -⟩ := Expr.definition?_eq_some_iff.mp hdef
      exact (h.once _ _ _ _ hmem he (hid'.trans hid.symm)).1
  rw [IdMap.definitionOf, hget, Option.getD_some]

/-- An output stands for an expression that has the value of its entry. -/
theorem eval_definitionOf {e : Expr} {o c : Column} (he : e ∈ exprs) (ho : e.output? = some o)
    (hid : o.id = c.id) (hname : o.name = c.name) (row : Row) :
    ((definitionsOf exprs).definitionOf c).eval row = e.eval row := by
  have hkey : o.rowKey = c.rowKey := by rw [Column.rowKey, Column.rowKey, hid, hname]
  obtain ⟨x, rfl⟩ | ⟨operand, output, rfl⟩ := Expr.entry_cases (h.named _ he)
  · obtain rfl : x = o := Option.some.inj ho
    rw [h.definitionOf_read ⟨_, he, x, by simp, hid⟩, Expr.eval, Expr.eval, hkey]
  · obtain rfl : output = o := Option.some.inj ho
    rcases h.fresh operand output he with hpass | hfresh
    · obtain ⟨d, hd, hdid, -⟩ := hpass.among
      rw [h.definitionOf_read ⟨_, he, d, Expr.mem_columns_named.mpr hd, hdid.trans hid⟩,
        Expr.eval, Expr.eval, hpass.eval_eq, hkey]
    · rw [h.definitionOf_fresh he hfresh hid, Expr.eval]

/-- What an output stands for reads what the list reads. -/
theorem columns_definitionOf {c : Column} (hc : c.Among (exprs.filterMap Expr.output?)) :
    ∀ d ∈ ((definitionsOf exprs).definitionOf c).columns, d.Among (exprs.flatMap Expr.columns) := by
  obtain ⟨o, ho, hid, hname⟩ := hc
  obtain ⟨e, he, heo⟩ := List.mem_filterMap.mp ho
  -- a column of the entry that has the identity of the output is one of the list
  have hself {x : Column} (hx : x ∈ e.columns) (hxid : x.id = o.id) (hxname : x.name = o.name) :
      ∀ d ∈ ((definitionsOf exprs).definitionOf c).columns,
        d.Among (exprs.flatMap Expr.columns) := by
    rw [h.definitionOf_read ⟨e, he, x, hx, hxid.trans hid⟩]
    intro d hd
    obtain rfl : d = c := by simpa using hd
    exact ⟨x, List.mem_flatMap.mpr ⟨e, he, hx⟩, hxid.trans hid, hxname.trans hname⟩
  obtain ⟨x, rfl⟩ | ⟨operand, output, rfl⟩ := Expr.entry_cases (h.named _ he)
  · obtain rfl : x = o := Option.some.inj heo
    exact hself (by simp) rfl rfl
  · obtain rfl : output = o := Option.some.inj heo
    rcases h.fresh operand output he with hpass | hfresh
    · obtain ⟨x, hx, hxid, hxname⟩ := hpass.among
      exact hself (Expr.mem_columns_named.mpr hx) hxid hxname
    · rw [h.definitionOf_fresh he hfresh hid]
      exact fun d hd =>
        ⟨d, List.mem_flatMap.mpr ⟨_, he, Expr.mem_columns_named.mpr hd⟩, rfl, rfl⟩

/-- Entries with one key have one value. -/
theorem consistent_cells (row : Row) :
    Row.Consistent (exprs.filterMap fun e => e.output?.map fun c => (c.rowKey, e.eval row)) := by
  intro key v w hv hw
  simp only [List.mem_filterMap, Option.map_eq_some_iff, Prod.mk.injEq] at hv hw
  obtain ⟨e, he, c, hc, hk, rfl⟩ := hv
  obtain ⟨e', he', c', hc', hk', rfl⟩ := hw
  obtain ⟨hid, hname⟩ := Column.rowKey_inj (hk.trans hk'.symm)
  rw [← h.eval_definitionOf he hc hid hname, h.eval_definitionOf he' hc' rfl rfl]

/-- A projected row holds, under an output, the value of what the output stands for. -/
theorem cell_projectOne (row : Row) {c : Column} (hc : c.Among (exprs.filterMap Expr.output?)) :
    (projectOne ((exprs.filterMap Expr.output?).map Column.rowKey) exprs row).cell c.rowKey =
      ((definitionsOf exprs).definitionOf c).eval row := by
  obtain ⟨o, ho, hid, hname⟩ := hc
  obtain ⟨e, he, heo⟩ := List.mem_filterMap.mp ho
  rw [projectOne, Expr.zip_outputKeys h.named, h.eval_definitionOf he heo hid hname]
  refine Row.cell_ofCells (h.consistent_cells row) (List.mem_filterMap.mpr ⟨e, he, ?_⟩)
  rw [heo, Option.map_some, Column.rowKey, Column.rowKey, hid, hname]

section Reading

variable {e : Expr} (he : ∀ c ∈ e.columns, c.Among (exprs.filterMap Expr.output?))
include he

/-- Reading through a transparent list replaces columns by their definitions, once. -/
theorem readThrough_eq_bind :
    readThrough (definitionsOf exprs) e = e.bind (definitionsOf exprs).definitionOf := by
  refine Expr.readThrough_eq_bind fun c hc d hd => h.definitionOf_read ?_
  obtain ⟨x, hx, hid, -⟩ := h.columns_definitionOf (he c hc) d hd
  obtain ⟨y, hy, hxy⟩ := List.mem_flatMap.mp hx
  exact ⟨y, hy, x, hxy, hid⟩

/-- What is read through a transparent list reads what the list reads. -/
theorem columns_readThrough :
    ∀ d ∈ (readThrough (definitionsOf exprs) e).columns, d.Among (exprs.flatMap Expr.columns) := by
  intro d hd
  rw [h.readThrough_eq_bind he, Expr.columns_bind] at hd
  obtain ⟨c, hc, hdc⟩ := List.mem_flatMap.mp hd
  exact h.columns_definitionOf (he c hc) d hdc

/-- **An expression means below a projection, read through it, what it means above.** -/
theorem eval_readThrough (row : Row) :
    (readThrough (definitionsOf exprs) e).eval row =
      e.eval (projectOne ((exprs.filterMap Expr.output?).map Column.rowKey) exprs row) := by
  rw [h.readThrough_eq_bind he]
  exact Expr.eval_bind fun c hc => (h.cell_projectOne row (he c hc)).symm

end Reading

end

/-- A list that gives each identity once is transparent if its aliases are fresh. -/
theorem of_nodup {exprs : List Expr} (hnamed : ∀ e ∈ exprs, e.output?.isSome)
    (hnodup : ((exprs.filterMap Expr.output?).map Column.id).Nodup)
    (hfresh : ∀ operand output, .named operand output ∈ exprs →
      operand.PassesOn output ∨ ∀ e ∈ exprs, ∀ c ∈ e.columns, c.id ≠ output.id) :
    Transparent exprs where
  named := hnamed
  fresh := hfresh
  once operand output operand' output' he he' hid := by
    rw [List.map_filterMap] at hnodup
    have hsame := eq_of_nodup_filterMap hnodup he he' rfl (congrArg some hid.symm)
    simpa using hsame

end Transparent

/-- **Reading through a projection is substitution.**  Take a projection list that gives each
identity once, and whose aliases either pass a column on under its own identity and name or are read
nowhere in the list.  An expression over its outputs, read through the list, has on every row the
value and the answer that the expression has on the projected row, and it reads only what the list
reads. -/
theorem eval_readThrough_of_nodup {exprs : List Expr} (hnamed : ∀ e ∈ exprs, e.output?.isSome)
    (hnodup : ((exprs.filterMap Expr.output?).map Column.id).Nodup)
    (hfresh : ∀ operand output, .named operand output ∈ exprs →
      operand.PassesOn output ∨ ∀ e ∈ exprs, ∀ c ∈ e.columns, c.id ≠ output.id)
    {e : Expr} (he : ∀ c ∈ e.columns, c.Among (exprs.filterMap Expr.output?)) :
    ∃ project : Row → Row, (∀ rows, projectEach rows exprs = .ok (rows.map project)) ∧
      (∀ row, (readThrough (definitionsOf exprs) e).eval row = e.eval (project row) ∧
        (readThrough (definitionsOf exprs) e).truth row = e.truth (project row)) ∧
      ∀ d ∈ (readThrough (definitionsOf exprs) e).columns,
        d.Among (exprs.flatMap Expr.columns) := by
  have h : Transparent exprs := .of_nodup hnamed hnodup hfresh
  refine ⟨projectOne ((exprs.filterMap Expr.output?).map Column.rowKey) exprs, fun rows => ?_,
    fun row => ?_, h.columns_readThrough he⟩
  · rw [projectEach, Expr.mapM_outputKey hnamed]
    rfl
  · have heval := h.eval_readThrough he row
    exact ⟨heval, congrArg Value.truth heval⟩

/-- A column passed on, a number computed, and a predicate left in a cell. -/
theorem eval_readThrough_of_nodup_sizes :
    let k : Column := .plain 1 "k"
    let v : Column := .plain 2 "v"
    let size : Column := .plain 10 "size"
    let big : Column := .plain 11 "big"
    let exprs : List Expr := [.named (.col k) (k.qualify ["t"]), .named (.call "abs" [.col v]) size,
      .named (.compare (.col v) .gt (.lit (.int 5))) big]
    let e : Expr := .or [.not (.col big), .compare (.col size) .eq (.col k)]
    (∀ x ∈ exprs, x.output?.isSome) ∧ ((exprs.filterMap Expr.output?).map Column.id).Nodup ∧
      (∀ operand output, .named operand output ∈ exprs →
        operand.PassesOn output ∨ ∀ x ∈ exprs, ∀ c ∈ x.columns, c.id ≠ output.id) ∧
      (∀ c ∈ e.columns, c.Among (exprs.filterMap Expr.output?)) ∧
      readThrough (definitionsOf exprs) e =
        .or [.not (.compare (.col v) .gt (.lit (.int 5))),
          .compare (.call "abs" [.col v]) .eq (.col k)] ∧
      ∃ project : Row → Row, (∀ rows, projectEach rows exprs = .ok (rows.map project)) ∧
        (∀ row, (readThrough (definitionsOf exprs) e).eval row = e.eval (project row) ∧
          (readThrough (definitionsOf exprs) e).truth row = e.truth (project row)) ∧
        ∀ d ∈ (readThrough (definitionsOf exprs) e).columns,
          d.Among (exprs.flatMap Expr.columns) := by
  intro k v size big exprs e
  have hnamed : ∀ x ∈ exprs, x.output?.isSome := by decide
  have hnodup : ((exprs.filterMap Expr.output?).map Column.id).Nodup := by decide
  have hfresh : ∀ operand output, .named operand output ∈ exprs →
      operand.PassesOn output ∨ ∀ x ∈ exprs, ∀ c ∈ x.columns, c.id ≠ output.id := by
    intro operand output h
    rcases List.mem_cons.mp h with h | h
    · cases h
      exact .inl ⟨rfl, rfl⟩
    · have hid : 10 ≤ output.id := by
        rcases List.mem_cons.mp h with h | h
        · cases h; decide
        · cases List.mem_singleton.mp h; decide
      have hread : ∀ x ∈ exprs, ∀ c ∈ x.columns, c.id < 10 := by decide
      exact .inr fun x hx c hc => Nat.ne_of_lt (Nat.lt_of_lt_of_le (hread x hx c hc) hid)
  have he : ∀ c ∈ e.columns, c.Among (exprs.filterMap Expr.output?) := by decide
  exact ⟨hnamed, hnodup, hfresh, he, rfl, eval_readThrough_of_nodup hnamed hnodup hfresh he⟩

end QueryPlan
