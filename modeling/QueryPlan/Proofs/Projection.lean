import QueryPlan.Proofs.Substitution

/-!
# Projections of given columns

`Projects` collects the promises that a projection list in a plan keeps to its input: it reads only
columns of the input, each entry has a name, and the aliases are new identities, each given once.
Such a list is transparent (`Projects.transparent`), so that an expression above it can be read
through it, and then reads the input (`Projects.columns_readThrough`).  A column may be listed
more than once.
-/

set_option autoImplicit false

namespace QueryPlan

/-! ## Projection lists -/

/-- The column that an alias introduces. -/
def Expr.alias? : Expr → Option Column
  | named _ output => some output
  | _ => none

/-- A projection list over rows of `columns`, with aliases that are not among `taken`. -/
structure Projects (taken columns : List Column) (exprs : List Expr) : Prop where
  /-- Each entry has a name. -/
  named : ∀ e ∈ exprs, e.output?.isSome
  /-- The entries read the columns under their names. -/
  reads : ∀ e ∈ exprs, ∀ c ∈ e.columns, c.Among columns
  /-- Aliases are new. -/
  fresh : ∀ a ∈ exprs.filterMap Expr.alias?, ∀ c ∈ taken, a.id ≠ c.id
  /-- Each alias is given once. -/
  aliases : ((exprs.filterMap Expr.alias?).map Column.id).Nodup

instance (taken columns : List Column) (exprs : List Expr) :
    Decidable (Projects taken columns exprs) :=
  decidable_of_iff ((∀ e ∈ exprs, e.output?.isSome) ∧
    (∀ e ∈ exprs, ∀ c ∈ e.columns, c.Among columns) ∧
    (∀ a ∈ exprs.filterMap Expr.alias?, ∀ c ∈ taken, a.id ≠ c.id) ∧
    ((exprs.filterMap Expr.alias?).map Column.id).Nodup)
    ⟨fun ⟨h₁, h₂, h₃, h₄⟩ => ⟨h₁, h₂, h₃, h₄⟩, fun ⟨h₁, h₂, h₃, h₄⟩ => ⟨h₁, h₂, h₃, h₄⟩⟩

namespace Projects

variable {taken columns : List Column} {exprs : List Expr}

/-- Of two aliases with one identity there is only one. -/
theorem eq_of_alias (h : Projects taken columns exprs) {operand operand' : Expr}
    {output output' : Column} (he : Expr.named operand output ∈ exprs)
    (he' : Expr.named operand' output' ∈ exprs) (hid : output.id = output'.id) :
    operand = operand' ∧ output = output' := by
  have haliases := h.aliases
  rw [List.map_filterMap] at haliases
  have hsame := eq_of_nodup_filterMap haliases he he' rfl (congrArg some hid.symm)
  simpa using hsame

variable (hp : Projects taken columns exprs) (htaken : ∀ c ∈ columns, c.Among taken)
include hp htaken

/-- What an entry reads is none of the aliases. -/
theorem ne_of_mem_columns {e : Expr} (he : e ∈ exprs) {c : Column} (hc : c ∈ e.columns)
    {operand : Expr} {output : Column} (ha : Expr.named operand output ∈ exprs) :
    output.id ≠ c.id := by
  obtain ⟨d, hd, hid, -⟩ := (hp.reads e he c hc).trans htaken
  exact hid ▸ hp.fresh output (List.mem_filterMap.mpr ⟨_, ha, rfl⟩) d hd

/-- Such a list is transparent. -/
theorem transparent : Transparent exprs where
  named := hp.named
  fresh _ _ he := .inr fun _ he' _ hc => (hp.ne_of_mem_columns htaken he' hc he).symm
  once _ _ _ _ he he' hid := hp.eq_of_alias he he' hid

/-- An output is an entry that is a column and stands for itself, or an alias that stands for its
definition. -/
theorem output_cases {c : Column} (hc : c.Among (exprs.filterMap Expr.output?)) :
    (∃ x, Expr.col x ∈ exprs ∧ x.id = c.id ∧ x.name = c.name ∧
      (definitionsOf exprs).definitionOf c = .col c) ∨
    ∃ operand output, Expr.named operand output ∈ exprs ∧ output.id = c.id ∧
      output.name = c.name ∧ (definitionsOf exprs).definitionOf c = operand := by
  obtain ⟨o, ho, hid, hname⟩ := hc
  obtain ⟨e, he, heo⟩ := List.mem_filterMap.mp ho
  obtain ⟨x, rfl⟩ | ⟨operand, output, rfl⟩ := Expr.entry_cases (hp.named e he)
  · obtain rfl : x = o := Option.some.inj heo
    exact .inl ⟨x, he, hid, hname,
      (hp.transparent htaken).definitionOf_read ⟨_, he, x, by simp, hid⟩⟩
  · obtain rfl : output = o := Option.some.inj heo
    refine .inr ⟨operand, output, he, hid, hname, (hp.transparent htaken).definitionOf_fresh he
      (fun e he' c hc => (hp.ne_of_mem_columns htaken he' hc he).symm) hid⟩

/-- What is read through a projection reads the projection's input. -/
theorem columns_readThrough {e : Expr}
    (he : ∀ c ∈ e.columns, c.Among (exprs.filterMap Expr.output?)) :
    ∀ d ∈ (readThrough (definitionsOf exprs) e).columns, d.Among columns := by
  intro d hd
  refine ((hp.transparent htaken).columns_readThrough he d hd).trans fun c hc => ?_
  obtain ⟨x, hx, hcx⟩ := List.mem_flatMap.mp hc
  exact hp.reads x hx c hcx

/-- An expression means below a projection, read through it, what it means above. -/
theorem eval_readThrough (row : Row) {e : Expr}
    (he : ∀ c ∈ e.columns, c.Among (exprs.filterMap Expr.output?)) :
    (readThrough (definitionsOf exprs) e).eval row =
      e.eval (projectOne ((exprs.filterMap Expr.output?).map Column.rowKey) exprs row) :=
  (hp.transparent htaken).eval_readThrough he row

end Projects

end QueryPlan
