import QueryPlan.Proofs.TokenValues

/-!
# Predicates with one text

A predicate in SQL is read back as it was meant if its text can be read in one way only.  Where the
names are plain and every operand is grouped as a reader groups it (`Expr.Unambiguous`), two
predicates with one text have the same answer on every row (`Expr.truth_eq_of_sql_eq`).

Parentheses are written around connectives alone, and that is not enough: `(a = b) = c` and
`a = (b = c)` are both written `a = b = c` (`Expr.sql_compare_compare`).  A comparison or another
test behind an operator is what `Expr.isGrouped` leaves out, and with it a connective that hides
under an alias as an operand, a connective of no operands, which has no text at all, and a
connective of one operand where its value is asked for, since its text is that of the operand.
-/

set_option autoImplicit false

namespace QueryPlan

/-- A plain column is not written like a constant. -/
theorem Column.not_constant {c : Column} (h : c.isPlain) {v : Value} :
    ¬Constant c.sql.toList v := by
  simp only [isPlain, Bool.and_eq_true, Bool.not_eq_true', ← Bool.not_eq_true] at h
  obtain ⟨⟨-, hwords⟩, hhead⟩ := h
  intro hconstant
  obtain ⟨-, d, rest, hbegins, hd⟩ | ⟨s, mem, hname⟩ := hconstant.numeric_or_name
  · rw [hbegins] at hhead
    rcases hd with hd | rfl
    · simp [hd] at hhead
    · simp at hhead
  · rw [String.toList_inj.mp hname] at hwords
    exact hwords (by simpa using mem)

namespace Expr

/-- Whether all names in an expression are plain and all operands are grouped as they will be
read. -/
def Unambiguous (e : Expr) : Prop := ∀ x ∈ e.subexprs, x.isPlain ∧ x.isGrouped

instance (e : Expr) : Decidable e.Unambiguous :=
  inferInstanceAs (Decidable (∀ x ∈ e.subexprs, x.isPlain ∧ x.isGrouped))

/-! ## What the words mean -/

section Words

variable (row : Row) {x y : Expr} {w : List Char}

/-- A word is a column or a constant. -/
theorem word?_cases (h : x.word? = some w) :
    (∃ c, x = col c ∧ w = c.sql.toList) ∨ Constant w (x.eval row).rounded := by
  cases x with
  | col c => exact .inl ⟨c, rfl, (Option.some.inj h).symm⟩
  | lit l =>
    cases l with
    | str s => cases h
    | _ =>
      obtain rfl := Option.some.inj h
      exact .inr (Literal.constant (by simp))
  | _ => cases h

/-- Words that are written alike have one value, where columns are. -/
theorem eval_eq_of_word? (hx : x.isPlain) (hy : y.isPlain)
    (hcols : ∀ c, x = col c → ∀ d, y = col d → c.sql = d.sql → c.rowKey = d.rowKey)
    (hxw : x.word? = some w) (hyw : y.word? = some w) :
    (x.eval row).rounded = (y.eval row).rounded := by
  rcases word?_cases row hxw with ⟨c, rfl, rfl⟩ | hconstant <;>
    rcases word?_cases row hyw with ⟨d, rfl, hw⟩ | hconstant'
  · rw [eval, eval, hcols c rfl d rfl (String.toList_inj.mp hw)]
  · exact absurd hconstant' (Column.not_constant hx)
  · exact absurd (hw ▸ hconstant) (Column.not_constant hy)
  · exact hconstant.unique hconstant' rfl

/-- Words with one value each can be looked up. -/
theorem exists_dictionary {es : List Expr}
    (h : ∀ x ∈ es, ∀ y ∈ es, ∀ w, x.word? = some w → y.word? = some w →
      (x.eval row).rounded = (y.eval row).rounded) :
    ∃ ρ : List Char → Value, ∀ x ∈ es, ∀ w, x.word? = some w → ρ w = (x.eval row).rounded := by
  refine ⟨fun w => ((es.find? fun x => x.word? == some w).map
    fun x => (x.eval row).rounded).getD .null, fun x hx w hw => ?_⟩
  beta_reduce
  cases hfind : es.find? fun x => x.word? == some w with
  | none => exact absurd hw (by simpa using List.find?_eq_none.mp hfind x hx)
  | some y =>
    have hy : y.word? = some w := by simpa using List.find?_some hfind
    exact h y (List.mem_of_find?_eq_some hfind) x hx w hy hw

end Words

/-! ## Predicates -/

section Predicates

variable {e e' : Expr} {s : String}

theorem tokens_eq_of_sql_eq (he : ∀ x ∈ e.subexprs, x.isPlain) (he' : ∀ x ∈ e'.subexprs, x.isPlain)
    (hs : e.sql false = .ok s) (hs' : e'.sql false = .ok s) : e.tokens = e'.tokens := by
  refine spell_inj (wellSpelled_tokens he) (wellSpelled_tokens he') ?_
  rw [spell_tokens he, spell_tokens he', ← sql_eq_render hs, ← sql_eq_render hs']

/-- **Unambiguous predicates keep their meaning in SQL.**  If two of them have one text, and columns
that are written alike are read from one cell, then they have the same answer on every row. -/
theorem truth_eq_of_sql_eq (he : e.Unambiguous) (he' : e'.Unambiguous)
    (hcols : ∀ c ∈ e.columns ++ e'.columns, ∀ d ∈ e.columns ++ e'.columns,
      c.sql = d.sql → c.rowKey = d.rowKey)
    (hs : e.sql false = .ok s) (hs' : e'.sql false = .ok s) (row : Row) :
    e.truth row = e'.truth row := by
  have hplain (x : Expr) (hx : x ∈ e.subexprs ++ e'.subexprs) : x.isPlain :=
    (List.mem_append.mp hx).elim (fun hx => (he x hx).1) fun hx => (he' x hx).1
  have hcolumn {c : Column} (hc : col c ∈ e.subexprs ++ e'.subexprs) :
      c ∈ e.columns ++ e'.columns := by
    rw [columns, columns, ← List.filterMap_append]
    exact List.mem_filterMap.mpr ⟨_, hc, rfl⟩
  have hwords : ∀ x ∈ e.subexprs ++ e'.subexprs, ∀ y ∈ e.subexprs ++ e'.subexprs, ∀ w,
      x.word? = some w → y.word? = some w → (x.eval row).rounded = (y.eval row).rounded := by
    intro x hx y hy w hxw hyw
    refine eval_eq_of_word? row (hplain x hx) (hplain y hy) ?_ hxw hyw
    rintro c rfl d rfl
    exact hcols c (hcolumn hx) d (hcolumn hy)
  obtain ⟨ρ, hρ⟩ := exists_dictionary row hwords
  have hread := @readout_tokens ρ row e fun x hx =>
    ⟨(he x hx).1, (he x hx).2, hρ x (List.mem_append_left _ hx)⟩
  have hread' := @readout_tokens ρ row e' fun x hx =>
    ⟨(he' x hx).1, (he' x hx).2, hρ x (List.mem_append_right _ hx)⟩
  have htokens := tokens_eq_of_sql_eq (fun x hx => (he x hx).1) (fun x hx => (he' x hx).1) hs hs'
  rw [htokens] at hread
  exact Option.some.inj (hread.symm.trans hread')

/-- A function in capitals, and a column under its own name. -/
theorem truth_eq_of_sql_eq_capitals :
    let name : Column := .plain 1 "name"
    let small := and [compare (call "upper" [col name]) .eq (lit (.str "ANN")),
      not (or [isNull (col name) false, like (col name) (lit (.str "O'%")) true])]
    let large := and [compare (call "UPPER" [named (col name) name]) .eq (lit (.str "ANN")),
      not (or [isNull (col name) false, like (col name) (lit (.str "O'%")) true])]
    small.Unambiguous ∧ large.Unambiguous ∧
      small.sql false =
        .ok "UPPER(name) = 'ANN' AND NOT (name IS NULL OR name NOT LIKE 'O''%')" ∧
      large.sql false =
        .ok "UPPER(name) = 'ANN' AND NOT (name IS NULL OR name NOT LIKE 'O''%')" ∧
      ∀ row, small.truth row = large.truth row := by
  intro name small large
  have hsmall : small.Unambiguous := by decide +kernel
  have hlarge : large.Unambiguous := by decide +kernel
  have hs : small.sql false =
      .ok "UPPER(name) = 'ANN' AND NOT (name IS NULL OR name NOT LIKE 'O''%')" := by rfl
  have hl : large.sql false =
      .ok "UPPER(name) = 'ANN' AND NOT (name IS NULL OR name NOT LIKE 'O''%')" := by rfl
  have hcols : ∀ c ∈ small.columns ++ large.columns, c = name := by decide +kernel
  refine ⟨hsmall, hlarge, hs, hl, fun row => truth_eq_of_sql_eq hsmall hlarge ?_ hs hl row⟩
  intro c hc d hd _
  rw [hcols c hc, hcols d hd]

end Predicates

/-! ## One text with two meanings -/

/-- Comparisons have one text, however they are grouped. -/
theorem sql_compare_compare (l m r : Expr) (op op' : Comparison) (grouped : Bool) :
    (compare (compare l op m) op' r).sql grouped =
      (compare l op (compare m op' r)).sql grouped := by
  have hcomparison (l r : Expr) (op : Comparison) : (compare l op r).isConnective = false := rfl
  simp [sql, parenthesized, hcomparison, String.append_assoc]

/-- Whether a comparison of two equal strings is true, or a string is equal to an answer. -/
theorem truth_compare_compare {a b c : Column} {row : Row} {s : String}
    (ha : row.cell a.rowKey = .str s) (hb : row.cell b.rowKey = .str s)
    (hc : row.cell c.rowKey = .bool true) :
    (compare (compare (col a) .eq (col b)) .eq (col c)).truth row = .holds ∧
      (compare (col a) .eq (compare (col b) .eq (col c))).truth row = .unknown := by
  have hsame : (Value.str s).compare .eq (.str s) = .holds := by
    simp [Value.compare, Value.order?, Comparison.holds, Truth.ofBool]
  simp only [truth, eval, ha, hb, hc, hsame]
  exact ⟨rfl, rfl⟩

end Expr

end QueryPlan
