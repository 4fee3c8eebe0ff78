import QueryPlan.Proofs.Cells
import QueryPlan.Proofs.Evaluation
import QueryPlan.Proofs.FloatOrder
import QueryPlan.Proofs.Lists
import QueryPlan.Pushdown.Filters

/-!
# Handing filters over loses and admits no row

A predicate that a source may be asked about is put into the names of the stored columns and made a
filter: an exact one if there is one, and otherwise a weaker one.  After a weaker one, and where
there is none at all, the predicate is left to be tested here.  The rows kept by the filters that
were handed over and by the predicates that were left are the rows that the predicates keep
(`Source.accepts_handOverAll`).

The way there follows a single predicate:

* **Its form.**  `toFilter?_cases` says what an expression that has become a filter looks like: a
  test of one column against literals (`Tests`), or a connective of such expressions, of which a
  weakened conjunction may have lost some.  The theorems below have one case for each form.
* **An exact filter** answers on a row what its predicate answers, true, false or unknown, if the
  stored row and the row of the plan agree on the columns (`truth_toFilter?`).
* **A weakened filter** accepts at least the rows that its predicate accepts (`accepts_toFilter?`).
  No more can be said, so it is never put under a negation, and the predicate is kept.
* **Its names.**  In stored names a predicate says of the stored row what it said of the row as the
  plan keys it (`truth_inStoredNames?`).
* **The handover** of one predicate, in each of the ways in which it may end, keeps the rows that
  the predicate keeps (`accepts_handOver`).

What is handed over mentions stored columns only (`exists_reference_of_mem_pushed`), so the source
never meets a name that it does not know (`unknownColumn?_handOverAll`).
-/

set_option autoImplicit false

namespace QueryPlan

/-! ## Comparisons -/

theorem Truth.accepts_foldr_and (ts : List Truth) :
    (ts.foldr Truth.and .holds).accepts = ts.all accepts := by
  induction ts with
  | nil => rfl
  | cons t ts ih => rw [List.foldr_cons, accepts_and, ih, List.all_cons]

theorem Truth.accepts_foldr_or (ts : List Truth) :
    (ts.foldr Truth.or .fails).accepts = ts.any accepts := by
  induction ts with
  | nil => rfl
  | cons t ts ih => rw [List.foldr_cons, accepts_or, ih, List.any_cons]

namespace Value

theorem order?_swap (l r : Value) : r.order? l = (l.order? r).map Ordering.swap := by
  cases l <;> cases r <;> try rfl
  · exact congrArg some (Number.order_swap ..)
  · exact congrArg some (Std.OrientedOrd.eq_swap ..)

/-- A comparison says the same with its operands exchanged and its operator flipped. -/
theorem compare_flip (l r : Value) (op : Comparison) : r.compare op.flip l = l.compare op r := by
  have hordered : ((r.order? l).map op.flip.holds).elim .unknown Truth.ofBool =
      ((l.order? r).map op.holds).elim .unknown Truth.ofBool := by
    rw [order?_swap, Option.map_map]
    refine congrArg (Option.elim · _ _) (Option.map_congr fun o _ => ?_)
    exact Comparison.holds_flip op o
  cases l <;> cases r <;> try exact hordered
  next a b => cases op <;> cases a <;> cases b <;> rfl

/-- Different is not equal, also where neither is known. -/
theorem compare_ne (l r : Value) : (l.compare .eq r).not = l.compare .ne r := by
  have hordered : (((l.order? r).map Comparison.eq.holds).elim .unknown Truth.ofBool).not =
      ((l.order? r).map Comparison.ne.holds).elim .unknown Truth.ofBool := by
    cases l.order? r with
    | none => rfl
    | some o => cases o <;> rfl
  cases l <;> cases r <;> try exact hordered
  next a b => cases a <;> cases b <;> rfl

end Value

/-! ## The answers of filters -/

namespace Filter

variable (row : Row)

theorem truth_ofComparison (column : String) (op : Comparison) (l : Literal) :
    (ofComparison column op l).truth row = (row.cell column).compare op l.value := by
  cases op <;> try rfl
  exact Value.compare_ne ..

theorem truth_negateIf (negated : Bool) (f : Filter) :
    (f.negateIf negated).truth row = (f.truth row).negateIf negated := by
  cases negated <;> rfl

/-- Filters joined one after the other, for either connective. -/
theorem truth_foldl {join : Filter → Filter → Filter} {op : Truth → Truth → Truth} {unit : Truth}
    (hjoin : ∀ a b, (join a b).truth row = op (a.truth row) (b.truth row))
    (hassoc : ∀ a b c, op (op a b) c = op a (op b c)) (hunit : ∀ a, op a unit = a)
    (fs : List Filter) (f : Filter) :
    (fs.foldl join f).truth row = ((f :: fs).map (truth row)).foldr op unit := by
  induction fs generalizing f with
  | nil => exact (hunit _).symm
  | cons g fs ih => rw [List.foldl_cons, ih]; simp [hjoin, hassoc]

theorem truth_conjunction? {fs : List Filter} {f : Filter} (h : conjunction? fs = some f) :
    f.truth row = (fs.map (truth row)).foldr Truth.and .holds := by
  match fs, h with
  | f :: fs, rfl => exact truth_foldl row (fun _ _ => rfl) Truth.and_assoc Truth.and_holds fs f

theorem truth_disjunction? {fs : List Filter} {f : Filter} (h : disjunction? fs = some f) :
    f.truth row = (fs.map (truth row)).foldr Truth.or .fails := by
  match fs, h with
  | f :: fs, rfl => exact truth_foldl row (fun _ _ => rfl) Truth.or_assoc Truth.or_fails fs f

theorem mentions_conjunction? {fs : List Filter} {f : Filter} (h : conjunction? fs = some f) :
    f.mentions = fs.flatMap mentions := by
  match fs, h with
  | f :: fs, rfl => exact foldl_eq_flatMap_cons (fun _ _ => rfl) f fs

theorem mentions_disjunction? {fs : List Filter} {f : Filter} (h : disjunction? fs = some f) :
    f.mentions = fs.flatMap mentions := by
  match fs, h with
  | f :: fs, rfl => exact foldl_eq_flatMap_cons (fun _ _ => rfl) f fs

end Filter

/-! ## From predicates to filters -/

namespace Expr

/-- A test of one column against literals, as a predicate and as a filter. -/
inductive Tests : Expr → Filter → Prop where
  | columnFirst (c : Column) (op : Comparison) (l : Literal) :
    Tests (compare (col c) op (lit l)) (.ofComparison c.name op l)
  | literalFirst (c : Column) (op : Comparison) (l : Literal) :
    Tests (compare (lit l) op (col c)) (.ofComparison c.name op.flip l)
  | oneOf (c : Column) (values : List Literal) (negated : Bool) :
    Tests (inList (col c) (values.map lit) negated)
      ((Filter.oneOf c.name values).negateIf negated)
  | isNull (c : Column) (negated : Bool) :
    Tests (isNull (col c) negated) (if negated then .isNotNull c.name else .isNull c.name)

theorem eq_map_lit_of_mapM {members : List Expr} {values : List Literal}
    (h : members.mapM literal? = some values) : members = values.map lit := by
  have hall : List.Forall₂ (fun x l => x = lit l) members values :=
    (mapM_eq_some_iff.mp h).imp fun x l hx => by
      cases x <;> first | cases hx; rfl | cases hx
  induction hall with
  | nil => rfl
  | cons hx hrest ih =>
    rw [List.map_cons, hx, ih]
    exact mapM_eq_some_iff.mpr (hrest.imp fun _ _ hy => hy ▸ rfl)

/-- What an expression that has become a filter looks like. -/
theorem toFilter?_cases {weaken : Bool} {e : Expr} {f : Filter}
    (h : e.toFilter? weaken = some f) :
    Tests e f ∨
    (∃ es, e = and es ∧ (weaken = false → ∀ x ∈ es, (x.toFilter? weaken).isSome) ∧
      Filter.conjunction? (es.filterMap (toFilter? weaken)) = some f) ∨
    (∃ es fs, e = or es ∧ List.Forall₂ (fun x g => x.toFilter? weaken = some g) es fs ∧
      Filter.disjunction? fs = some f) ∨
    ∃ x g, e = not x ∧ x.toFilter? false = some g ∧ f = .not g := by
  unfold toFilter? at h
  split at h
  · next c op l => exact .inl (Option.some.inj h ▸ .columnFirst c op l)
  · next l op c => exact .inl (Option.some.inj h ▸ .literalFirst c op l)
  · next c members negated =>
    obtain ⟨values, hvalues, rfl⟩ := Option.map_eq_some_iff.mp h
    exact .inl (eq_map_lit_of_mapM hvalues ▸ .oneOf c values negated)
  · next c negated => exact .inl (Option.some.inj h ▸ .isNull c negated)
  · next es =>
    simp only [toFilters_eq_map, List.filterMap_map, List.any_map, Function.id_comp] at h
    split at h
    · cases h
    · next hall =>
      refine .inr (.inl ⟨es, rfl, fun hw x hx => ?_, h⟩)
      simp only [hw, Bool.not_false, Bool.true_and, List.any_eq_true, not_exists, not_and] at hall
      cases hg : x.toFilter? weaken with
      | some g => rfl
      | none => exact absurd (by simp [← hw, hg]) (hall x hx)
  · next es =>
    rw [toFilters_eq_map, List.mapM_map] at h
    obtain ⟨fs, hfs, hf⟩ := Option.bind_eq_some_iff.mp h
    exact .inr (.inr (.inl ⟨es, fs, rfl, mapM_eq_some_iff.mp hfs, hf⟩))
  · next x =>
    obtain ⟨g, hg, rfl⟩ := Option.map_eq_some_iff.mp h
    exact .inr (.inr (.inr ⟨x, g, rfl, hg, rfl⟩))
  · cases h

/-- A filter mentions the names of columns that its predicate reads. -/
theorem exists_column_of_mem_mentions {weaken : Bool} {e : Expr} {f : Filter}
    (h : e.toFilter? weaken = some f) {m : String} (hm : m ∈ f.mentions) :
    ∃ c ∈ e.columns, c.name = m := by
  induction e using children_induction generalizing weaken f with
  | step e ih =>
    obtain htest | ⟨es, rfl, -, hf⟩ | ⟨es, fs, rfl, hfs, hf⟩ | ⟨x, g, rfl, hg, rfl⟩ :=
      toFilter?_cases h
    · have hself (c : Column) : c ∈ (col c).columns := by simp
      cases htest with
      | columnFirst c op l =>
        exact ⟨c, mem_columns_of_mem_children List.mem_cons_self (hself c),
          by cases op <;> simpa [Filter.ofComparison, Filter.mentions, eq_comm] using hm⟩
      | literalFirst c op l =>
        exact ⟨c, mem_columns_of_mem_children (List.mem_cons_of_mem _ List.mem_cons_self) (hself c),
          by cases op <;>
            simpa [Comparison.flip, Filter.ofComparison, Filter.mentions, eq_comm] using hm⟩
      | oneOf c values negated =>
        exact ⟨c, mem_columns_of_mem_children List.mem_cons_self (hself c),
          by cases negated <;> simpa [Filter.negateIf, Filter.mentions, eq_comm] using hm⟩
      | isNull c negated =>
        exact ⟨c, mem_columns_of_mem_children List.mem_cons_self (hself c),
          by cases negated <;> simpa [Filter.mentions, eq_comm] using hm⟩
    · rw [Filter.mentions_conjunction? hf, List.mem_flatMap] at hm
      obtain ⟨g, hg, hmg⟩ := hm
      obtain ⟨x, hx, hxg⟩ := List.mem_filterMap.mp hg
      obtain ⟨c, hc, hcm⟩ := ih x hx hxg hmg
      exact ⟨c, mem_columns_of_mem_children hx hc, hcm⟩
    · rw [Filter.mentions_disjunction? hf, List.mem_flatMap] at hm
      obtain ⟨g, hg, hmg⟩ := hm
      obtain ⟨x, hx, hxg⟩ := exists_of_forall₂_mem hfs hg
      obtain ⟨c, hc, hcm⟩ := ih x hx hxg hmg
      exact ⟨c, mem_columns_of_mem_children hx hc, hcm⟩
    · obtain ⟨c, hc, hcm⟩ := ih x List.mem_cons_self hg hm
      exact ⟨c, mem_columns_of_mem_children List.mem_cons_self hc, hcm⟩

section Answers

variable {row stored : Row}

theorem foldr_and_filterMap {es : List Expr} {t : Expr → Option Filter}
    (hsome : ∀ x ∈ es, (t x).isSome)
    (h : ∀ x ∈ es, ∀ g, t x = some g → g.truth stored = x.truth row) :
    ((es.filterMap t).map (Filter.truth stored)).foldr Truth.and .holds =
      (es.map (eval row)).foldr (fun v a => v.truth.and a) .holds := by
  induction es with
  | nil => rfl
  | cons x es ih =>
    obtain ⟨g, hg⟩ := Option.isSome_iff_exists.mp (hsome x List.mem_cons_self)
    rw [List.filterMap_cons_some hg, List.map_cons, List.foldr_cons, h x List.mem_cons_self g hg,
      ih (fun y hy => hsome y (List.mem_cons_of_mem _ hy))
        fun y hy => h y (List.mem_cons_of_mem _ hy)]
    rfl

theorem foldr_or_forall₂ {es : List Expr} {fs : List Filter} {t : Expr → Option Filter}
    (hfs : List.Forall₂ (fun x g => t x = some g) es fs)
    (h : ∀ x ∈ es, ∀ g, t x = some g → g.truth stored = x.truth row) :
    (fs.map (Filter.truth stored)).foldr Truth.or .fails =
      (es.map (eval row)).foldr (fun v a => v.truth.or a) .fails := by
  induction hfs with
  | nil => rfl
  | cons hg _ ih =>
    rw [List.map_cons, List.foldr_cons, h _ List.mem_cons_self _ hg,
      ih fun y hy => h y (List.mem_cons_of_mem _ hy)]
    rfl

/-- A test answers the same as a filter and as a predicate. -/
theorem Tests.truth_eq {e : Expr} {f : Filter} (h : Tests e f)
    (hrow : ∀ c ∈ e.columns, row.cell c.rowKey = stored.cell c.name) :
    f.truth stored = e.truth row := by
  have hself (c : Column) : c ∈ (col c).columns := by simp
  cases h with
  | columnFirst c op l =>
    rw [Filter.truth_ofComparison, truth, eval, Value.truth_ofTruth, eval, eval,
      hrow c (mem_columns_of_mem_children List.mem_cons_self (hself c))]
  | literalFirst c op l =>
    rw [Filter.truth_ofComparison, truth, eval, Value.truth_ofTruth, eval, eval,
      hrow c (mem_columns_of_mem_children (List.mem_cons_of_mem _ List.mem_cons_self) (hself c))]
    exact Value.compare_flip ..
  | oneOf c values negated =>
    rw [Filter.truth_negateIf, truth, eval, Value.truth_ofTruth, evalList_eq_map, List.map_map,
      eval, hrow c (mem_columns_of_mem_children List.mem_cons_self (hself c))]
    rfl
  | isNull c negated =>
    rw [truth, eval, Value.truth_ofTruth, eval,
      hrow c (mem_columns_of_mem_children List.mem_cons_self (hself c))]
    cases negated
    · rfl
    · cases hnull : (stored.cell c.name).isNull <;>
        simp [Filter.truth, Truth.negateIf, hnull, Truth.ofBool, Truth.not]

/-- **An exact filter answers what its predicate answers**, on rows that agree on the columns that
the predicate reads. -/
theorem truth_toFilter? {e : Expr} {f : Filter} (h : e.toFilter? false = some f)
    (hrow : ∀ c ∈ e.columns, row.cell c.rowKey = stored.cell c.name) :
    f.truth stored = e.truth row := by
  induction e using children_induction generalizing f with
  | step e ih =>
    have ih' : ∀ x ∈ e.children, ∀ g, x.toFilter? false = some g →
        g.truth stored = x.truth row := fun x hx g hg =>
      ih x hx hg fun c hc => hrow c (mem_columns_of_mem_children hx hc)
    obtain htest | ⟨es, rfl, hall, hf⟩ | ⟨es, fs, rfl, hfs, hf⟩ | ⟨x, g, rfl, hg, rfl⟩ :=
      toFilter?_cases h
    · exact htest.truth_eq hrow
    · rw [Filter.truth_conjunction? stored hf, truth, eval, Value.truth_ofTruth,
        evalAll_eq_foldr]
      exact foldr_and_filterMap (hall rfl) ih'
    · rw [Filter.truth_disjunction? stored hf, truth, eval, Value.truth_ofTruth,
        evalAny_eq_foldr]
      exact foldr_or_forall₂ hfs ih'
    · rw [Filter.truth, truth, eval, Value.truth_ofTruth, ih' x List.mem_cons_self g hg]
      rfl

/-- **A weakened filter accepts what its predicate accepts.** -/
theorem accepts_toFilter? {e : Expr} {f : Filter} (h : e.toFilter? true = some f)
    (hrow : ∀ c ∈ e.columns, row.cell c.rowKey = stored.cell c.name)
    (he : (e.truth row).accepts) : (f.truth stored).accepts := by
  induction e using children_induction generalizing f with
  | step e ih =>
    have ih' : ∀ x ∈ e.children, ∀ g, x.toFilter? true = some g →
        (x.truth row).accepts → (g.truth stored).accepts := fun x hx g hg =>
      ih x hx hg fun c hc => hrow c (mem_columns_of_mem_children hx hc)
    obtain htest | ⟨es, rfl, -, hf⟩ | ⟨es, fs, rfl, hfs, hf⟩ | ⟨x, g, rfl, hg, rfl⟩ :=
      toFilter?_cases h
    · rw [htest.truth_eq hrow]
      exact he
    · rw [accepts_truth_and, List.all_eq_true] at he
      rw [Filter.truth_conjunction? stored hf, Truth.accepts_foldr_and, List.all_map,
        List.all_eq_true]
      intro g hg
      obtain ⟨x, hx, hxg⟩ := List.mem_filterMap.mp hg
      exact ih' x hx g hxg (he x hx)
    · rw [accepts_truth_or, List.any_eq_true] at he
      rw [Filter.truth_disjunction? stored hf, Truth.accepts_foldr_or, List.any_map,
        List.any_eq_true]
      obtain ⟨x, hx, hxrow⟩ := he
      obtain ⟨g, hg, hxg⟩ := forall₂_exists_of_mem hfs hx
      exact ⟨g, hg, ih' x hx g hxg hxrow⟩
    · have hnot : (Filter.not g).truth stored = (not x).truth row := by
        rw [Filter.truth, truth_toFilter? hg fun c hc =>
          hrow c (mem_columns_of_mem_children List.mem_cons_self hc)]
        rw [truth, truth, eval, Value.truth_ofTruth]
      rw [hnot]
      exact he

end Answers

end Expr

/-! ## Handing predicates to a source -/

theorem IdMap.mem_values_of_get? {α : Type} {m : IdMap α} {id : ColumnId} {a : α}
    (h : m.get? id = some a) : a ∈ m.values :=
  List.mem_map.mpr ⟨(id, a), mem_entries_of_get? h, rfl⟩

namespace Handover

theorem pushed_concat (hs : List Handover) : (concat hs).pushed = hs.flatMap pushed := by
  induction hs with
  | nil => rfl
  | cons h hs ih => rw [List.flatMap_cons, ← ih]; rfl

theorem remaining_concat (hs : List Handover) : (concat hs).remaining = hs.flatMap remaining := by
  induction hs with
  | nil => rfl
  | cons h hs ih => rw [List.flatMap_cons, ← ih]; rfl

end Handover

namespace Source

variable (s : Source)

/-- A stored row under the row keys of the stored columns. -/
def renamedRow (row : Row) : Row :=
  .ofCells (s.storedColumns.values.map fun c => (c.rowKey, row.cell c.name))

theorem cell_renamedRow (row : Row) {c : Column} (hc : c ∈ s.storedColumns.values) :
    (s.renamedRow row).cell c.rowKey = row.cell c.name := by
  refine Row.cell_ofCells (Row.consistent_map fun a _ b _ hab => ?_)
    (List.mem_map.mpr ⟨c, hc, rfl⟩)
  rw [(Column.rowKey_inj hab).2]

variable {s}

theorem get?_of_inStoredNames? {p renamed : Expr}
    (h : p.inStoredNames? s.storedColumns = some renamed) :
    renamed = p.mapColumns s.storedColumns.columnFor ∧
      ∀ c ∈ p.columns, s.storedColumns.get? c.id = some (s.storedColumns.columnFor c) := by
  rw [Expr.inStoredNames?] at h
  split at h
  · next hall =>
    refine ⟨(Option.some.inj h).symm, fun c hc => ?_⟩
    obtain ⟨d, hd⟩ := Option.isSome_iff_exists.mp (List.all_eq_true.mp hall c hc)
    rw [IdMap.columnFor, hd, Option.getD_some]
  · cases h

/-- A predicate in stored names reads stored columns. -/
theorem mem_values_of_inStoredNames? {p renamed : Expr}
    (h : p.inStoredNames? s.storedColumns = some renamed) {c : Column} (hc : c ∈ renamed.columns) :
    c ∈ s.storedColumns.values := by
  obtain ⟨rfl, hget⟩ := get?_of_inStoredNames? h
  rw [Expr.mapColumns, Expr.columns_bind, List.mem_flatMap] at hc
  obtain ⟨d, hd, hcd⟩ := hc
  rw [Expr.columns_col, List.mem_singleton] at hcd
  exact hcd ▸ IdMap.mem_values_of_get? (hget d hd)

/-- A predicate in stored names says of the stored row what it said of the row as the plan keys
it. -/
theorem truth_inStoredNames? {p renamed : Expr}
    (h : p.inStoredNames? s.storedColumns = some renamed)
    (hp : ∀ c ∈ p.columns, c.Among s.columns) (row : Row) :
    renamed.truth (s.renamedRow row) = p.truth (s.engineRow row) := by
  obtain ⟨rfl, hget⟩ := get?_of_inStoredNames? h
  refine congrArg Value.truth (Expr.eval_bind fun c hc => ?_)
  rw [Expr.eval, s.cell_renamedRow row (IdMap.mem_values_of_get? (hget c hc)),
    s.cell_engineRow row (hp c hc), storedCell, hget c hc]

/-- The filters and the predicates left of one predicate keep the rows that it keeps.  What it reads
besides stored columns does not matter: then nothing of it is handed over. -/
theorem accepts_handOver {p : Expr}
    (hp : ∀ c ∈ p.columns, s.storedColumns.contains c.id → c.Among s.columns) (row : Row) :
    ((p.truth (s.engineRow row)).accepts : Bool) =
      (((s.handOver p).pushed.all fun f => (f.truth row).accepts) &&
        (s.handOver p).remaining.all fun q => (q.truth (s.engineRow row)).accepts) := by
  rw [handOver]
  split
  · split
    · next renamed hrenamed =>
      have hrow : ∀ c ∈ renamed.columns, (s.renamedRow row).cell c.rowKey = row.cell c.name :=
        fun c hc => s.cell_renamedRow row (mem_values_of_inStoredNames? hrenamed hc)
      have hamong : ∀ c ∈ p.columns, c.Among s.columns := fun c hc =>
        hp c hc (Option.isSome_iff_exists.mpr ⟨_, (get?_of_inStoredNames? hrenamed).2 c hc⟩)
      have htruth := truth_inStoredNames? hrenamed hamong row
      rw [Handover.ofPredicate]
      cases hexact : renamed.toFilter? false with
      | some f =>
        simp [Handover.isExact, Expr.truth_toFilter? hexact hrow, htruth]
      | none =>
        cases hweak : renamed.toFilter? true with
        | none => simp [Handover.isExact]
        | some f =>
          have himp := Expr.accepts_toFilter? hweak hrow
          rw [htruth] at himp
          simp only [Handover.isExact, List.isEmpty_cons, Bool.false_eq_true, if_false,
            Option.toList_some, List.all_cons, List.all_nil, Bool.and_true]
          cases hp : (p.truth (s.engineRow row)).accepts with
          | false => rw [Bool.and_false]
          | true => rw [himp hp, Bool.and_true]
    · simp
  · simp

/-- **Handing predicates over neither loses nor admits a row.** -/
theorem accepts_handOverAll {ps : List Expr}
    (hps : ∀ p ∈ ps, ∀ c ∈ p.columns, s.storedColumns.contains c.id → c.Among s.columns)
    (row : Row) :
    (ps.all fun p => (p.truth (s.engineRow row)).accepts) =
      (((s.handOverAll ps).pushed.all fun f => (f.truth row).accepts) &&
        (s.handOverAll ps).remaining.all fun q => (q.truth (s.engineRow row)).accepts) := by
  rw [handOverAll, Handover.pushed_concat, Handover.remaining_concat, List.flatMap_map,
    List.flatMap_map, List.all_flatMap, List.all_flatMap]
  induction ps with
  | nil => rfl
  | cons p ps ih =>
    rw [List.all_cons, List.all_cons, List.all_cons,
      ih fun q hq => hps q (List.mem_cons_of_mem _ hq),
      accepts_handOver (hps p List.mem_cons_self) row]
    ac_rfl

/-- What is left to test was there before. -/
theorem mem_of_mem_remaining {ps : List Expr} {q : Expr} (hq : q ∈ (s.handOverAll ps).remaining) :
    q ∈ ps := by
  rw [handOverAll, Handover.remaining_concat, List.flatMap_map, List.mem_flatMap] at hq
  obtain ⟨p, hp, hqp⟩ := hq
  rw [handOver] at hqp
  have : q = p := by
    split at hqp
    · split at hqp
      · simp only [] at hqp
        split at hqp
        · cases hqp
        · exact List.mem_singleton.mp hqp
      · exact List.mem_singleton.mp hqp
    · exact List.mem_singleton.mp hqp
  exact this ▸ hp

/-- A filter that is handed over names stored columns, which an accepted predicate reads. -/
theorem exists_reference_of_mem_pushed {ps : List Expr} {f : Filter}
    (hf : f ∈ (s.handOverAll ps).pushed) {name : String} (hname : name ∈ f.mentions) :
    ∃ p ∈ ps, s.acceptsPredicate p ∧ ∃ c ∈ p.columns, ∃ stored,
      s.storedColumns.get? c.id = some stored ∧ stored.name = name := by
  rw [handOverAll, Handover.pushed_concat, List.flatMap_map, List.mem_flatMap] at hf
  obtain ⟨p, hp, hfp⟩ := hf
  rw [handOver] at hfp
  split at hfp
  · next haccepts =>
    split at hfp
    · next renamed hrenamed =>
      obtain ⟨weaken, hweak⟩ : ∃ weaken, renamed.toFilter? weaken = some f := by
        simp only [Handover.ofPredicate] at hfp
        split at hfp
        · next g hg => exact ⟨false, List.mem_singleton.mp hfp ▸ hg⟩
        · exact ⟨true, Option.mem_toList.mp hfp⟩
      obtain ⟨rfl, hget⟩ := get?_of_inStoredNames? hrenamed
      obtain ⟨d, hd, rfl⟩ := Expr.exists_column_of_mem_mentions hweak hname
      rw [Expr.mapColumns, Expr.columns_bind, List.mem_flatMap] at hd
      obtain ⟨c, hc, hdc⟩ := hd
      rw [Expr.columns_col, List.mem_singleton] at hdc
      exact ⟨p, hp, haccepts, c, hc, d, hdc ▸ hget c hc, rfl⟩
    · cases hfp
  · cases hfp

/-- A source knows every column in the filters handed to it. -/
theorem stores_of_mem_pushed {ps : List Expr} {f : Filter} (hf : f ∈ (s.handOverAll ps).pushed)
    {name : String} (hname : name ∈ f.columns) : s.stores name := by
  rw [Filter.columns, List.mem_eraseDups] at hname
  obtain ⟨-, -, -, c, -, stored, hstored, rfl⟩ := exists_reference_of_mem_pushed hf hname
  exact List.any_eq_true.mpr ⟨stored, IdMap.mem_values_of_get? hstored, beq_self_eq_true _⟩

theorem unknownColumn?_eq_none {filters : List Filter}
    (h : ∀ f ∈ filters, ∀ name ∈ f.columns, s.stores name) : s.unknownColumn? filters = none := by
  rw [unknownColumn?, List.findSome?_eq_none_iff]
  intro f hf
  rw [List.find?_eq_none]
  intro name hname
  simp [h f hf name hname]

theorem unknownColumn?_handOverAll (ps : List Expr) :
    s.unknownColumn? (s.handOverAll ps).pushed = none :=
  unknownColumn?_eq_none fun _ hf _ => stores_of_mem_pushed hf

end Source

end QueryPlan
