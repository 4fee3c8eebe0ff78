import QueryPlan.Proofs.ExactFilters
import QueryPlan.Proofs.StoredFilters

/-!
# How wide a predicate may be

A conjunction or a disjunction may have any number of operands, but a filter joins two at a time.
The filter of many comparisons is therefore a chain, nested to the left, and every operand after the
second puts two more levels around the first two.  The reader of stored filters goes down 127
levels, which is enough for 62 comparisons whatever they are, for 63 in most cases, and never for
more (`Expr.ofStored?_wide`).
-/

set_option autoImplicit false

namespace QueryPlan

/-! ## One comparison -/

namespace Literal

theorem depth_toJson {l : Literal} (h : l.isFloat = false) :
    l.toJson.depth = if l.isNull then 0 else 1 := by
  cases l with
  | float f _ => cases h
  | _ => rfl

end Literal

namespace Filter

theorem literals_ofComparison (column : String) (op : Comparison) (l : Literal) :
    (ofComparison column op l).literals = [l] := by
  cases op <;> rfl

theorem depth_ofComparison (column : String) (op : Comparison) (l : Literal) :
    (ofComparison column op l).toJson.depth = l.toJson.depth + if op = .ne then 3 else 2 := by
  cases op <;> simp [ofComparison, toJson, depth_tagged, depth_fields]

end Filter

namespace Expr

/-- A comparison of a column with a literal that is no float, in either order. -/
inductive ComparesColumn : Expr → Prop where
  | columnFirst (c : Column) (op : Comparison) {l : Literal} (h : l.isFloat = false) :
    ComparesColumn (compare (col c) op (lit l))
  | literalFirst (c : Column) (op : Comparison) {l : Literal} (h : l.isFloat = false) :
    ComparesColumn (compare (lit l) op (col c))

/-- Whether a comparison asks for a difference from a value other than null.  Its filter is a
negation, and takes a level more than those of the others. -/
def excludesValue : Expr → Bool
  | compare (col _) .ne (lit l) => !l.isNull
  | compare (lit l) .ne (col _) => !l.isNull
  | _ => false

/-- The filter of one comparison, as far as its levels go. -/
structure OneTest (e : Expr) (f : Filter) : Prop where
  noFloat : ∀ l ∈ f.literals, l.isFloat = false
  depth_ge : 2 ≤ f.toJson.depth
  depth_le : f.toJson.depth ≤ 4
  depth_le_three_iff : f.toJson.depth ≤ 3 ↔ e.excludesValue = false

theorem oneTest_ofComparison {e : Expr} (column : String) (op : Comparison) {l : Literal}
    (h : l.isFloat = false) (he : e.excludesValue = (op == .ne && !l.isNull)) :
    e.OneTest (.ofComparison column op l) where
  noFloat := by simpa [Filter.literals_ofComparison] using h
  depth_ge := by
    rw [Filter.depth_ofComparison]
    split <;> omega
  depth_le := by
    rw [Filter.depth_ofComparison, Literal.depth_toJson h]
    split <;> split <;> omega
  depth_le_three_iff := by
    rw [Filter.depth_ofComparison, Literal.depth_toJson h, he]
    cases l.isNull <;> cases op <;> decide

theorem ComparesColumn.exists_oneTest {e : Expr} (h : e.ComparesColumn) (weaken : Bool) :
    ∃ f, e.toFilter? weaken = some f ∧ e.OneTest f := by
  cases h with
  | columnFirst c op h =>
    refine ⟨_, (Tests.columnFirst c op _).toFilter? weaken, oneTest_ofComparison _ _ h ?_⟩
    cases op <;> rfl
  | literalFirst c op h =>
    refine ⟨_, (Tests.literalFirst c op _).toFilter? weaken, oneTest_ofComparison _ _ h ?_⟩
    cases op <;> rfl

end Expr

/-! ## Chains -/

namespace Filter

section Chain

variable {join : Filter → Filter → Filter} {first : Filter} {rest : List Filter}

/-- A chain over filters that are no deeper than the first one. -/
theorem depth_foldl
    (hjoin : ∀ a b, (join a b).toJson.depth = max a.toJson.depth b.toJson.depth + 2)
    (hrest : ∀ f ∈ rest, f.toJson.depth ≤ first.toJson.depth) :
    (rest.foldl join first).toJson.depth = first.toJson.depth + 2 * rest.length := by
  induction rest generalizing first with
  | nil => rfl
  | cons f rest ih =>
    obtain ⟨hf, hrest⟩ := List.forall_mem_cons.mp hrest
    have hnext : (join first f).toJson.depth = first.toJson.depth + 2 := by
      rw [hjoin, Nat.max_eq_left hf]
    rw [List.foldl_cons, ih fun g hg => ?_, hnext, List.length_cons]
    · omega
    · exact hnext ▸ (hrest g hg).trans (Nat.le_add_right _ 2)

/-- **How long a chain of single tests may be.**  The first two tests are the deepest in it, and
hence the only ones that count. -/
theorem depth_foldl_le_iff
    (hjoin : ∀ a b, (join a b).toJson.depth = max a.toJson.depth b.toJson.depth + 2)
    (hbounds : ∀ f ∈ first :: rest, 2 ≤ f.toJson.depth ∧ f.toJson.depth ≤ 4) :
    (rest.foldl join first).toJson.depth ≤ storedDepth ↔
      rest.length + 1 ≤ 62 ∨
        rest.length + 1 = 63 ∧ ∀ f ∈ (first :: rest).take 2, f.toJson.depth ≤ 3 := by
  obtain ⟨⟨hge₁, hle₁⟩, hbounds⟩ := List.forall_mem_cons.mp hbounds
  rw [storedDepth]
  cases rest with
  | nil => simp; omega
  | cons second rest =>
    obtain ⟨⟨hge₂, hle₂⟩, hbounds⟩ := List.forall_mem_cons.mp hbounds
    have hjoined := hjoin first second
    have hrest : ∀ f ∈ rest, f.toJson.depth ≤ (join first second).toJson.depth := by
      intro f hf
      have := (hbounds f hf).2
      omega
    rw [List.foldl_cons, depth_foldl hjoin hrest, hjoined, List.length_cons]
    simp only [List.take_succ_cons, List.take_zero, List.forall_mem_cons]
    simp only [List.not_mem_nil, false_implies, implies_true, and_true]
    omega

end Chain

end Filter

/-! ## Many comparisons -/

namespace Expr

/-- A connective over predicates that become filters becomes the chain of these. -/
theorem toFilter?_wide {e : Expr} {es : List Expr} (he : e = and es ∨ e = or es) {weaken : Bool}
    {fs : List Filter} (hfs : List.Forall₂ (fun x g => x.toFilter? weaken = some g) es fs) :
    ∃ join : Filter → Filter → Filter,
      (∀ a b, (join a b).toJson.depth = max a.toJson.depth b.toJson.depth + 2) ∧
      (∀ a b, (join a b).literals = a.literals ++ b.literals) ∧
      e.toFilter? weaken = fs.head?.map fun first => fs.tail.foldl join first := by
  have hdepth (kind : String) (a b : Json) :
      (Json.ofMembers [(kind, .arr [a, b])]).depth = max a.depth b.depth + 2 := by
    rw [Filter.depth_tagged, Filter.depth_pair]
  obtain rfl | rfl := he
  · refine ⟨.and, fun a b => hdepth "And" _ _, fun _ _ => rfl, ?_⟩
    rw [toFilter?_and hfs]
    cases fs <;> rfl
  · refine ⟨.or, fun a b => hdepth "Or" _ _, fun _ _ => rfl, ?_⟩
    rw [toFilter?_or hfs]
    cases fs <;> rfl

/-- **How many comparisons may be joined**, by a conjunction or by a disjunction, so that their
filter is read back from its stored text: 62, or 63 if neither of the first two asks for a
difference from a value.  Of a longer one nothing is read. -/
theorem ofStored?_wide {e : Expr} {es : List Expr} (he : e = and es ∨ e = or es)
    (hes : ∀ x ∈ es, x.ComparesColumn) :
    ((e.toFilter? true).isSome ↔ es ≠ []) ∧
    ∀ f, e.toFilter? true = some f → Filter.ofStored? f.stored =
      if es.length ≤ 62 ∨ es.length = 63 ∧ ∀ x ∈ es.take 2, x.excludesValue = false then some f
      else none := by
  obtain ⟨fs, hfs⟩ := exists_forall₂ fun x hx => (hes x hx).exists_oneTest true
  obtain ⟨join, hjoin, hliterals, hfilter⟩ := toFilter?_wide he (hfs.imp fun x g h => h.1)
  have htests : List.Forall₂ OneTest es fs := hfs.imp fun x g h => h.2
  have hfirst : (∀ x ∈ es.take 2, x.excludesValue = false) ↔
      ∀ f ∈ fs.take 2, f.toJson.depth ≤ 3 :=
    forall₂_forall_iff (List.forall₂_take 2 htests) fun x f h => h.depth_le_three_iff.symm
  have hnoFloat : ∀ f ∈ fs, ∀ l ∈ f.literals, l.isFloat = false := by
    intro f hf
    obtain ⟨x, -, hx⟩ := exists_of_forall₂_mem htests hf
    exact hx.noFloat
  have hbounds : ∀ f ∈ fs, 2 ≤ f.toJson.depth ∧ f.toJson.depth ≤ 4 := by
    intro f hf
    obtain ⟨x, -, hx⟩ := exists_of_forall₂_mem htests hf
    exact ⟨hx.depth_ge, hx.depth_le⟩
  have hempty : es ≠ [] ↔ fs ≠ [] :=
    ⟨ne_nil_of_forall₂ htests, ne_nil_of_forall₂ htests.flip⟩
  simp only [hfilter, hfirst, htests.length_eq, hempty]
  cases fs with
  | nil => simp
  | cons first rest =>
    refine ⟨by simp, fun f hf => ?_⟩
    obtain rfl := Option.some.inj hf
    have hchain : ∀ l ∈ (rest.foldl join first).literals, l.isFloat = false := by
      intro l hl
      rw [foldl_eq_flatMap_cons hliterals] at hl
      obtain ⟨f, hf, hlf⟩ := List.mem_flatMap.mp hl
      exact hnoFloat f hf l hlf
    rw [List.tail_cons, Filter.ofStored?_eq hchain, List.length_cons]
    exact if_congr (Filter.depth_foldl_le_iff hjoin hbounds) rfl rfl

/-- Whether an account is one of the first ones. -/
def firstAccounts (n : Nat) : List Expr :=
  (List.range n).map fun i => compare (col (.plain 1 "account")) .eq (lit (.int (.ofNat i)))

theorem ofStored?_wide_accounts :
    (∀ n, ∀ x ∈ firstAccounts n, x.ComparesColumn) ∧
    (∃ f, (or (firstAccounts 63)).toFilter? true = some f ∧
      Filter.ofStored? f.stored = some f) ∧
    ∃ f, (or (firstAccounts 64)).toFilter? true = some f ∧ Filter.ofStored? f.stored = none := by
  have hcompares : ∀ n, ∀ x ∈ firstAccounts n, x.ComparesColumn := by
    intro n x hx
    obtain ⟨i, -, rfl⟩ := List.mem_map.mp hx
    exact .columnFirst _ _ rfl
  obtain ⟨hsome, hread⟩ := ofStored?_wide (.inr rfl) (hcompares 63)
  obtain ⟨hsome', hread'⟩ := ofStored?_wide (.inr rfl) (hcompares 64)
  obtain ⟨f, hf⟩ := Option.isSome_iff_exists.mp (hsome.mpr (by decide))
  obtain ⟨g, hg⟩ := Option.isSome_iff_exists.mp (hsome'.mpr (by decide))
  refine ⟨hcompares, ⟨f, hf, ?_⟩, g, hg, ?_⟩
  · rw [hread f hf, if_pos (by decide)]
  · rw [hread' g hg, if_neg (by decide)]

end Expr

end QueryPlan
