import QueryPlan.Expr.Basic

/-!
# The first references to columns

`Column.distinct` keeps the first of all references with one identity.  It may be taken of the parts
of a list before it is taken of the whole (`Column.distinct_flatMap_distinct`).  So it does not
matter that what several expressions read is put together from what each of them reads once:
`Expr.referencesOf_eq` says that it consists of the first of all their references.
-/

set_option autoImplicit false

namespace QueryPlan

namespace Column

/-! ## What is kept -/

theorem mem_of_mem_distinct {l : List Column} {c : Column} (h : c ∈ distinct l) : c ∈ l := by
  induction l with
  | nil => simp [distinct] at h
  | cons d rest ih =>
    rw [distinct, List.mem_cons] at h
    rcases h with rfl | h
    · exact List.mem_cons_self
    · exact List.mem_cons_of_mem _ (ih (List.mem_filter.mp h).1)

/-- Every identity stays. -/
theorem exists_mem_distinct {l : List Column} {c : Column} (h : c ∈ l) :
    ∃ d ∈ distinct l, d.id = c.id := by
  induction l with
  | nil => cases h
  | cons e rest ih =>
    rw [distinct]
    by_cases hid : e.id = c.id
    · exact ⟨e, List.mem_cons_self, hid⟩
    · have hc : c ∈ rest := (List.mem_cons.mp h).resolve_left fun hce => hid (hce ▸ rfl)
      obtain ⟨d, hd, hdc⟩ := ih hc
      refine ⟨d, List.mem_cons_of_mem _ (List.mem_filter.mpr ⟨hd, ?_⟩), hdc⟩
      simpa [hdc] using Ne.symm hid

theorem pairwise_distinct (l : List Column) : (distinct l).Pairwise fun c d => c.id ≠ d.id := by
  induction l with
  | nil => exact List.Pairwise.nil
  | cons c rest ih =>
    rw [distinct]
    refine List.pairwise_cons.mpr ⟨fun d hd => ?_, ih.filter _⟩
    have := (List.mem_filter.mp hd).2
    exact fun h => by simp [h] at this

/-! ## Of parts and of images -/

/-- Dropping identities and taking first references can change places. -/
theorem distinct_filter (keep : ColumnId → Bool) (l : List Column) :
    distinct (l.filter fun d => keep d.id) = (distinct l).filter fun d => keep d.id := by
  induction l with
  | nil => rfl
  | cons c l ih =>
    rw [distinct, List.filter_cons, List.filter_cons]
    cases hc : keep c.id with
    | true =>
      rw [if_pos rfl, if_pos rfl, distinct, ih, List.filter_filter, List.filter_filter]
      exact congrArg (c :: ·) (List.filter_congr fun d _ => Bool.and_comm ..)
    | false =>
      -- a later reference with the identity of `c` is not kept in either order
      rw [if_neg Bool.false_ne_true, if_neg Bool.false_ne_true, ih, List.filter_filter]
      refine List.filter_congr fun d _ => ?_
      by_cases hd : d.id = c.id
      · simp [hd, hc]
      · simp [hd]

theorem distinct_append_congr {l l' : List Column} (h : distinct l = distinct l')
    (before : List Column) : distinct (before ++ l) = distinct (before ++ l') := by
  induction before with
  | nil => exact h
  | cons c before ih => rw [List.cons_append, List.cons_append, distinct, distinct, ih]

theorem distinct_distinct_append (before l : List Column) :
    distinct (distinct before ++ l) = distinct (before ++ l) := by
  induction before with
  | nil => rfl
  | cons c before ih =>
    have hdropped (x : List Column) :
        (distinct (x.filter (·.id != c.id) ++ l)).filter (·.id != c.id)
          = (distinct (x ++ l)).filter (·.id != c.id) := by
      rw [← distinct_filter (· != c.id), ← distinct_filter (· != c.id), List.filter_append,
        List.filter_append, List.filter_filter]
      simp only [Bool.and_self]
    rw [distinct, List.cons_append, List.cons_append, distinct, distinct, hdropped, ih]

/-- First references may be taken of each part beforehand. -/
theorem distinct_flatMap_distinct {α : Type} (l : List α) (f : α → List Column) :
    distinct (l.flatMap fun a => distinct (f a)) = distinct (l.flatMap f) := by
  induction l with
  | nil => rfl
  | cons a l ih =>
    rw [List.flatMap_cons, List.flatMap_cons, distinct_distinct_append]
    exact distinct_append_congr ih (f a)

/-- Columns that keep their identities are told apart as before. -/
theorem distinct_map {g : Column → Column} {l : List Column} (h : ∀ c ∈ l, (g c).id = c.id) :
    distinct (l.map g) = (distinct l).map g := by
  induction l with
  | nil => rfl
  | cons c l ih =>
    obtain ⟨hc, hl⟩ := List.forall_mem_cons.mp h
    rw [List.map_cons, distinct, distinct, List.map_cons, ih hl, List.filter_map, hc]
    refine congrArg (fun rest => g c :: rest.map g) (List.filter_congr fun d hd => ?_)
    rw [Function.comp_apply, hl d (mem_of_mem_distinct hd)]

end Column

namespace Expr

/-! ## What several expressions read -/

theorem referencesOf_eq (es : List Expr) :
    referencesOf es = Column.distinct (es.flatMap columns) :=
  Column.distinct_flatMap_distinct es columns

variable {es : List Expr} {c : Column}

theorem exists_mem_of_mem_referencesOf (h : c ∈ referencesOf es) : ∃ e ∈ es, c ∈ e.columns := by
  rw [referencesOf_eq] at h
  exact List.mem_flatMap.mp (Column.mem_of_mem_distinct h)

/-- Each column that is read has a reference that stands for it. -/
theorem exists_mem_referencesOf {e : Expr} (he : e ∈ es) (hc : c ∈ e.columns) :
    ∃ d ∈ referencesOf es, d.id = c.id := by
  rw [referencesOf_eq]
  exact Column.exists_mem_distinct (List.mem_flatMap.mpr ⟨e, he, hc⟩)

end Expr

end QueryPlan
