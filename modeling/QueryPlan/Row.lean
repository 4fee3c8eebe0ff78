import QueryPlan.Value

/-!
# Rows

A row holds cells under keys.  No key occurs twice, and the cells stand in ascending order of their
keys, so that two rows with the same cells are the same row: `Row.ext_get?`.
-/

set_option autoImplicit false

namespace QueryPlan

/-- Cells under distinct keys, in ascending order. -/
structure Row where
  cells : List (String × Value)
  ascending : cells.Pairwise fun a b => a.1 < b.1

namespace Row

/-- The row without cells. -/
def empty : Row := ⟨[], List.Pairwise.nil⟩

/-- The value under a key, if the row has the key. -/
def get? (r : Row) (key : String) : Option Value := r.cells.lookup key

/-- The value under a key; a missing cell reads as null. -/
def cell (r : Row) (key : String) : Value := (r.get? key).getD .null

/-! ## Writing a cell -/

/-- Puts a cell at its place; a cell that is there is replaced. -/
def insertCell (key : String) (value : Value) : List (String × Value) → List (String × Value)
  | [] => [(key, value)]
  | (k, v) :: rest =>
    if key < k then (key, value) :: (k, v) :: rest
    else if key = k then (key, value) :: rest
    else (k, v) :: insertCell key value rest

theorem mem_insertCell {key : String} {value : Value} {cells : List (String × Value)}
    {c : String × Value} (h : c ∈ insertCell key value cells) : c = (key, value) ∨ c ∈ cells := by
  induction cells with
  | nil => exact Or.inl (by simpa [insertCell] using h)
  | cons d rest ih =>
    rw [insertCell] at h
    split at h
    · simpa using h
    · split at h
      · simp only [List.mem_cons] at h ⊢
        exact h.imp_right Or.inr
      · rcases List.mem_cons.mp h with h | h
        · exact Or.inr (by simp [h])
        · exact (ih h).imp_right (List.mem_cons_of_mem _)

theorem pairwise_insertCell {key : String} {value : Value} {cells : List (String × Value)}
    (h : cells.Pairwise fun a b => a.1 < b.1) :
    (insertCell key value cells).Pairwise fun a b => a.1 < b.1 := by
  induction cells with
  | nil => simp [insertCell]
  | cons d rest ih =>
    rw [insertCell]
    have hd := List.pairwise_cons.mp h
    split
    · next hlt =>
      refine List.pairwise_cons.mpr ⟨fun c hc => ?_, h⟩
      rcases List.mem_cons.mp hc with rfl | hc
      · exact hlt
      · exact String.lt_trans hlt (hd.1 c hc)
    · next hlt =>
      split
      · next heq => exact List.pairwise_cons.mpr ⟨fun c hc => heq ▸ hd.1 c hc, hd.2⟩
      · next hne =>
        refine List.pairwise_cons.mpr ⟨fun c hc => ?_, ih hd.2⟩
        rcases mem_insertCell hc with rfl | hc
        · exact String.not_le.mp fun hle =>
            hne (String.le_antisymm hle (String.not_lt.mp hlt))
        · exact hd.1 c hc

/-- The row with a value under a key. -/
def insert (r : Row) (key : String) (value : Value) : Row :=
  ⟨insertCell key value r.cells, pairwise_insertCell r.ascending⟩

/-- The row of a list of cells; of two cells with one key the later counts. -/
def ofCells (cells : List (String × Value)) : Row :=
  cells.foldl (fun r c => r.insert c.1 c.2) empty

/-- The row without a key. -/
def erase (r : Row) (key : String) : Row :=
  ⟨r.cells.filter fun c => c.1 != key, r.ascending.filter _⟩

/-! ## Reading back -/

@[simp] theorem get?_empty (key : String) : empty.get? key = none := rfl

theorem lookup_insertCell (key : String) (value : Value) (cells : List (String × Value))
    (k : String) :
    (insertCell key value cells).lookup k =
      if k = key then some value else cells.lookup k := by
  induction cells with
  | nil =>
    by_cases h : k = key
    · simp [insertCell, h]
    · simp [insertCell, h, List.lookup_cons, beq_eq_false_iff_ne.mpr h]
  | cons d rest ih =>
    obtain ⟨k', v⟩ := d
    rw [insertCell]
    split
    · by_cases h : k = key
      · simp [h]
      · rw [List.lookup_cons, beq_eq_false_iff_ne.mpr h, if_neg h]
    · split
      · next heq =>
        subst heq
        by_cases h : k = key
        · simp [h]
        · rw [List.lookup_cons, List.lookup_cons, beq_eq_false_iff_ne.mpr h, if_neg h]
      · next hne =>
        rw [List.lookup_cons, List.lookup_cons, ih]
        by_cases h : k = k'
        · simp [h, Ne.symm hne]
        · simp [beq_eq_false_iff_ne.mpr h]

theorem get?_insert (r : Row) (key : String) (value : Value) (k : String) :
    (r.insert key value).get? k = if k = key then some value else r.get? k :=
  lookup_insertCell key value r.cells k

theorem get?_eq_some_iff (r : Row) (key : String) (value : Value) :
    r.get? key = some value ↔ (key, value) ∈ r.cells := by
  obtain ⟨cells, h⟩ := r
  show cells.lookup key = some value ↔ (key, value) ∈ cells
  induction cells with
  | nil => simp
  | cons d rest ih =>
    obtain ⟨k, v⟩ := d
    have hd := List.pairwise_cons.mp h
    rw [List.lookup_cons, List.mem_cons]
    by_cases hk : key = k
    · subst hk
      simp only [beq_self_eq_true, Option.some.injEq, Prod.mk.injEq, true_and]
      constructor
      · rintro rfl; exact Or.inl rfl
      · rintro (rfl | hm)
        · rfl
        · exact absurd (hd.1 _ hm) (String.lt_irrefl key)
    · rw [beq_eq_false_iff_ne.mpr hk]
      simp only [Prod.mk.injEq, hk, false_and, false_or]
      exact ih hd.2

/-- Rows that hold the same value under every key are the same row. -/
theorem ext_get? {r s : Row} (h : ∀ key, r.get? key = s.get? key) : r = s := by
  have hmem : ∀ c, c ∈ r.cells ↔ c ∈ s.cells := fun ⟨k, v⟩ => by
    rw [← get?_eq_some_iff, ← get?_eq_some_iff, h]
  obtain ⟨rc, hr⟩ := r
  obtain ⟨sc, hs⟩ := s
  simp only at hmem
  congr 1
  clear h
  induction rc generalizing sc with
  | nil =>
    cases sc with
    | nil => rfl
    | cons d _ => exact absurd ((hmem d).mpr (by simp)) (by simp)
  | cons c rest ih =>
    cases sc with
    | nil => exact absurd ((hmem c).mp (by simp)) (by simp)
    | cons d rest' =>
      have hr' := List.pairwise_cons.mp hr
      have hs' := List.pairwise_cons.mp hs
      have hcd : c = d := by
        rcases List.mem_cons.mp ((hmem c).mp (by simp)) with h | h
        · exact h
        · rcases List.mem_cons.mp ((hmem d).mpr (by simp)) with h' | h'
          · exact h'.symm
          · exact absurd (String.lt_trans (hr'.1 d h') (hs'.1 c h)) (String.lt_irrefl _)
      subst hcd
      refine congrArg (c :: ·) (ih hr'.2 rest' hs'.2 fun x => ?_)
      have hx := hmem x
      simp only [List.mem_cons] at hx
      constructor
      · intro hm
        rcases hx.mp (Or.inr hm) with rfl | h
        · exact absurd (hr'.1 _ hm) (String.lt_irrefl _)
        · exact h
      · intro hm
        rcases hx.mpr (Or.inr hm) with rfl | h
        · exact absurd (hs'.1 _ hm) (String.lt_irrefl _)
        · exact h

end Row

end QueryPlan
