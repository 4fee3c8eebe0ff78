import Mathlib.Data.List.Induction
import Mathlib.Data.List.Nodup
import QueryPlan.Proofs.FirstReferences
import QueryPlan.Source

/-!
# Reading the cells of a row

What a row built from a list of cells holds, and hence what the rows of a source hold.  A list of
cells may name a key more than once; as long as it never gives one key two values (`Consistent`),
the row holds exactly the listed cells (`get?_ofCells_eq_some_iff`), and their order does not
matter (`ofCells_congr`).

Columns are told apart by their row keys: `Column.rowKey_inj` reads both the name and the identity
back out of a key, although a name may itself hold the sign between them.
-/

set_option autoImplicit false

namespace QueryPlan

/-! ## Row keys -/

/-- Two texts cut at their first mark. -/
theorem append_cons_inj_left {α : Type} {s : α} {x y a b : List α} (hx : s ∉ x) (hy : s ∉ y)
    (h : x ++ s :: a = y ++ s :: b) : x = y ∧ a = b := by
  induction x generalizing y with
  | nil =>
    cases y with
    | nil => simpa using h
    | cons d y =>
      rw [List.nil_append, List.cons_append, List.cons.injEq] at h
      exact absurd (h.1 ▸ List.mem_cons_self) hy
  | cons c x ih =>
    cases y with
    | nil =>
      rw [List.nil_append, List.cons_append, List.cons.injEq] at h
      exact absurd (h.1 ▸ List.mem_cons_self) hx
    | cons d y =>
      simp only [List.mem_cons, not_or] at hx hy
      simp only [List.cons_append, List.cons.injEq] at h
      obtain ⟨rfl, hab⟩ := ih hx.2 hy.2 h.2
      exact ⟨by rw [h.1], hab⟩

/-- Two texts cut at their last mark. -/
theorem append_cons_inj_right {α : Type} {s : α} {a b x y : List α} (hx : s ∉ x) (hy : s ∉ y)
    (h : a ++ s :: x = b ++ s :: y) : a = b ∧ x = y := by
  have h' : x.reverse ++ s :: a.reverse = y.reverse ++ s :: b.reverse := by
    simpa using congrArg List.reverse h
  obtain ⟨hxy, hab⟩ := append_cons_inj_left (by simpa using hx) (by simpa using hy) h'
  exact ⟨List.reverse_injective hab, List.reverse_injective hxy⟩

/-- A key says which column it belongs to, name and identity. -/
theorem Column.rowKey_inj {c d : Column} (h : c.rowKey = d.rowKey) :
    c.id = d.id ∧ c.name = d.name := by
  have hdigits (n : Nat) : '#' ∉ Nat.toDigits 10 n := fun hm =>
    absurd (Nat.isDigit_of_mem_toDigits (by decide) (by decide) hm) (by decide)
  have hl : c.name.toList ++ '#' :: Nat.toDigits 10 c.id =
      d.name.toList ++ '#' :: Nat.toDigits 10 d.id := by
    simpa [Column.rowKey, String.toList_append] using congrArg String.toList h
  obtain ⟨hname, hid⟩ := append_cons_inj_right (hdigits _) (hdigits _) hl
  refine ⟨?_, String.toList_inj.mp hname⟩
  simpa using congrArg (Nat.ofDigitChars 10 · 0) hid

/-! ## Rows from cells -/

namespace Row

theorem ofCells_append (cells : List (String × Value)) (key : String) (value : Value) :
    ofCells (cells ++ [(key, value)]) = (ofCells cells).insert key value := by
  simp [ofCells]

/-- No key of the list comes with two values. -/
def Consistent (cells : List (String × Value)) : Prop :=
  ∀ key v w, (key, v) ∈ cells → (key, w) ∈ cells → v = w

theorem Consistent.mono {cells cells' : List (String × Value)} (h : Consistent cells)
    (hsub : ∀ c ∈ cells', c ∈ cells) : Consistent cells' :=
  fun key v w hv hw => h key v w (hsub _ hv) (hsub _ hw)

/-- **A row holds the cells it was made of.** -/
theorem get?_ofCells_eq_some_iff {cells : List (String × Value)} (h : Consistent cells)
    (key : String) (value : Value) :
    (ofCells cells).get? key = some value ↔ (key, value) ∈ cells := by
  induction cells using List.reverseRecOn with
  | nil => simp [ofCells]
  | append_singleton cells c ih =>
    obtain ⟨k, v⟩ := c
    have hcells : Consistent cells := h.mono fun c hc => List.mem_append_left _ hc
    rw [ofCells_append, get?_insert, List.mem_append, List.mem_singleton, Prod.mk.injEq]
    by_cases hk : key = k
    · subst hk
      rw [if_pos rfl, Option.some.injEq]
      constructor
      · rintro rfl; exact Or.inr ⟨rfl, rfl⟩
      · rintro (hm | ⟨-, rfl⟩)
        · exact (h key _ _ (List.mem_append_left _ hm) (by simp)).symm
        · rfl
    · rw [if_neg hk, ih hcells]
      simp [hk]

theorem cell_ofCells {cells : List (String × Value)} (h : Consistent cells) {key : String}
    {value : Value} (hm : (key, value) ∈ cells) : (ofCells cells).cell key = value := by
  rw [cell, (get?_ofCells_eq_some_iff h key value).mpr hm, Option.getD_some]

/-- Two lists with the same cells make the same row. -/
theorem ofCells_congr {cells cells' : List (String × Value)} (h : Consistent cells)
    (hmem : ∀ c, c ∈ cells ↔ c ∈ cells') : ofCells cells = ofCells cells' := by
  have h' : Consistent cells' := h.mono fun c hc => (hmem c).mpr hc
  refine ext_get? fun key => Option.ext fun value => ?_
  rw [get?_ofCells_eq_some_iff h, get?_ofCells_eq_some_iff h', hmem]

/-- Cells computed from the things they stand for, where a key fixes its value. -/
theorem consistent_map {α : Type} {key : α → String} {value : α → Value} {l : List α}
    (h : ∀ a ∈ l, ∀ b ∈ l, key a = key b → value a = value b) :
    Consistent (l.map fun a => (key a, value a)) := by
  intro k v w hv hw
  obtain ⟨a, ha, hka⟩ := List.mem_map.mp hv
  obtain ⟨b, hb, hkb⟩ := List.mem_map.mp hw
  rw [Prod.mk.injEq] at hka hkb
  rw [← hka.2, ← hkb.2]
  exact h a ha b hb (hka.1.trans hkb.1.symm)

theorem isSome_get?_ofCells (cells : List (String × Value)) (key : String) :
    ((ofCells cells).get? key).isSome ↔ key ∈ cells.map Prod.fst := by
  induction cells using List.reverseRecOn with
  | nil => simp [ofCells]
  | append_singleton cells c ih =>
    rw [ofCells_append, get?_insert, List.map_append, List.mem_append, ← ih]
    split
    · next hk => simp [hk]
    · next hk => simp [hk]

/-- A row is made of what it holds under its keys. -/
theorem ofCells_map_cell (cells : List (String × Value)) :
    ofCells ((cells.map Prod.fst).map fun key => (key, (ofCells cells).cell key)) =
      ofCells cells := by
  refine ext_get? fun key => ?_
  have hcons : Consistent ((cells.map Prod.fst).map fun key => (key, (ofCells cells).cell key)) :=
    consistent_map fun a _ b _ hab => congrArg _ hab
  cases hget : (ofCells cells).get? key with
  | some v =>
    rw [get?_ofCells_eq_some_iff hcons]
    have hkey := (isSome_get?_ofCells cells key).mp (hget ▸ rfl)
    exact List.mem_map.mpr ⟨key, hkey, by rw [cell, hget, Option.getD_some]⟩
  | none =>
    have hkey : key ∉ cells.map Prod.fst := fun h => by
      simpa [hget] using (isSome_get?_ofCells cells key).mpr h
    rw [← Option.not_isSome_iff_eq_none, isSome_get?_ofCells, List.map_map]
    simpa using hkey

/-- Values under distinct keys. -/
theorem consistent_zip {keys : List String} (h : keys.Nodup) (vs : List Value) :
    Consistent (keys.zip vs) := by
  induction keys generalizing vs with
  | nil => intro key v w hv; cases hv
  | cons k keys ih =>
    cases vs with
    | nil => intro key v w hv; cases hv
    | cons a vs =>
      obtain ⟨hk, hkeys⟩ := List.nodup_cons.mp h
      intro key v w hv hw
      rw [List.zip_cons_cons, List.mem_cons, Prod.mk.injEq] at hv hw
      rcases hv with ⟨rfl, rfl⟩ | hv <;> rcases hw with ⟨hkey, rfl⟩ | hw
      · rfl
      · exact absurd (List.of_mem_zip hw).1 hk
      · exact absurd (hkey ▸ (List.of_mem_zip hv).1) hk
      · exact ih hkeys vs key v w hv hw

theorem get?_erase (r : Row) (key k : String) :
    (r.erase key).get? k = if k = key then none else r.get? k := by
  obtain ⟨cells, h⟩ := r
  show (cells.filter fun c => c.1 != key).lookup k = if k = key then none else cells.lookup k
  clear h
  induction cells with
  | nil => simp
  | cons d rest ih =>
    obtain ⟨k', v⟩ := d
    rw [List.filter_cons, List.lookup_cons]
    by_cases hk' : k' = key
    · subst hk'
      rw [if_neg (by simp), ih]
      by_cases hk : k = k'
      · simp [hk]
      · rw [if_neg hk, beq_eq_false_iff_ne.mpr hk]; simp [hk]
    · rw [if_pos (by simpa using hk'), List.lookup_cons, ih]
      by_cases hk : k = k'
      · subst hk; simp [hk']
      · simp [beq_eq_false_iff_ne.mpr hk]

theorem cell_erase_of_ne (r : Row) {key k : String} (h : k ≠ key) :
    (r.erase key).cell k = r.cell k := by
  rw [cell, cell, get?_erase, if_neg h]

end Row

/-! ## Distinct columns -/

namespace Column

/-- A column is among others: one of them has its identity and its name. -/
def Among (columns : List Column) (c : Column) : Prop :=
  ∃ d ∈ columns, d.id = c.id ∧ d.name = c.name

instance (columns : List Column) : DecidablePred (Among columns) :=
  fun _ => inferInstanceAs (Decidable (∃ _ ∈ _, _))

theorem Among.rowKey {columns : List Column} {c : Column} (h : c.Among columns) :
    ∃ d ∈ columns, d.rowKey = c.rowKey := by
  obtain ⟨d, hd, hid, hname⟩ := h
  exact ⟨d, hd, by rw [Column.rowKey, Column.rowKey, hid, hname]⟩

theorem Among.trans {columns columns' : List Column} {c : Column} (h : c.Among columns)
    (hsub : ∀ d ∈ columns, d.Among columns') : c.Among columns' := by
  obtain ⟨d, hd, hid, hname⟩ := h
  obtain ⟨e, he, heid, hename⟩ := hsub d hd
  exact ⟨e, he, heid.trans hid, hename.trans hname⟩

theorem nodup_map_rowKey_distinct (l : List Column) : ((distinct l).map rowKey).Nodup := by
  rw [List.Nodup, List.pairwise_map]
  exact (pairwise_distinct l).imp fun h hkey => h (rowKey_inj hkey).1

/-- Among columns that name each identity in one way, the first reference to a column stands for
all. -/
theorem Among.distinct {l columns : List Column} {c : Column} (hc : c ∈ l)
    (hnames : ∀ d ∈ l, d.Among columns) (hids : (columns.map Column.id).Nodup) :
    c.Among (distinct l) := by
  obtain ⟨d, hd, hdc⟩ := exists_mem_distinct hc
  obtain ⟨c', hc', hcid, hcname⟩ := hnames c hc
  obtain ⟨d', hd', hdid, hdname⟩ := hnames d (mem_of_mem_distinct hd)
  have : c' = d' := List.inj_on_of_nodup_map hids hc' hd' (hcid.trans (hdc.symm.trans hdid.symm))
  exact ⟨d, hd, hdc, by rw [← hdname, ← this, hcname]⟩

end Column

/-! ## The rows of a source -/

namespace Source

theorem takeCells_eq {keys : List String} (h : keys.Nodup) (row : Row) :
    takeCells keys row = keys.map fun key => (key, row.cell key) := by
  induction keys generalizing row with
  | nil => rfl
  | cons key rest ih =>
    rw [takeCells, List.map_cons, ih (List.nodup_cons.mp h).2]
    congr 1
    refine List.map_congr_left fun k hk => ?_
    rw [Row.cell_erase_of_ne row fun hkey : k = key => (List.nodup_cons.mp h).1 (hkey ▸ hk)]

/-- **A declared column reads what is stored for it.** -/
theorem cell_engineRow (s : Source) (row : Row) {c : Column} (h : c.Among s.columns) :
    (s.engineRow row).cell c.rowKey = s.storedCell row c := by
  obtain ⟨d, hd, hid, hname⟩ := h
  have hcells : Row.Consistent (s.columns.map fun c => (c.rowKey, s.storedCell row c)) := by
    refine Row.consistent_map fun a _ b _ hab => ?_
    rw [storedCell, storedCell, (Column.rowKey_inj hab).1]
  refine Row.cell_ofCells hcells (List.mem_map.mpr ⟨d, hd, ?_⟩)
  rw [Column.rowKey, Column.rowKey, storedCell, storedCell, hid, hname]

end Source

end QueryPlan
