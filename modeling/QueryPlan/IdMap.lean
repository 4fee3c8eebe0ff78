import QueryPlan.Column

/-!
# Maps from column identities

A map that remembers in which order its identities came.  Giving an identity a second value keeps
its place.
-/

set_option autoImplicit false

namespace QueryPlan

/-- Values under column identities, in the order in which the identities came. -/
structure IdMap (α : Type) where
  entries : List (ColumnId × α)

namespace IdMap

variable {α : Type}

/-- The map without entries. -/
def empty : IdMap α := ⟨[]⟩

/-- The value under an identity. -/
def get? (m : IdMap α) (id : ColumnId) : Option α := m.entries.lookup id

/-- Whether an identity has a value. -/
def contains (m : IdMap α) (id : ColumnId) : Bool := (m.get? id).isSome

/-- Entries with a value under an identity, at its old place or at the end. -/
def insertEntry (id : ColumnId) (a : α) : List (ColumnId × α) → List (ColumnId × α)
  | [] => [(id, a)]
  | (i, b) :: rest => if i = id then (i, a) :: rest else (i, b) :: insertEntry id a rest

/-- The map with a value under an identity. -/
def insert (m : IdMap α) (id : ColumnId) (a : α) : IdMap α := ⟨insertEntry id a m.entries⟩

/-- The map with a value under an identity, unless it has one. -/
def insertNew (m : IdMap α) (id : ColumnId) (a : α) : IdMap α :=
  if m.contains id then m else ⟨m.entries ++ [(id, a)]⟩

/-- The map of a list of entries; the last value of an identity counts. -/
def ofList (entries : List (ColumnId × α)) : IdMap α :=
  entries.foldl (fun m e => m.insert e.1 e.2) empty

/-- The map of a list of entries; the first value of an identity counts. -/
def ofListFirst (entries : List (ColumnId × α)) : IdMap α :=
  entries.foldl (fun m e => m.insertNew e.1 e.2) empty

/-- The values, in the order of their identities. -/
def values (m : IdMap α) : List α := m.entries.map (·.2)

theorem mem_entries_of_get? {m : IdMap α} {id : ColumnId} {a : α} (h : m.get? id = some a) :
    (id, a) ∈ m.entries := by
  obtain ⟨before, after, hentries, -⟩ := List.lookup_eq_some_iff.mp h
  simp [hentries]

theorem get?_insert (m : IdMap α) (id : ColumnId) (a : α) (i : ColumnId) :
    (m.insert id a).get? i = if i = id then some a else m.get? i := by
  obtain ⟨entries⟩ := m
  show (insertEntry id a entries).lookup i = if i = id then some a else entries.lookup i
  induction entries with
  | nil =>
    by_cases h : i = id
    · simp [insertEntry, h]
    · simp [insertEntry, h, List.lookup_cons, beq_eq_false_iff_ne.mpr h]
  | cons e rest ih =>
    obtain ⟨j, b⟩ := e
    rw [insertEntry]
    split
    · next hj =>
      subst hj
      by_cases h : i = j
      · simp [h]
      · rw [List.lookup_cons, List.lookup_cons, beq_eq_false_iff_ne.mpr h, if_neg h]
    · next hj =>
      rw [List.lookup_cons, List.lookup_cons, ih]
      by_cases h : i = j
      · simp [h, hj]
      · simp [beq_eq_false_iff_ne.mpr h]

end IdMap

end QueryPlan
