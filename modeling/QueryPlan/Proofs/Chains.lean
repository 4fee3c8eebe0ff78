import Mathlib.Logic.Relation
import QueryPlan.Proofs.Substitution

/-!
# Chains of definitions

Definitions may read one another.  Reading an expression through them goes on inside what it has put
in, and the part that is gone through next can be larger than the whole that it came from.

It comes to an end if the definitions are *acyclic*: following an identity to what its definition
reads never leads back to it.  Every chain of reads then ends in as many steps as there are
definitions (`Acyclic.within`).  That bounds how often a column can be replaced inside a replacement
(`acc_of_within`), and makes the depth of `readThrough` enough: one round more would change nothing
(`expand_succ`), so that reading through is the recursion without a bound
(`Acyclic.readThrough_eq`).

What stands at the top of a replacement is not looked at again.  So a column that has a definition
can be left, but only where a column was replaced whose definition is nothing but a column
(`Acyclic.bare_of_at?_readThrough`).
-/

set_option autoImplicit false

namespace QueryPlan

/-! ## Chains of reads -/

namespace IdMap

/-- Whether the definition of an identity reads another identity. -/
def Reads (definitions : IdMap Expr) (i j : ColumnId) : Prop :=
  ∃ e, definitions.get? i = some e ∧ ∃ c ∈ e.columns, c.id = j

/-- Whether following reads never leads back. -/
def Acyclic (definitions : IdMap Expr) : Prop :=
  ∀ i, ¬Relation.TransGen definitions.Reads i i

/-- Whether every chain of reads from an identity ends, at one without a definition, in so many
steps. -/
def Within (definitions : IdMap Expr) : Nat → ColumnId → Prop
  | 0, i => definitions.get? i = none
  | n + 1, i => ∀ j, definitions.Reads i j → definitions.Within n j

variable {definitions : IdMap Expr}

/-- Where reads go down in some order, they do not lead back. -/
theorem acyclic_of_rank (rank : ColumnId → Nat)
    (h : ∀ entry ∈ definitions.entries, ∀ c ∈ entry.2.columns, rank c.id < rank entry.1) :
    definitions.Acyclic := by
  have hdown : ∀ i j, definitions.Reads i j → rank j < rank i := by
    rintro i _ ⟨e, he, c, hc, rfl⟩
    exact h _ (mem_entries_of_get? he) c hc
  have hchain {i j : ColumnId} (hij : Relation.TransGen definitions.Reads i j) :
      rank j < rank i := by
    induction hij with
    | single hread => exact hdown _ _ hread
    | tail _ hread ih => exact Nat.lt_trans (hdown _ _ hread) ih
  exact fun i hi => Nat.lt_irrefl _ (hchain hi)

namespace Acyclic

variable (h : definitions.Acyclic)
include h

/-- A chain of reads never meets an identity again, so that each step leaves one less to go to. -/
theorem within_length {left : List ColumnId} {i : ColumnId}
    (hleft : ∀ j, Relation.ReflTransGen definitions.Reads i j → (definitions.get? j).isSome →
      j ∈ left) :
    definitions.Within left.length i := by
  induction hn : left.length generalizing left i with
  | zero =>
    rw [List.length_eq_zero_iff.mp hn] at hleft
    refine Option.not_isSome_iff_eq_none.mp fun hi => ?_
    cases hleft i .refl hi
  | succ n ih =>
    intro j hread
    have hi : i ∈ left := hleft i .refl (by obtain ⟨e, he, -⟩ := hread; rw [he]; rfl)
    refine @ih (left.erase i) j (fun k hk hdef => ?_) (by rw [List.length_erase_of_mem hi, hn]; rfl)
    have hne : k ≠ i := by
      rintro rfl
      exact h k (.head' hread hk)
    exact (List.mem_erase_of_ne hne).mpr (hleft k (.head hread hk) hdef)

/-- Every chain of acyclic definitions ends in as many steps as there are definitions. -/
theorem within (i : ColumnId) : definitions.Within definitions.entries.length i := by
  rw [← definitions.entries.length_map Prod.fst]
  refine h.within_length fun j _ hj => ?_
  obtain ⟨e, he⟩ := Option.isSome_iff_exists.mp hj
  exact List.mem_map.mpr ⟨_, mem_entries_of_get? he, rfl⟩

end Acyclic

end IdMap

/-- In a transparent list no definition reads what is defined. -/
theorem Transparent.acyclic {exprs : List Expr} (h : Transparent exprs) :
    (definitionsOf exprs).Acyclic := by
  have hstop : ∀ i j, (definitionsOf exprs).Reads i j → (definitionsOf exprs).get? j = none := by
    rintro i _ ⟨x, hx, c, hc, rfl⟩
    obtain ⟨output, hmem, -⟩ := exists_alias_of_definition hx
    exact h.get?_read ⟨_, hmem, c, Expr.mem_columns_named.mpr hc, rfl⟩
  intro i hi
  obtain ⟨j, ⟨x, hx, -⟩, -⟩ := Relation.TransGen.head'_iff.mp hi
  obtain ⟨k, -, hread⟩ := Relation.TransGen.tail'_iff.mp hi
  rw [hstop k i hread] at hx
  cases hx

/-! ## Going through an expression -/

namespace IdMap

variable {definitions : IdMap Expr}

/-- What stands in the place of an expression before its parts are gone through. -/
def replacement (definitions : IdMap Expr) : Expr → Expr
  | .col c => definitions.definitionOf c
  | e => e

/-- Whether one expression is gone through on account of another: it is a part of what was put in
the other's place. -/
def VisitedFrom (definitions : IdMap Expr) (x e : Expr) : Prop :=
  x ∈ (definitions.replacement e).children

theorem replacement_eq_self {e : Expr} (h : e.column? = none) : definitions.replacement e = e := by
  cases e <;> first | rfl | cases h

/-- The parts of a replacement read what the definition reads. -/
theorem reads_of_mem_children {c d : Column} {x : Expr}
    (hx : x ∈ (definitions.definitionOf c).children) (hd : d ∈ x.columns) :
    definitions.Reads c.id d.id := by
  cases hget : definitions.get? c.id with
  | none =>
    rw [definitionOf_eq_col hget] at hx
    cases hx
  | some e =>
    rw [definitionOf, hget, Option.getD_some] at hx
    exact ⟨e, hget, d, Expr.mem_columns_of_mem_children hx hd, rfl⟩

/-- Going through an expression ends if it ends in every definition that the expression reads. -/
theorem acc_of_definitions {e : Expr}
    (h : ∀ c ∈ e.columns, ∀ x ∈ (definitions.definitionOf c).children,
      Acc definitions.VisitedFrom x) :
    Acc definitions.VisitedFrom e := by
  induction e using Expr.children_induction with
  | step e ih =>
    refine .intro e fun x hx => ?_
    cases he : e.column? with
    | some c =>
      obtain rfl := Expr.eq_col_of_column? he
      exact h c (by simp) x hx
    | none =>
      rw [VisitedFrom, replacement_eq_self he] at hx
      exact ih x hx fun c hc => h c (Expr.mem_columns_of_mem_children hx hc)

/-- Going through an expression ends if all chains from its columns do.  The induction is on the
bound of the chains, and inside it on the expression. -/
theorem acc_of_within {n : Nat} {e : Expr} (h : ∀ c ∈ e.columns, definitions.Within n c.id) :
    Acc definitions.VisitedFrom e := by
  induction n generalizing e with
  | zero =>
    refine acc_of_definitions fun c hc x hx => ?_
    rw [definitionOf_eq_col (h c hc)] at hx
    cases hx
  | succ n ih =>
    exact acc_of_definitions fun c hc x hx =>
      ih fun d hd => h c hc d.id (reads_of_mem_children hx hd)

/-- Where all chains end within a depth, one round more changes nothing. -/
theorem expand_succ {n : Nat} {e : Expr} (h : ∀ c ∈ e.columns, definitions.Within n c.id) :
    e.expand definitions.definitionOf (n + 1) = e.expand definitions.definitionOf n := by
  induction n generalizing e with
  | zero => exact Expr.expand_eq_self (fun c hc => definitionOf_eq_col (h c hc)) 1
  | succ n ih =>
    rw [Expr.expand, Expr.expand]
    exact Expr.bind_congr fun c hc => Expr.mapChildren_congr fun x hx =>
      ih fun d hd => h c hc d.id (reads_of_mem_children hx hd)

/-- Reading through acyclic definitions puts in a replacement and reads its parts through. -/
theorem Acyclic.readThrough_eq (h : definitions.Acyclic) (e : Expr) :
    readThrough definitions e =
      (definitions.replacement e).mapChildren (readThrough definitions) := by
  have hround (x : Expr) : x.expand definitions.definitionOf (definitions.entries.length + 1) =
      readThrough definitions x := expand_succ fun c _ => h.within c.id
  rw [← hround e]
  cases he : e.column? with
  | some c =>
    obtain rfl := Expr.eq_col_of_column? he
    rfl
  | none =>
    rw [Expr.expand, Expr.bind_eq_mapChildren he, replacement_eq_self he]
    exact Expr.mapChildren_congr fun x _ => hround x

end IdMap

/-! ## Places -/

/-- What stands at a place of an expression, given by the positions of the parts on the way. -/
def Expr.at? : Expr → List Nat → Option Expr
  | e, [] => some e
  | e, i :: place => e.children[i]?.bind fun x => x.at? place

/-- What reading through meets at a place, before it puts in a replacement there. -/
def IdMap.visited? (definitions : IdMap Expr) : Expr → List Nat → Option Expr
  | e, [] => some e
  | e, i :: place =>
    (definitions.replacement e).children[i]?.bind fun x => definitions.visited? x place

/-- What an expression reads are the columns at its places. -/
theorem Expr.mem_columns_iff_at? {e : Expr} {c : Column} :
    c ∈ e.columns ↔ ∃ place, e.at? place = some (col c) := by
  induction e using children_induction with
  | step e ih =>
    cases he : e.column? with
    | some d =>
      obtain rfl := eq_col_of_column? he
      constructor
      · intro hc
        obtain rfl : c = d := by simpa using hc
        exact ⟨[], rfl⟩
      · rintro ⟨_ | ⟨i, place⟩, hplace⟩
        · cases hplace
          simp
        · cases hplace
    | none =>
      rw [columns_eq he, List.mem_flatMap]
      constructor
      · rintro ⟨x, hx, hc⟩
        obtain ⟨place, hplace⟩ := (ih x hx).mp hc
        obtain ⟨i, hi⟩ := List.mem_iff_getElem?.mp hx
        exact ⟨i :: place, by rw [at?, hi, Option.bind_some, hplace]⟩
      · rintro ⟨_ | ⟨i, place⟩, hplace⟩
        · cases hplace
          cases he
        · obtain ⟨x, hx, hplace⟩ := Option.bind_eq_some_iff.mp hplace
          have hmem := List.mem_of_getElem? hx
          exact ⟨x, hmem, (ih x hmem).mpr ⟨place, hplace⟩⟩

namespace IdMap.Acyclic

variable {definitions : IdMap Expr} (h : definitions.Acyclic)
include h

/-- At each place stands what was met there, read through. -/
theorem at?_readThrough (e : Expr) (place : List Nat) :
    (readThrough definitions e).at? place =
      (definitions.visited? e place).map (readThrough definitions) := by
  induction place generalizing e with
  | nil => rfl
  | cons i place ih =>
    rw [Expr.at?, h.readThrough_eq, Expr.children_mapChildren, List.getElem?_map, visited?,
      Option.bind_map, Option.map_bind]
    exact congrArg _ (funext ih)

/-- A defined column is left only where the definition of a column is nothing but a column. -/
theorem bare_of_at?_readThrough {e : Expr} {place : List Nat} {d : Column}
    (hplace : (readThrough definitions e).at? place = some (.col d))
    (hd : definitions.contains d.id) :
    ∃ c, definitions.visited? e place = some (.col c) ∧
      definitions.get? c.id = some (.col d) := by
  rw [h.at?_readThrough, Option.map_eq_some_iff] at hplace
  obtain ⟨x, hx, hread⟩ := hplace
  -- only the replacement itself can be the column, since its parts stand below it
  have hput : definitions.replacement x = .col d := by
    apply Expr.eq_col_of_column?
    rw [← Expr.column?_mapChildren (readThrough definitions), ← h.readThrough_eq, hread]
    rfl
  cases hcol : x.column? with
  | none =>
    rw [replacement_eq_self hcol] at hput
    rw [hput] at hcol
    cases hcol
  | some c =>
    obtain rfl := Expr.eq_col_of_column? hcol
    refine ⟨c, hx, ?_⟩
    cases hget : definitions.get? c.id with
    | none =>
      obtain rfl : c = d := by simpa [replacement, definitionOf_eq_col hget] using hput
      rw [contains, hget] at hd
      cases hd
    | some y =>
      rw [replacement, definitionOf, hget, Option.getD_some] at hput
      rw [hput]

/-- Where each definition is more than a column, all that is left lies below the definitions. -/
theorem get?_of_mem_columns_readThrough (hbare : ∀ i d, definitions.get? i ≠ some (.col d))
    {e : Expr} {d : Column} (hd : d ∈ (readThrough definitions e).columns) :
    definitions.get? d.id = none := by
  obtain ⟨place, hplace⟩ := Expr.mem_columns_iff_at?.mp hd
  refine Option.not_isSome_iff_eq_none.mp fun hdef => ?_
  obtain ⟨c, -, hc⟩ := h.bare_of_at?_readThrough hplace hdef
  exact hbare c.id d hc

end IdMap.Acyclic

/-- **Reading through acyclic definitions ends.**  Going through an expression, and through the
parts of whatever is put in, comes to an end; reading through is that recursion; and every column
left that has a definition stands where a column was met whose definition is that column and nothing
else. -/
theorem readThrough_of_acyclic {definitions : IdMap Expr} (h : definitions.Acyclic) (e : Expr) :
    Acc definitions.VisitedFrom e ∧
      readThrough definitions e =
        (definitions.replacement e).mapChildren (readThrough definitions) ∧
      ∀ place d, (readThrough definitions e).at? place = some (.col d) → definitions.contains d.id →
        ∃ c, definitions.visited? e place = some (.col c) ∧
          definitions.get? c.id = some (.col d) :=
  ⟨IdMap.acc_of_within fun c _ => h.within c.id, h.readThrough_eq e,
    fun _ _ => h.bare_of_at?_readThrough⟩

/-- A chain of three definitions, the one in the middle nothing but a column. -/
theorem readThrough_of_acyclic_chain :
    let definitions : IdMap Expr := .ofList [(12, .call "upper" [.col (.plain 11 "b")]),
      (11, .col (.plain 10 "a")), (10, .call "lower" [.col (.plain 3 "k")])]
    let e : Expr := .and [.col (.plain 12 "c"), .isNull (.col (.plain 10 "a")) false]
    definitions.Acyclic ∧
      readThrough definitions e = .and [.call "upper" [.col (.plain 10 "a")],
        .isNull (.call "lower" [.col (.plain 3 "k")]) false] ∧
      (readThrough definitions e).at? [0, 0] = some (.col (.plain 10 "a")) ∧
      definitions.contains 10 ∧ definitions.visited? e [0, 0] = some (.col (.plain 11 "b")) ∧
      Acc definitions.VisitedFrom e ∧
      readThrough definitions e =
        (definitions.replacement e).mapChildren (readThrough definitions) ∧
      ∀ place d, (readThrough definitions e).at? place = some (.col d) → definitions.contains d.id →
        ∃ c, definitions.visited? e place = some (.col c) ∧
          definitions.get? c.id = some (.col d) := by
  intro definitions e
  have h : definitions.Acyclic := IdMap.acyclic_of_rank id (by decide)
  exact ⟨h, rfl, rfl, rfl, rfl, readThrough_of_acyclic h e⟩

end QueryPlan
