import Mathlib.Data.List.Forall2
import QueryPlan.Proofs.Lists
import QueryPlan.Aggregate.Accumulator

/-!
# Extremes

The least and the greatest of some values, found by going through them and keeping the better one.
Among nulls, truth values, strings and integers that fit a signed word (`Value.isPlain`) the order
in which they come makes no difference, and neither does a repetition: what is found is the value
that is kept against all others (`fold_extreme_eq_ok_iff`), and there is only one such value
(`Best.unique`).  Therefore the extreme of a whole is that of the extremes of its parts
(`Best.flatten`).

Numbers of other kinds are left out on purpose.  Compared as binary64 numbers, different integers
may count as equal, and then the one that comes first is kept.
-/

set_option autoImplicit false

namespace QueryPlan

theorem Value.isNull_iff {v : Value} : v.isNull = true ↔ v = .null := by
  cases v <;> simp [Value.isNull]

/-- Whether extremes compare a value exactly, or pass over it. -/
def Value.isPlain : Value → Bool
  | .null | .bool _ | .str _ => true
  | .num n => n.word?.isSome
  | .arr _ | .obj _ => false

namespace Extreme

/-! ## Which of two values is kept -/

/-- A value is kept against a candidate. -/
def Keeps (x : Extreme) (kept candidate : Value) : Prop :=
  ∃ o, kept.extremeOrder? candidate = some o ∧ x.improves o = false

section Ordered

variable {α : Type} [Ord α] (x : Extreme) {a b c : α}

theorem improves_compare_self [Std.LawfulEqOrd α] : x.improves (compare a a) = false := by
  rw [Std.LawfulEqOrd.compare_eq_iff_eq.mpr rfl]
  cases x <;> rfl

theorem improves_compare_trans [Std.TransOrd α] (hab : x.improves (compare a b) = false)
    (hbc : x.improves (compare b c) = false) : x.improves (compare a c) = false := by
  cases x with
  | least =>
    simp only [improves, beq_eq_false_iff_ne, ← Ordering.isLE_iff_ne_gt] at *
    exact Std.TransOrd.isLE_trans hab hbc
  | greatest =>
    simp only [improves, beq_eq_false_iff_ne, ← Ordering.isGE_iff_ne_lt] at *
    exact Std.TransOrd.isGE_trans hab hbc

theorem improves_compare_antisymm [Std.OrientedOrd α] [Std.LawfulEqOrd α]
    (hab : x.improves (compare a b) = false) (hba : x.improves (compare b a) = false) : a = b := by
  rw [Std.OrientedOrd.eq_swap] at hba
  refine Std.LawfulEqOrd.compare_eq_iff_eq.mp ?_
  revert hab hba
  cases x <;> cases compare a b <;> simp [improves]

theorem improves_compare_total [Std.OrientedOrd α] (hab : x.improves (compare a b) = true) :
    x.improves (compare b a) = false := by
  rw [Std.OrientedOrd.eq_swap]
  revert hab
  cases x <;> cases compare a b <;> simp [improves]

end Ordered

end Extreme

/-- The kinds of plain values. -/
theorem Value.isPlain_cases {v : Value} (h : v.isPlain = true) (hv : v ≠ .null) :
    (∃ b, v = .bool b) ∨ (∃ i, v = .int i ∧ Number.fitsWord i = true) ∨ ∃ s, v = .str s := by
  cases v with
  | null => exact absurd rfl hv
  | bool b => exact .inl ⟨b, rfl⟩
  | str s => exact .inr (.inr ⟨s, rfl⟩)
  | num n =>
    cases n with
    | int i =>
      refine .inr (.inl ⟨i, rfl, ?_⟩)
      by_contra hi
      simp [isPlain, Number.word?, hi] at h
    | float f finite => cases h
  | arr items => cases h
  | obj members => cases h

theorem Value.extremeOrder?_int {i j : Int} (hi : Number.fitsWord i = true)
    (hj : Number.fitsWord j = true) :
    (Value.int i).extremeOrder? (.int j) = some (Ord.compare i j) := by
  simp [int, extremeOrder?, Number.word?, hi, hj]

namespace Extreme

/-- Values that are compared are of one kind. -/
theorem kinds {a b : Value} (ha : a.isPlain = true) (hb : b.isPlain = true)
    (h : (a.extremeOrder? b).isSome) :
    (∃ p q, a = .bool p ∧ b = .bool q) ∨
    (∃ i j, (a = .int i ∧ Number.fitsWord i = true) ∧ b = .int j ∧ Number.fitsWord j = true) ∨
    ∃ s t, a = .str s ∧ b = .str t := by
  have ha' : a ≠ .null := by rintro rfl; cases h
  have hb' : b ≠ .null := by rintro rfl; cases a <;> cases h
  obtain ⟨p, rfl⟩ | ⟨i, rfl, hi⟩ | ⟨s, rfl⟩ := Value.isPlain_cases ha ha' <;>
    obtain ⟨q, rfl⟩ | ⟨j, rfl, hj⟩ | ⟨t, rfl⟩ := Value.isPlain_cases hb hb' <;>
    first
      | exact .inl ⟨_, _, rfl, rfl⟩
      | exact .inr (.inl ⟨_, _, ⟨rfl, hi⟩, rfl, hj⟩)
      | exact .inr (.inr ⟨_, _, rfl, rfl⟩)
      | cases h

namespace Keeps

variable {x : Extreme} {a b c : Value}

theorem isSome (h : x.Keeps a b) : (a.extremeOrder? b).isSome := by
  obtain ⟨o, ho, -⟩ := h
  rw [ho, Option.isSome_some]

/-- What a comparison says is all that `Keeps` asks. -/
theorem iff_improves {o : Ordering} (h : a.extremeOrder? b = some o) :
    x.Keeps a b ↔ x.improves o = false := by
  rw [Keeps, h]
  simp

theorem bool {p q : Bool} : x.Keeps (.bool p) (.bool q) ↔ x.improves (compare p q) = false :=
  iff_improves rfl

theorem str {s t : String} : x.Keeps (.str s) (.str t) ↔ x.improves (compare s t) = false :=
  iff_improves rfl

theorem int {i j : Int} (hi : Number.fitsWord i = true) (hj : Number.fitsWord j = true) :
    x.Keeps (.int i) (.int j) ↔ x.improves (compare i j) = false :=
  iff_improves (Value.extremeOrder?_int hi hj)

theorem refl (x : Extreme) (ha : a.isPlain = true) (ha' : a ≠ .null) : x.Keeps a a := by
  obtain ⟨p, rfl⟩ | ⟨i, rfl, hi⟩ | ⟨s, rfl⟩ := Value.isPlain_cases ha ha'
  · exact bool.mpr (improves_compare_self x)
  · exact (int hi hi).mpr (improves_compare_self x)
  · exact str.mpr (improves_compare_self x)

theorem trans (ha : a.isPlain = true) (hb : b.isPlain = true) (hc : c.isPlain = true)
    (hab : x.Keeps a b) (hbc : x.Keeps b c) : x.Keeps a c := by
  obtain ⟨p, q, rfl, rfl⟩ | ⟨i, j, ⟨rfl, hi⟩, rfl, hj⟩ | ⟨s, t, rfl, rfl⟩ :=
      kinds ha hb hab.isSome <;>
    obtain ⟨q', r, hq, rfl⟩ | ⟨j', k, ⟨hq, hj'⟩, rfl, hk⟩ | ⟨t', u, hq, rfl⟩ :=
      kinds hb hc hbc.isSome <;>
    cases hq
  · exact bool.mpr (improves_compare_trans x (bool.mp hab) (bool.mp hbc))
  · exact (int hi hk).mpr (improves_compare_trans x ((int hi hj).mp hab) ((int hj hk).mp hbc))
  · exact str.mpr (improves_compare_trans x (str.mp hab) (str.mp hbc))

theorem antisymm (ha : a.isPlain = true) (hb : b.isPlain = true) (hab : x.Keeps a b)
    (hba : x.Keeps b a) : a = b := by
  obtain ⟨p, q, rfl, rfl⟩ | ⟨i, j, ⟨rfl, hi⟩, rfl, hj⟩ | ⟨s, t, rfl, rfl⟩ :=
    kinds ha hb hab.isSome
  · rw [improves_compare_antisymm x (bool.mp hab) (bool.mp hba)]
  · rw [improves_compare_antisymm x ((int hi hj).mp hab) ((int hj hi).mp hba)]
  · rw [improves_compare_antisymm x (str.mp hab) (str.mp hba)]

/-- Of two values that are compared, the one that is not kept gives way to one that is. -/
theorem of_improves (ha : a.isPlain = true) (hb : b.isPlain = true) {o : Ordering}
    (h : a.extremeOrder? b = some o) (ho : x.improves o = true) : x.Keeps b a := by
  obtain ⟨p, q, rfl, rfl⟩ | ⟨i, j, ⟨rfl, hi⟩, rfl, hj⟩ | ⟨s, t, rfl, rfl⟩ :=
    kinds ha hb (h ▸ rfl)
  · obtain rfl : compare p q = o := Option.some.inj h
    exact bool.mpr (improves_compare_total x ho)
  · rw [Value.extremeOrder?_int hi hj] at h
    obtain rfl : compare i j = o := Option.some.inj h
    exact (int hj hi).mpr (improves_compare_total x ho)
  · obtain rfl : compare s t = o := Option.some.inj h
    exact str.mpr (improves_compare_total x ho)

/-- Values that give way to one value can be compared. -/
theorem comparable (ha : a.isPlain = true) (hb : b.isPlain = true) (hc : c.isPlain = true)
    (hab : x.Keeps a b) (hac : x.Keeps a c) : (b.extremeOrder? c).isSome := by
  obtain ⟨p, q, rfl, rfl⟩ | ⟨i, j, ⟨rfl, hi⟩, rfl, hj⟩ | ⟨s, t, rfl, rfl⟩ :=
      kinds ha hb hab.isSome <;>
    obtain ⟨q', r, hq, rfl⟩ | ⟨j', k, ⟨hq, hj'⟩, rfl, hk⟩ | ⟨t', u, hq, rfl⟩ :=
      kinds ha hc hac.isSome <;>
    cases hq
  · rfl
  · rw [Value.extremeOrder?_int hj hk]; rfl
  · rfl

end Keeps

/-! ## The best of some values -/

/-- The best of some values: null if all are null, and otherwise one of them that is kept against
all others. -/
inductive Best (x : Extreme) (vs : List Value) : Value → Prop where
  | none (h : ∀ w ∈ vs, w = .null) : Best x vs .null
  | some {v : Value} (hv : v ≠ .null) (hmem : v ∈ vs) (h : ∀ w ∈ vs, w ≠ .null → x.Keeps v w) :
    Best x vs v

namespace Best

variable {x : Extreme} {vs ws : List Value} {v w : Value}

/-- The order of the values, and how often they occur, does not matter. -/
theorem congr (h : Best x vs v) (hmem : ∀ u, u ∈ vs ↔ u ∈ ws) : Best x ws v := by
  cases h with
  | none h => exact .none fun u hu => h u ((hmem u).mpr hu)
  | some hv hvs h => exact .some hv ((hmem v).mp hvs) fun u hu => h u ((hmem u).mpr hu)

theorem isPlain (hvs : ∀ u ∈ vs, u.isPlain = true) (h : Best x vs v) : v.isPlain = true := by
  cases h with
  | none h => rfl
  | some hv hmem h => exact hvs v hmem

theorem mem (h : Best x vs v) (hv : v ≠ .null) : v ∈ vs := by
  cases h with
  | none => exact absurd rfl hv
  | some _ hmem _ => exact hmem

theorem unique (hvs : ∀ u ∈ vs, u.isPlain = true) (hv : Best x vs v) (hw : Best x vs w) :
    v = w := by
  cases hv with
  | none hall =>
    cases hw with
    | none => rfl
    | some hw hmem _ => exact absurd (hall w hmem) hw
  | some hv hvmem hv' =>
    cases hw with
    | none hall => exact absurd (hall v hvmem) hv
    | some hw hwmem hw' =>
      exact (hv' w hwmem hw).antisymm (hvs v hvmem) (hvs w hwmem) (hw' v hvmem hv)

theorem swap_iff {a b : Value} : Best x (a :: b :: vs) v ↔ Best x (b :: a :: vs) v := by
  have hswap (a b u : Value) : u ∈ a :: b :: vs ↔ u ∈ b :: a :: vs := by
    simp only [List.mem_cons, or_left_comm]
  exact ⟨fun h => h.congr (hswap a b), fun h => h.congr (hswap b a)⟩

/-- Where there is a best of some values, any two of them can be compared. -/
theorem comparable (hvs : ∀ u ∈ vs, u.isPlain = true) (h : Best x vs v) {a b : Value}
    (ha : a ∈ vs) (ha' : a ≠ .null) (hb : b ∈ vs) (hb' : b ≠ .null) :
    (a.extremeOrder? b).isSome := by
  cases h with
  | none hnull => exact absurd (hnull a ha) ha'
  | some _ hmem hkeep =>
    exact (hkeep a ha ha').comparable (hvs v hmem) (hvs a ha) (hvs b hb) (hkeep b hb hb')

/-- Two values of which one is kept against the other may be exchanged for that one. -/
theorem cons_cons_iff (hvs : ∀ u ∈ vs, u.isPlain = true) {a b : Value} (ha : a.isPlain = true)
    (hb : b.isPlain = true) (ha' : a ≠ .null) (hb' : b ≠ .null) (hab : x.Keeps a b) :
    Best x (a :: b :: vs) v ↔ Best x (a :: vs) v := by
  constructor
  · intro h
    cases h with
    | none h => exact absurd (h a List.mem_cons_self) ha'
    | some hv hmem h =>
      have hkeep : ∀ w ∈ a :: vs, w ≠ .null → x.Keeps v w := fun w hw =>
        h w ((List.mem_cons.mp hw).elim (· ▸ List.mem_cons_self) fun hw =>
          List.mem_cons_of_mem _ (List.mem_cons_of_mem _ hw))
      rcases List.mem_cons.mp hmem with rfl | hmem
      · exact .some hv List.mem_cons_self hkeep
      · rcases List.mem_cons.mp hmem with rfl | hmem
        · obtain rfl := hab.antisymm ha hb (hkeep a List.mem_cons_self ha')
          exact .some hv List.mem_cons_self hkeep
        · exact .some hv (List.mem_cons_of_mem _ hmem) hkeep
  · intro h
    cases h with
    | none h => exact absurd (h a List.mem_cons_self) ha'
    | some hv hmem h =>
      have hplain : v.isPlain = true := (List.mem_cons.mp hmem).elim (· ▸ ha) (hvs v)
      refine .some hv ?_ fun w hw hw' => ?_
      · exact (List.mem_cons.mp hmem).elim (· ▸ List.mem_cons_self) fun hmem =>
          List.mem_cons_of_mem _ (List.mem_cons_of_mem _ hmem)
      · rcases List.mem_cons.mp hw with rfl | hw
        · exact h w List.mem_cons_self hw'
        · rcases List.mem_cons.mp hw with rfl | hw
          · exact (h a List.mem_cons_self ha').trans hplain ha hb hab
          · exact h w (List.mem_cons_of_mem _ hw) hw'

/-- Nulls do not matter. -/
theorem cons_null_iff : Best x (.null :: vs) v ↔ Best x vs v := by
  constructor
  · intro h
    cases h with
    | none h => exact .none fun w hw => h w (List.mem_cons_of_mem _ hw)
    | some hv hmem h =>
      exact .some hv ((List.mem_cons.mp hmem).resolve_left hv) fun w hw =>
        h w (List.mem_cons_of_mem _ hw)
  · intro h
    cases h with
    | none h => exact .none (List.forall_mem_cons.mpr ⟨rfl, h⟩)
    | some hv hmem h =>
      exact .some hv (List.mem_cons_of_mem _ hmem)
        (List.forall_mem_cons.mpr ⟨fun hnull => absurd rfl hnull, h⟩)

/-- With one more value there still is a best, if it can be compared with the best so far. -/
theorem exists_cons (hws : ∀ u ∈ ws, u.isPlain = true) {a : Value} (ha : a.isPlain = true)
    (ha' : a ≠ .null) (hw : Best x ws w) (hord : w ≠ .null → (w.extremeOrder? a).isSome) :
    ∃ v, Best x (a :: ws) v := by
  cases hw with
  | none hnull =>
    refine ⟨a, .some ha' List.mem_cons_self fun u hu hu' => ?_⟩
    rcases List.mem_cons.mp hu with rfl | hu
    · exact Keeps.refl x ha ha'
    · exact absurd (hnull u hu) hu'
  | some hw hmem hkeep =>
    have hplain := hws w hmem
    obtain ⟨o, ho⟩ := Option.isSome_iff_exists.mp (hord hw)
    cases himp : x.improves o with
    | false =>
      refine ⟨w, .some hw (List.mem_cons_of_mem _ hmem) ?_⟩
      exact List.forall_mem_cons.mpr ⟨fun _ => ⟨o, ho, himp⟩, hkeep⟩
    | true =>
      have haw : x.Keeps a w := .of_improves hplain ha ho himp
      refine ⟨a, .some ha' List.mem_cons_self (List.forall_mem_cons.mpr
        ⟨fun _ => .refl x ha ha', fun u hu hu' => ?_⟩)⟩
      exact haw.trans ha hplain (hws u hu) (hkeep u hu hu')

/-- Where there is a best of some values, there is one of some of them. -/
theorem exists_of_subset (hvs : ∀ u ∈ vs, u.isPlain = true) (h : Best x vs v)
    (hsub : ∀ w ∈ ws, w ≠ .null → w ∈ vs) : ∃ w, Best x ws w := by
  induction ws with
  | nil => exact ⟨.null, .none fun _ hw => nomatch hw⟩
  | cons a ws ih =>
    obtain ⟨w, hw⟩ := ih fun u hu => hsub u (List.mem_cons_of_mem _ hu)
    by_cases ha : a = .null
    · exact ⟨w, ha ▸ cons_null_iff.mpr hw⟩
    · have hmem {u : Value} (hu : u ∈ a :: ws) (hu' : u ≠ .null) : u ∈ vs := hsub u hu hu'
      have hplain : ∀ u ∈ ws, u.isPlain = true := fun u hu => by
        by_cases hu' : u = .null
        · exact hu' ▸ rfl
        · exact hvs u (hmem (List.mem_cons_of_mem _ hu) hu')
      have hamem := hmem List.mem_cons_self ha
      refine hw.exists_cons hplain (hvs a hamem) ha fun hw' => ?_
      exact h.comparable hvs (hmem (List.mem_cons_of_mem _ (hw.mem hw')) hw') hw' hamem ha

/-- **The best of a whole is the best of those of its parts.** -/
theorem flatten {parts : List (List Value)} (hparts : ∀ u ∈ parts.flatten, u.isPlain = true)
    (hvs : List.Forall₂ (Best x) parts vs) (hv : Best x vs v) : Best x parts.flatten v := by
  cases hv with
  | none hnull =>
    refine .none fun u hu => ?_
    obtain ⟨part, hpart, hu⟩ := List.mem_flatten.mp hu
    obtain ⟨w, hw, hbest⟩ := forall₂_exists_of_mem hvs hpart
    obtain rfl := hnull w hw
    cases hbest with
    | none h => exact h u hu
    | some h => exact absurd rfl h
  | some hv hmem hkeep =>
    obtain ⟨part, hpart, hbest⟩ := exists_of_forall₂_mem hvs hmem
    have hvmem : v ∈ parts.flatten := List.mem_flatten.mpr ⟨part, hpart, hbest.mem hv⟩
    refine .some hv hvmem fun u hu hu' => ?_
    obtain ⟨part', hpart', hupart⟩ := List.mem_flatten.mp hu
    obtain ⟨w, hw, hbest'⟩ := forall₂_exists_of_mem hvs hpart'
    cases hbest' with
    | none h => exact absurd (h u hupart) hu'
    | some hw' hwpart h =>
      exact (hkeep w hw hw').trans (hparts v hvmem)
        (hparts w (List.mem_flatten.mpr ⟨part', hpart', hwpart⟩)) (hparts u hu) (h u hupart hu')

/-- Where there is a best of a whole, its parts have one each, and that is the best of those. -/
theorem of_flatten {parts : List (List Value)} (hvs : ∀ u ∈ vs, u.isPlain = true)
    (h : Best x vs v) (hmem : ∀ u, u ∈ parts.flatten ↔ u ∈ vs) :
    ∃ ws, List.Forall₂ (Best x) parts ws ∧ (∀ w ∈ ws, w.isPlain = true) ∧ Best x ws v := by
  have hsub : ∀ part ∈ parts, ∀ u ∈ part, u ∈ vs := fun part hpart u hu =>
    (hmem u).mp (List.mem_flatten.mpr ⟨part, hpart, hu⟩)
  obtain ⟨ws, hws⟩ := exists_forall₂ fun part hpart =>
    h.exists_of_subset hvs fun u hu _ => hsub part hpart u hu
  have hplain : ∀ w ∈ ws, w.isPlain = true := by
    intro w hw
    obtain ⟨part, hpart, hbest⟩ := exists_of_forall₂_mem hws hw
    exact hbest.isPlain fun u hu => hvs u (hsub part hpart u hu)
  -- the best of the parts are values of the whole
  obtain ⟨w, hw⟩ : ∃ w, Best x ws w := by
    refine h.exists_of_subset hvs fun u hu hnull => ?_
    obtain ⟨part, hpart, hbest⟩ := exists_of_forall₂_mem hws hu
    exact hsub part hpart u (hbest.mem hnull)
  have hwhole := (hw.flatten (fun u hu => hvs u ((hmem u).mp hu)) hws).congr hmem
  exact ⟨ws, hws, hplain, hwhole.unique hvs h ▸ hw⟩

end Best

end Extreme

/-! ## Finding it -/

theorem Accumulator.updateOne_null (a : Accumulator) : a.updateOne .null = .ok a := if_pos rfl

namespace Extreme

/-- What is kept after some values. -/
theorem foldlM_updateOne_some {x : Extreme} {vs : List Value} (hvs : ∀ u ∈ vs, u.isPlain = true)
    {kept : Value} (hplain : kept.isPlain = true) (hkept : kept ≠ .null) {s : Accumulator} :
    vs.foldlM Accumulator.updateOne (.extreme x (some kept)) = .ok s ↔
      ∃ v, Best x (kept :: vs) v ∧ s = .extreme x (some v) := by
  induction vs generalizing kept with
  | nil =>
    constructor
    · intro h
      obtain rfl := Except.ok.inj h
      refine ⟨kept, .some hkept List.mem_cons_self fun w hw hw' => ?_, rfl⟩
      obtain rfl := List.mem_singleton.mp hw
      exact Keeps.refl x hplain hkept
    · rintro ⟨v, h, rfl⟩
      cases h with
      | none h => exact absurd (h kept List.mem_cons_self) hkept
      | some hv hmem _ => rw [List.mem_singleton.mp hmem]; rfl
  | cons w vs ih =>
    have hw := hvs w List.mem_cons_self
    replace hvs := fun u hu => hvs u (List.mem_cons_of_mem _ hu)
    rw [List.foldlM_cons]
    by_cases hnull : w = .null
    · subst hnull
      rw [Accumulator.updateOne_null]
      refine (ih hvs hplain hkept).trans (exists_congr fun v => and_congr_left fun _ => ?_)
      rw [Best.swap_iff, Best.cons_null_iff]
    · rw [Accumulator.updateOne, if_neg (Value.isNull_iff.not.mpr hnull)]
      cases hord : kept.extremeOrder? w with
      | none =>
        simp only [better, hord]
        constructor
        · intro h; cases h
        · rintro ⟨v, h, -⟩
          have hall : ∀ u ∈ kept :: w :: vs, u.isPlain = true :=
            List.forall_mem_cons.mpr ⟨hplain, List.forall_mem_cons.mpr ⟨hw, hvs⟩⟩
          have hsome := h.comparable hall List.mem_cons_self hkept
            (List.mem_cons_of_mem _ List.mem_cons_self) hnull
          rw [hord] at hsome
          cases hsome
      | some o =>
        simp only [better, hord]
        cases himp : x.improves o with
        | false =>
          refine (ih hvs hplain hkept).trans (exists_congr fun v => and_congr_left fun _ => ?_)
          exact (Best.cons_cons_iff hvs hplain hw hkept hnull ⟨o, hord, himp⟩).symm
        | true =>
          refine (ih hvs hw hnull).trans (exists_congr fun v => and_congr_left fun _ => ?_)
          rw [Best.swap_iff]
          exact (Best.cons_cons_iff hvs hw hplain hnull hkept
            (.of_improves hplain hw hord himp)).symm

/-- **Going through plain values finds the best of them**, or fails if there is none. -/
theorem foldlM_updateOne_none {x : Extreme} {vs : List Value} (hvs : ∀ u ∈ vs, u.isPlain = true)
    {s : Accumulator} : vs.foldlM Accumulator.updateOne (.extreme x none) = .ok s ↔
      ∃ v, Best x vs v ∧ s = .extreme x (if v.isNull then none else some v) := by
  induction vs with
  | nil =>
    constructor
    · intro h
      exact ⟨.null, Best.none fun _ hw => (nomatch hw), (Except.ok.inj h).symm⟩
    · rintro ⟨v, h, rfl⟩
      cases h with
      | none => rfl
      | some _ hmem => cases hmem
  | cons w vs ih =>
    have hw := hvs w List.mem_cons_self
    replace hvs := fun u hu => hvs u (List.mem_cons_of_mem _ hu)
    rw [List.foldlM_cons]
    by_cases hnull : w = .null
    · subst hnull
      rw [Accumulator.updateOne_null]
      exact (ih hvs).trans (exists_congr fun v => and_congr_left fun _ => Best.cons_null_iff.symm)
    · rw [Accumulator.updateOne, if_neg (Value.isNull_iff.not.mpr hnull)]
      refine (foldlM_updateOne_some hvs hw hnull).trans (exists_congr fun v => ?_)
      refine and_congr_right fun h => ?_
      have hv : v.isNull = false := by
        rw [← Bool.not_eq_true, Value.isNull_iff]
        cases h with
        | none h => exact absurd (h w List.mem_cons_self) hnull
        | some hv => exact hv
      rw [hv]
      rfl

end Extreme

end QueryPlan
