import QueryPlan.Proofs.Extremes
import QueryPlan.Proofs.NearestFloat

/-!
# How integers compare

Predicates compare two integers as binary64 numbers, extremes compare them as they are.  The two
orders agree on integers of up to 53 bits.  Beyond that a predicate takes different integers for
equal where they have the same nearest float, and it is only then that it errs
(`Value.compare_int_iff`): rounding never turns the order of two integers round, so that of the
integers that a predicate tells apart it always names the smaller.
-/

set_option autoImplicit false

namespace QueryPlan

open Float.Model

namespace Number

theorem natAbs_lt_of_fitsWord {i : Int} (h : fitsWord i = true) : i.natAbs < 2 ^ 128 := by
  rw [fitsWord, decide_eq_true_eq] at h
  omega

variable {a b : Int} (ha : fitsWord a = true) (hb : fitsWord b = true)
include ha hb

/-- As floats, integers compare as the nearest integers of 53 bits. -/
theorem compare_toFloat_int : (toFloat (int a)).toModel.unpack.compare
    (toFloat (int b)).toModel.unpack = some (Ord.compare (nearest a) (nearest b)) :=
  (stands_ofInt (natAbs_lt_of_fitsWord ha)).compare_eq (stands_ofInt (natAbs_lt_of_fitsWord hb))

theorem order_int : (int a).order (int b) = Ord.compare (nearest a) (nearest b) :=
  orderOfFloats_eq (compare_toFloat_int ha hb)

theorem beq_toFloat_int :
    ((int a).toFloat == (int b).toFloat) = decide (nearest a = nearest b) := by
  show ((toFloat (int a)).toModel.unpack.compare (toFloat (int b)).toModel.unpack == some .eq) = _
  rw [compare_toFloat_int ha hb, Bool.eq_iff_iff, beq_iff_eq, Option.some_inj, compare_eq_iff_eq,
    decide_eq_true_iff]

end Number

/-- Orderings that no operator tells apart are one. -/
theorem Comparison.eq_of_holds_eq {o o' : Ordering}
    (h : ∀ op : Comparison, op.holds o = op.holds o') : o = o' := by
  have hlt := h .lt
  have hgt := h .gt
  revert hlt hgt
  cases o <;> cases o' <;> decide

/-- Rounded integers compare as the integers do, unless different ones have become equal. -/
theorem compare_nearest_eq_iff {a b : Int} :
    Ord.compare (nearest a) (nearest b) = Ord.compare a b ↔ (nearest a = nearest b → a = b) := by
  rcases lt_trichotomy a b with hlt | rfl | hgt
  · rw [compare_lt_iff_lt.mpr hlt, compare_lt_iff_lt]
    have hle := nearest_mono hlt.le
    omega
  · simp
  · rw [compare_gt_iff_gt.mpr hgt, compare_gt_iff_gt]
    have hle := nearest_mono hgt.le
    omega

theorem Truth.ofBool_injective : Function.Injective Truth.ofBool := by
  intro p q
  cases p <;> cases q <;> decide

namespace Value

section Words

variable {a b : Int} (ha : Number.fitsWord a = true) (hb : Number.fitsWord b = true)
include ha hb

theorem compare_int (op : Comparison) : (int a).compare op (int b) =
    Truth.ofBool (op.holds (Ord.compare (nearest a) (nearest b))) := by
  rw [← Number.order_int ha hb]
  rfl

theorem equals_int : (int a).equals (int b) = decide (nearest a = nearest b) :=
  Number.beq_toFloat_int ha hb

end Words

/-- Among integers, one is found that has the same nearest float. -/
theorem among_ints {a : Int} (ha : Number.fitsWord a = true) {list : List Int}
    (hlist : ∀ c ∈ list, Number.fitsWord c = true) : (int a).among (list.map int) =
      Truth.ofBool (decide (∃ c ∈ list, nearest a = nearest c)) := by
  have hmatch : ((list.map int).any fun item => !item.isNull && (int a).equals item) =
      decide (∃ c ∈ list, nearest a = nearest c) := by
    rw [Bool.eq_iff_iff, List.any_map, List.any_eq_true, decide_eq_true_iff]
    refine exists_congr fun c => and_congr_right fun hc => ?_
    show (int a).equals (int c) = true ↔ _
    rw [equals_int ha (hlist c hc), decide_eq_true_iff]
  have hnull : (list.map int).any isNull = false := by
    rw [List.any_eq_false]
    intro v hv
    obtain ⟨c, -, rfl⟩ := List.mem_map.mp hv
    exact Bool.false_ne_true
  rw [among, hmatch, hnull]
  cases decide (∃ c ∈ list, nearest a = nearest c) <;> rfl

/-- **Where predicates on integers are exact.**  For two integers that fit a word, all comparisons
answer as the integers compare if and only if these are not different ones with one nearest float.
That two integers have one nearest float is also what equality and membership ask.  Extremes are
exact for all integers. -/
theorem compare_int_iff {a b : Int} (ha : Number.fitsWord a = true)
    (hb : Number.fitsWord b = true) :
    ((∀ op : Comparison, (int a).compare op (int b) = Truth.ofBool (op.holds (Ord.compare a b))) ↔
        (nearest a = nearest b → a = b)) ∧
      (int a).equals (int b) = decide (nearest a = nearest b) ∧
      (∀ list : List Int, (∀ c ∈ list, Number.fitsWord c = true) →
        (int a).among (list.map int) =
          Truth.ofBool (decide (∃ c ∈ list, nearest a = nearest c))) ∧
      (int a).extremeOrder? (int b) = some (Ord.compare a b) := by
  refine ⟨?_, equals_int ha hb, fun list hlist => among_ints ha hlist, extremeOrder?_int ha hb⟩
  rw [← compare_nearest_eq_iff]
  constructor
  · intro h
    refine Comparison.eq_of_holds_eq fun op => Truth.ofBool_injective ?_
    rw [← compare_int ha hb op, h op]
  · intro h op
    rw [compare_int ha hb op, h]

/-- The first two integers that predicates take for equal. -/
theorem compare_int_iff_neighbours :
    (Number.fitsWord (2 ^ 53) = true ∧ Number.fitsWord (2 ^ 53 + 1) = true) ∧
      ¬∀ op : Comparison, (int (2 ^ 53)).compare op (int (2 ^ 53 + 1)) =
        Truth.ofBool (op.holds (Ord.compare (2 ^ 53 : Int) (2 ^ 53 + 1))) := by
  have hfits : Number.fitsWord (2 ^ 53) = true ∧ Number.fitsWord (2 ^ 53 + 1) = true := by decide
  refine ⟨hfits, fun h => ?_⟩
  have hsame : nearest (2 ^ 53) = nearest (2 ^ 53 + 1) := by decide
  exact absurd ((compare_int_iff hfits.1 hfits.2).1.mp h hsame) (by decide)

/-- Integers of up to 53 bits are told apart by all predicates. -/
theorem compare_int_of_natAbs_le {a b : Int} (ha : a.natAbs ≤ 2 ^ 53) (hb : b.natAbs ≤ 2 ^ 53)
    (op : Comparison) :
    (int a).compare op (int b) = Truth.ofBool (op.holds (Ord.compare a b)) := by
  have hfits {i : Int} (hi : i.natAbs ≤ 2 ^ 53) : Number.fitsWord i = true := by
    rw [Number.fitsWord, decide_eq_true_eq]
    omega
  rw [compare_int (hfits ha) (hfits hb), nearest_of_natAbs_le ha, nearest_of_natAbs_le hb]

end Value

end QueryPlan
