import Mathlib.Algebra.Order.Ring.Int
import Mathlib.Order.Compare
import QueryPlan.Proofs.FloatOrder

/-!
# The rank of a number

Floats that are numbers compare as lists of integers do: by sign, then by exponent, then by
mantissa, and below zero the other way round (`Unpacked.compare_eq_compare_rank`).  The list is the
rank of the float.  So the comparison of numbers is a total preorder: it is the order of their ranks
(`Number.order_eq_compare_rank`), and numbers of one rank, such as the two zeros, count as equal.
-/

set_option autoImplicit false

namespace QueryPlan

open Float.Model

namespace Unpacked

/-- The rank of a float: its place among the infinities, zero and the numbers of either sign, and
among the numbers of its sign exponent and mantissa. -/
def rank : UnpackedFloat → List Int
  | .infinity .negative => [-2]
  | .finite .negative m e _ => [-1, -e, -m]
  | .notANumber | .zero _ => [0]
  | .finite .positive m e _ => [1, e, m]
  | .infinity .positive => [2]

section Lists

variable (e e' : Int) (m m' : Nat)

theorem compare_lists (s x y : Int) : compare [s, e, x] [s, e', y] =
    (compare e e').then (compare x y) := by
  rw [List.compare_cons_cons, List.compare_cons_cons, List.compare_cons_cons,
    Std.LawfulEqOrd.compare_eq_iff_eq.mpr rfl, List.compare_nil_nil, Ordering.then_eq]
  rfl

theorem compare_neg : compare (-e) (-e') = (compare e e').swap := by
  have hanti : StrictAnti fun i : Int => -i := fun _ _ h => neg_lt_neg h
  rw [Int.compare_swap, ← cmp_eq_compare, ← cmp_eq_compare]
  exact hanti.cmp_map_eq e e'

theorem compare_cast : compare (m : Int) m' = compare m m' := by
  rw [← cmp_eq_compare, ← cmp_eq_compare, Nat.strictMono_cast.cmp_map_eq]

theorem compare_positive : compare [1, e, (m : Int)] [1, e', (m' : Int)] =
    (compare e e').then (compare m m') := by
  rw [compare_lists, compare_cast]

theorem compare_negative : compare [-1, -e, -(m : Int)] [-1, -e', -(m' : Int)] =
    ((compare e e').then (compare m m')).swap := by
  rw [compare_lists, compare_neg, compare_neg, compare_cast, Ordering.swap_then]

end Lists

theorem compare_eq_compare_rank {x y : UnpackedFloat} (hx : x ≠ .notANumber)
    (hy : y ≠ .notANumber) : x.compare y = some (compare (rank x) (rank y)) := by
  cases x with
  | notANumber => exact absurd rfl hx
  | infinity s =>
    cases y with
    | notANumber => exact absurd rfl hy
    | infinity t => cases s <;> cases t <;> rfl
    | zero t => cases s <;> rfl
    | finite t m' e' _ => cases s <;> cases t <;> rfl
  | zero s =>
    cases y with
    | notANumber => exact absurd rfl hy
    | infinity t => cases t <;> rfl
    | zero t => rfl
    | finite t m' e' _ => cases t <;> rfl
  | finite s m e _ =>
    cases y with
    | notANumber => exact absurd rfl hy
    | infinity t => cases s <;> cases t <;> rfl
    | zero t => cases s <;> rfl
    | finite t m' e' _ =>
      cases s with
      | positive =>
        cases t with
        | positive => exact congrArg some (compare_positive e e' m m').symm
        | negative => rfl
      | negative =>
        cases t with
        | positive => rfl
        | negative => exact congrArg some (compare_negative e e' m m').symm

end Unpacked

namespace Number

/-- The rank of a number as a float. -/
def rank (n : Number) : List Int := Unpacked.rank n.toFloat.toModel.unpack

theorem unpack_toFloat_ne (n : Number) : n.toFloat.toModel.unpack ≠ .notANumber := fun h =>
  Bool.false_ne_true (n.isNaN_toFloat.symm.trans (isNaN_ofModel.mpr h))

theorem order_eq_compare_rank (a b : Number) : a.order b = compare a.rank b.rank :=
  orderOfFloats_eq (Unpacked.compare_eq_compare_rank a.unpack_toFloat_ne b.unpack_toFloat_ne)

end Number

end QueryPlan
