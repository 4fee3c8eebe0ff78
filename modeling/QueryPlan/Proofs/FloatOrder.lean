import Mathlib.Logic.Basic
import QueryPlan.Number

/-!
# The order of binary64 numbers

Two floats that are numbers compare the other way round when they change places
(`Number.order_swap`), and every number in a cell becomes a float that is a number
(`Number.isNaN_toFloat`).  Both are read off the logical model of `Float`: a float unpacks to a
sign, a mantissa and an exponent, and what is packed without being the one value that is no number
does not unpack to it either.
-/

set_option autoImplicit false

namespace QueryPlan

open Float.Model

/-! ## What packing keeps -/

namespace Unpacked

/-- What bits unpack to, as exponent and mantissa tell. -/
theorem unpack_cases (spec : Format) (b : BitVec spec.numBits) :
    (UnpackedFloat.unpackExponent b = -1#_ ∧ UnpackedFloat.unpackMantissa b ≠ 0#_ ∧
      UnpackedFloat.unpack spec b = .notANumber) ∨
    (UnpackedFloat.unpackExponent b = -1#_ ∧ ∃ s, UnpackedFloat.unpack spec b = .infinity s) ∨
    (UnpackedFloat.unpackExponent b = 0#_ ∧ UnpackedFloat.unpackMantissa b = 0#_ ∧
      ∃ s, UnpackedFloat.unpack spec b = .zero s) ∨
    ((UnpackedFloat.unpackExponent b = 0#_ → UnpackedFloat.unpackMantissa b ≠ 0#_) ∧
      ∃ s m e hm, UnpackedFloat.unpack spec b = .finite s m e hm) := by
  delta UnpackedFloat.unpack
  dsimp only
  by_cases hexp : UnpackedFloat.unpackExponent b = -1#_
  · by_cases hman : UnpackedFloat.unpackMantissa b = 0#_
    · rw [if_pos hexp, if_pos hman]
      exact .inr (.inl ⟨hexp, _, rfl⟩)
    · rw [if_pos hexp, if_neg hman]
      exact .inl ⟨hexp, hman, rfl⟩
  · by_cases hzero : UnpackedFloat.unpackExponent b = 0#_
    · by_cases hman : UnpackedFloat.unpackMantissa b = 0#_
      · rw [if_neg hexp, if_pos hzero, dif_pos hman]
        exact .inr (.inr (.inl ⟨hzero, hman, _, rfl⟩))
      · rw [if_neg hexp, if_pos hzero, dif_neg hman]
        exact .inr (.inr (.inr ⟨fun _ => hman, _, _, _, _, rfl⟩))
    · rw [if_neg hexp, if_neg hzero]
      exact .inr (.inr (.inr ⟨fun h => absurd h hzero, _, _, _, _, rfl⟩))

/-- Packing anything but the value that is no number never gives that value. -/
theorem unpack_pack_ne {spec : Format} {x : UnpackedFloat} (h : x ≠ .notANumber) :
    UnpackedFloat.unpack spec (UnpackedFloat.pack spec x) ≠ .notANumber := by
  have hmantissa : UnpackedFloat.unpackExponent (UnpackedFloat.pack spec x) = -1#_ →
      UnpackedFloat.unpackMantissa (UnpackedFloat.pack spec x) = 0#_ := by
    fun_cases UnpackedFloat.pack spec x with
    | case1 => exact absurd rfl h
    | case2 s => simp [UnpackedFloat.packedInfinity]
    | case3 s => simp [UnpackedFloat.packedZero]
    | case4 s m e hm biased hb => simp [UnpackedFloat.packedInfinity]
    | case5 s m e hm bits biased hb _ =>
      intro hexp
      rw [UnpackedFloat.unpackExponent_packComponents, BitVec.neg_one_eq_allOnes,
        ← BitVec.toNat_inj, BitVec.toNat_ofNat, BitVec.toNat_allOnes,
        Nat.mod_eq_of_lt (by omega)] at hexp
      omega
    | case6 s m e hm bits biased hb _ =>
      intro hexp
      simp [Nat.pos_iff_ne_zero.mp spec.he] at hexp
  rcases unpack_cases spec (UnpackedFloat.pack spec x) with
    ⟨hexp, hman, -⟩ | ⟨-, s, h⟩ | ⟨-, -, s, h⟩ | ⟨-, s, m, e, hm, h⟩
  · exact absurd (hmantissa hexp) hman
  all_goals
    rw [h]
    intro hnan
    cases hnan

theorem roundWithAccuracy_ne {spec : Format} (s : UnpackedFloat.Sign) (m : Nat) (e : Int)
    (a : UnpackedFloat.Accuracy) :
    UnpackedFloat.roundWithAccuracy spec s m e a ≠ .notANumber := by
  intro h
  rw [UnpackedFloat.roundWithAccuracy] at h
  rcases dite_eq_iff.mp h with ⟨_, h⟩ | ⟨_, h⟩ <;> cases h

theorem normalize_ne {spec : Format} (m e : Int) (s : UnpackedFloat.Sign) :
    UnpackedFloat.normalize spec m e s ≠ .notANumber := by
  simp only [UnpackedFloat.normalize]
  split
  · exact roundWithAccuracy_ne _ _ _ _
  · exact fun h => by cases h
  · exact roundWithAccuracy_ne _ _ _ _

/-- A product with a finite number is a number. -/
theorem mul_finite_ne {spec : Format} {x : UnpackedFloat} (h : x ≠ .notANumber)
    {s : UnpackedFloat.Sign} {m : Nat} {e : Int} {hm : 0 < m} :
    UnpackedFloat.mul spec x (.finite s m e hm) ≠ .notANumber := by
  cases x with
  | notANumber => exact absurd rfl h
  | infinity _ => exact fun h => by cases h
  | zero _ => exact fun h => by cases h
  | finite _ _ _ _ => exact roundWithAccuracy_ne _ _ _ _

theorem ofScientific_ne {spec : Format} (m : Nat) (e : Int) :
    UnpackedFloat.ofScientific spec m e ≠ .notANumber := by
  intro h
  rw [UnpackedFloat.ofScientific] at h
  rcases dite_eq_iff.mp h with ⟨_, h⟩ | ⟨_, h⟩
  · cases h
  rcases ite_eq_iff.mp h with ⟨_, h⟩ | ⟨_, h⟩
  · cases h
  rcases ite_eq_iff.mp h with ⟨_, h⟩ | ⟨_, h⟩
  · cases h
  rcases ite_eq_iff.mp h with ⟨_, h⟩ | ⟨_, h⟩
  · exact roundWithAccuracy_ne _ _ _ _ h
  · exact roundWithAccuracy_ne _ _ _ _ h

theorem neg_ne {x : UnpackedFloat} (h : x ≠ .notANumber) : x.neg ≠ .notANumber := by
  cases x with
  | notANumber => exact absurd rfl h
  | _ => exact fun h => by cases h

/-- Exchanged operands compare the other way round. -/
theorem compare_swap (x y : UnpackedFloat) :
    y.compare x = (x.compare y).map Ordering.swap := by
  have hsign (s t : UnpackedFloat.Sign) : compare t s = (compare s t).swap := by
    cases s <;> cases t <;> rfl
  have hsize (e e' : Int) (m m' : Nat) : (compare e' e).then (compare m' m) =
      ((compare e e').then (compare m m')).swap := by
    rw [Ordering.swap_then, ← Int.compare_swap e e', ← Nat.compare_swap m m']
  cases x with
  | notANumber => cases y <;> rfl
  | infinity s =>
    cases y with
    | infinity t => exact congrArg some (hsign s t)
    | _ => cases s <;> rfl
  | zero s =>
    cases y with
    | infinity t => cases t <;> rfl
    | finite t _ _ _ => cases t <;> rfl
    | _ => rfl
  | finite s m e _ =>
    cases y with
    | notANumber => rfl
    | infinity t => cases t <;> cases s <;> rfl
    | zero _ => cases s <;> rfl
    | finite t m' e' _ =>
      cases s <;> cases t <;> first | rfl | exact congrArg some (hsize ..) |
        exact congrArg (fun o => some o.swap) (hsize ..)

/-- Numbers compare in one way or another. -/
theorem isSome_compare {x y : UnpackedFloat} (hx : x ≠ .notANumber) (hy : y ≠ .notANumber) :
    (x.compare y).isSome := by
  cases x with
  | notANumber => exact absurd rfl hx
  | infinity s =>
    cases y with
    | notANumber => exact absurd rfl hy
    | _ => cases s <;> rfl
  | zero s =>
    cases y with
    | notANumber => exact absurd rfl hy
    | infinity t => cases t <;> rfl
    | zero _ => rfl
    | finite t _ _ _ => cases t <;> rfl
  | finite s m e _ =>
    cases y with
    | notANumber => exact absurd rfl hy
    | infinity t => cases s <;> cases t <;> rfl
    | zero _ => cases s <;> rfl
    | finite t _ _ _ => cases s <;> cases t <;> rfl

end Unpacked

/-! ## Numbers in cells -/

theorem isNaN_ofModel {x : Float.Model} : (Float.ofModel x).isNaN = true ↔
    x.unpack = .notANumber := by
  show x.unpack.isNaN = true ↔ _
  cases x.unpack with
  | notANumber => exact ⟨fun _ => rfl, fun _ => rfl⟩
  | _ => constructor <;> intro h <;> cases h

theorem isNaN_pack {x : UnpackedFloat} (h : x ≠ .notANumber) :
    (Float.ofModel (.pack x)).isNaN = false := by
  rw [← Bool.not_eq_true, isNaN_ofModel]
  exact Unpacked.unpack_pack_ne h

theorem isNaN_neg {x : Float} (h : x.isNaN = false) : x.neg.isNaN = false := by
  refine isNaN_pack (Unpacked.neg_ne fun hx => ?_)
  rw [← Bool.not_eq_true] at h
  exact h (isNaN_ofModel.mpr hx)

/-- What is a number is finite or infinite. -/
theorem isFinite_eq_not_isInf {x : Float} (h : x.isNaN = false) : x.isFinite = !x.isInf := by
  have hx : x.toModel.unpack ≠ .notANumber := fun hx => by
    rw [isNaN_ofModel.mpr hx] at h
    cases h
  show x.toModel.unpack.isFinite = !x.toModel.unpack.isInf
  revert hx
  cases x.toModel.unpack with
  | notANumber => exact fun hx => absurd rfl hx
  | _ => exact fun _ => rfl

/-- A natural number has a nearest float, be it infinite. -/
theorem isNaN_ofNat (n : Nat) : (Float.ofNat n).isNaN = false := by
  show (Float.ofScientific n false 0).isNaN = false
  rw [Float.ofScientific]
  split
  · refine isNaN_pack ?_
    have hone : ∃ s m e hm, (Float.ofBits 0x3FF0000000000000).toModel.unpack =
        .finite s m e hm := ⟨.positive, 2 ^ 52, -52, by decide, rfl⟩
    obtain ⟨s, m, e, hm, h⟩ := hone
    show UnpackedFloat.mul _ _ (Float.ofBits 0x3FF0000000000000).toModel.unpack ≠ _
    rw [h]
    exact Unpacked.mul_finite_ne (Unpacked.unpack_pack_ne (Unpacked.normalize_ne _ _ _))
  · exact isNaN_pack (Unpacked.ofScientific_ne _ _)

namespace Number

theorem isNaN_toFloat (n : Number) : n.toFloat.isNaN = false := by
  cases n with
  | int i =>
    cases i with
    | ofNat n => exact isNaN_ofNat n
    | negSucc n => exact isNaN_neg (isNaN_ofNat _)
  | float f finite =>
    show f.toModel.unpack.isNaN = false
    have hf : f.toModel.unpack.isFinite = true := finite
    revert hf
    cases f.toModel.unpack with
    | notANumber => exact fun h => by cases h
    | _ => exact fun _ => rfl

theorem orderOfFloats_eq {x y : Float} {o : Ordering}
    (h : x.toModel.unpack.compare y.toModel.unpack = some o) : orderOfFloats x y = o := by
  have hlt : (x < y) ↔ o = .lt := by
    show decide (x.toModel.unpack.lt y.toModel.unpack = true) = true ↔ _
    rw [UnpackedFloat.lt, h]
    cases o <;> decide
  have hbeq : (x == y) = (o == .eq) := by
    show (x.toModel.unpack.compare y.toModel.unpack == some .eq) = _
    rw [h]
    cases o <;> rfl
  rw [orderOfFloats, hbeq]
  cases o <;> simp [hlt]

theorem orderOfFloats_swap {x y : Float} (hx : x.isNaN = false) (hy : y.isNaN = false) :
    orderOfFloats y x = (orderOfFloats x y).swap := by
  rw [← Bool.not_eq_true] at hx hy
  obtain ⟨o, ho⟩ := Option.isSome_iff_exists.mp (Unpacked.isSome_compare
    (fun h => hx (isNaN_ofModel.mpr h)) fun h => hy (isNaN_ofModel.mpr h))
  rw [orderOfFloats_eq ho, orderOfFloats_eq (by rw [Unpacked.compare_swap, ho]; rfl)]

/-- **Exchanged numbers compare the other way round.** -/
theorem order_swap (a b : Number) : b.order a = (a.order b).swap :=
  orderOfFloats_swap a.isNaN_toFloat b.isNaN_toFloat

end Number

end QueryPlan
