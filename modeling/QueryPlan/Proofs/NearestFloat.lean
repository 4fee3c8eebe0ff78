import Mathlib.Algebra.Order.Field.Rat
import Mathlib.Algebra.Order.Ring.Unbundled.Basic
import Mathlib.Tactic.Linarith
import Mathlib.Tactic.Positivity
import Mathlib.Tactic.Ring
import QueryPlan.Proofs.FloatOrder

/-!
# The float nearest to an integer

`Float.ofInt` takes an integer to the nearest binary64 number, of two equally near ones to that with
the even mantissa.  `nearest` says which integer that is: 53 significant bits are kept, and the bits
below them are rounded away.  Up to `2 ^ 53` nothing is lost (`nearest_of_natAbs_le`).  Beyond that
neighbouring integers share their float, but the order of integers is never turned round
(`nearest_mono`).

`nearest` is arithmetic, and the logical model of `Float` is a program that shifts a mantissa bit by
bit.  Most of this file goes from the one to the other, along the steps of the model:

* **Shifting.**  The model keeps two bits of what has been shifted out.  They tell how the part
  shifted out compares with one half (`Shifted`), and that is all that rounding asks, so what is
  rounded in the end is `halfEven` (`Shifted.roundedMantissa`).
* **Rounding.**  A mantissa of 53 bits or more is shifted and rounded, and once more if a bit has
  come in by that (`roundWithAccuracy_eq`).  It stays within the widths in which a float is normal.
* **Packing.**  The float that comes out is written into 64 bits and read from them again
  (`unpack_pack_finite`).
* **Reading an integer.**  A narrow one is moved up until it has all its bits (`stands_normalize`),
  and a wide one comes in as a decimal with a power of ten (`stands_ofScientific`).

`Stands u i` says that the unpacked float `u` is the integer `i` in the form in which unpacking
gives it.  It is the invariant of these steps: packing, signs and multiplication by one keep it, and
floats that stand for integers compare as these do (`Stands.compare_eq`).  So `stands_ofInt` is all
that the rest needs to know of the model.  It is stated for integers below `2 ^ 128`, which is far
more than words and sums of words come to.
-/

set_option autoImplicit false

namespace QueryPlan

/-! ## Rounding to 53 bits -/

/-- `n` divided by `2 ^ s`, rounded to the nearest integer and halfway to the even one. -/
def halfEven (n s : Nat) : Nat :=
  if 2 * (n % 2 ^ s) < 2 ^ s then n / 2 ^ s
  else if 2 * (n % 2 ^ s) = 2 ^ s then n / 2 ^ s + n / 2 ^ s % 2
  else n / 2 ^ s + 1

/-- How many of the bits of `n` lie below its 53 leading ones. -/
def spareBits (n : Nat) : Nat := n.log2 - 52

/-- `n` rounded to 53 significant bits. -/
def nearestNat (n : Nat) : Nat := halfEven n (spareBits n) * 2 ^ spareBits n

/-- An integer rounded to 53 significant bits. -/
def nearest : Int → Int
  | .ofNat n => nearestNat n
  | .negSucc n => -nearestNat (n + 1)

section HalfEven

variable {n m s : Nat}

theorem halfEven_bounds (n s : Nat) : n / 2 ^ s ≤ halfEven n s ∧ halfEven n s ≤ n / 2 ^ s + 1 := by
  rw [halfEven]
  split
  · omega
  · split <;> omega

theorem halfEven_mono (s : Nat) (h : n ≤ m) : halfEven n s ≤ halfEven m s := by
  obtain hquot | hquot := (Nat.div_le_div_right (c := 2 ^ s) h).lt_or_eq
  · have hn := (halfEven_bounds n s).2
    have hm := (halfEven_bounds m s).1
    omega
  · have hrest : n % 2 ^ s ≤ m % 2 ^ s := by
      have hn := Nat.div_add_mod n (2 ^ s)
      have hm := Nat.div_add_mod m (2 ^ s)
      rw [hquot] at hn
      omega
    rw [halfEven, halfEven, hquot]
    split_ifs <;> omega

/-- Bits that are zero can be dropped before rounding. -/
theorem halfEven_mul (n s k : Nat) : halfEven (n * 2 ^ k) (s + k) = halfEven n s := by
  have hpos : 0 < 2 ^ k := Nat.two_pow_pos k
  have hquot : n * 2 ^ k / 2 ^ (s + k) = n / 2 ^ s := by
    rw [Nat.pow_add, Nat.mul_div_mul_right _ _ hpos]
  have hrest : 2 * (n * 2 ^ k % 2 ^ (s + k)) = 2 * (n % 2 ^ s) * 2 ^ k := by
    rw [Nat.pow_add, Nat.mul_mod_mul_right, Nat.mul_assoc]
  rw [halfEven, halfEven, hquot, hrest, Nat.pow_add]
  simp only [Nat.mul_lt_mul_right hpos, Nat.mul_left_inj hpos.ne']

theorem halfEven_zero (n : Nat) : halfEven n 0 = n := by
  simp [halfEven, Nat.mod_one]

theorem halfEven_mul_self (n k : Nat) : halfEven (n * 2 ^ k) k = n := by
  have h := halfEven_mul n 0 k
  rwa [Nat.zero_add, halfEven_zero] at h

/-- The rounded quotient is at most one half away, and at one half it is even. -/
theorem halfEven_near (n s : Nat) :
    (2 * n < (2 * halfEven n s + 1) * 2 ^ s ∨
      halfEven n s % 2 = 0 ∧ 2 * n = (2 * halfEven n s + 1) * 2 ^ s) ∧
    (2 * halfEven n s * 2 ^ s < 2 * n + 2 ^ s ∨
      halfEven n s % 2 = 0 ∧ 2 * halfEven n s * 2 ^ s = 2 * n + 2 ^ s) := by
  have hn := Nat.div_add_mod n (2 ^ s)
  have hlt : n % 2 ^ s < 2 ^ s := Nat.mod_lt _ (Nat.two_pow_pos s)
  have hparity : n / 2 ^ s % 2 = 0 ∨ n / 2 ^ s % 2 = 1 := Nat.mod_two_eq_zero_or_one _
  rw [halfEven]
  generalize n / 2 ^ s = q at hn hparity ⊢
  generalize n % 2 ^ s = r at hn hlt ⊢
  generalize 2 ^ s = p at hn hlt ⊢
  rw [Nat.mul_comm] at hn
  split_ifs with hlow hhalf
  · rw [Nat.add_mul, Nat.mul_assoc]
    omega
  · rcases hparity with hq | hq
    · simp only [hq, Nat.add_zero, Nat.add_mul, Nat.mul_assoc, true_and]
      omega
    · rw [hq, Nat.add_mul, Nat.mul_assoc, Nat.add_mul q]
      omega
  · rw [Nat.add_mul (2 * (q + 1)), Nat.mul_assoc, Nat.add_mul q]
    omega

end HalfEven

section Nearest

variable {n m : Nat}

theorem spareBits_of_lt (h : n < 2 ^ 53) : spareBits n = 0 := by
  by_cases hn : n = 0
  · rw [hn]
    rfl
  · have := (Nat.log2_lt hn).mpr h
    rw [spareBits]
    omega

theorem nearestNat_of_lt (h : n < 2 ^ 53) : nearestNat n = n := by
  rw [nearestNat, spareBits_of_lt h, halfEven_zero, pow_zero, Nat.mul_one]

/-- Rounded or not, a number has its leading bit where it had it, or is the next power of two. -/
theorem nearestNat_bounds (hn : n ≠ 0) :
    2 ^ n.log2 ≤ nearestNat n ∧ nearestNat n ≤ 2 ^ (n.log2 + 1) := by
  have hle := Nat.log2_self_le hn
  have hlt : n < 2 ^ (n.log2 + 1) := Nat.lt_log2_self
  obtain ⟨hlower, hupper⟩ := halfEven_bounds n (spareBits n)
  have hspare : spareBits n ≤ n.log2 := Nat.sub_le ..
  have hpow {k : Nat} (hk : spareBits n ≤ k) :
      2 ^ (k - spareBits n) * 2 ^ spareBits n = 2 ^ k := by
    rw [← Nat.pow_add, Nat.sub_add_cancel hk]
  constructor
  · calc 2 ^ n.log2 = 2 ^ (n.log2 - spareBits n) * 2 ^ spareBits n := (hpow hspare).symm
      _ ≤ n / 2 ^ spareBits n * 2 ^ spareBits n := by
        refine Nat.mul_le_mul_right _ ((Nat.le_div_iff_mul_le (Nat.two_pow_pos _)).mpr ?_)
        rwa [hpow hspare]
      _ ≤ nearestNat n := Nat.mul_le_mul_right _ hlower
  · have hquot : n / 2 ^ spareBits n < 2 ^ (n.log2 + 1 - spareBits n) := by
      rwa [Nat.div_lt_iff_lt_mul (Nat.two_pow_pos _), hpow (by omega)]
    calc nearestNat n ≤ 2 ^ (n.log2 + 1 - spareBits n) * 2 ^ spareBits n :=
          Nat.mul_le_mul_right _ (by omega)
      _ = 2 ^ (n.log2 + 1) := hpow (by omega)

theorem nearestNat_mono (h : n ≤ m) : nearestNat n ≤ nearestNat m := by
  by_cases hn : n = 0
  · rw [hn, nearestNat_of_lt (by decide)]
    exact Nat.zero_le _
  have hm : m ≠ 0 := by omega
  have hlog : n.log2 ≤ m.log2 := (Nat.le_log2 hm).mpr ((Nat.log2_self_le hn).trans h)
  obtain hlog | hlog := hlog.lt_or_eq
  · calc nearestNat n ≤ 2 ^ (n.log2 + 1) := (nearestNat_bounds hn).2
      _ ≤ 2 ^ m.log2 := Nat.pow_le_pow_right two_pos hlog
      _ ≤ nearestNat m := (nearestNat_bounds hm).1
  · rw [nearestNat, nearestNat, spareBits, spareBits, hlog]
    exact Nat.mul_le_mul_right _ (halfEven_mono _ h)

theorem log2_mul_pow (hn : n ≠ 0) (k : Nat) : (n * 2 ^ k).log2 = n.log2 + k := by
  have hpos : 0 < 2 ^ k := Nat.two_pow_pos k
  refine (Nat.log2_eq_iff (Nat.mul_ne_zero hn hpos.ne')).mpr ⟨?_, ?_⟩
  · rw [Nat.pow_add]
    exact Nat.mul_le_mul_right _ (Nat.log2_self_le hn)
  · rw [Nat.add_right_comm, Nat.pow_add, Nat.mul_lt_mul_right hpos]
    exact Nat.lt_log2_self

/-- Bits that are zero may come along. -/
theorem nearestNat_mul_pow (n k : Nat) : nearestNat (n * 2 ^ k) = nearestNat n * 2 ^ k := by
  by_cases hn : n = 0
  · rw [hn, Nat.zero_mul, nearestNat_of_lt (by decide), Nat.zero_mul]
  have hlog := log2_mul_pow hn k
  obtain hbits | hbits := Nat.lt_or_ge n.log2 52
  · -- `n` itself has no spare bits; of the zeros some may be spare
    have hlt : n < 2 ^ 53 := (Nat.log2_lt hn).mp (by omega)
    obtain ⟨j, hj⟩ : ∃ j, k = j + spareBits (n * 2 ^ k) :=
      ⟨k - spareBits (n * 2 ^ k), by rw [spareBits, hlog]; omega⟩
    have hround : halfEven (n * 2 ^ k) (spareBits (n * 2 ^ k)) = n * 2 ^ j := by
      generalize spareBits (n * 2 ^ k) = s at hj ⊢
      rw [hj, Nat.pow_add, ← Nat.mul_assoc, halfEven_mul_self]
    rw [nearestNat, hround, nearestNat_of_lt hlt, Nat.mul_assoc, ← Nat.pow_add, ← hj]
  · have hspare : spareBits (n * 2 ^ k) = spareBits n + k := by
      rw [spareBits, spareBits, hlog]
      omega
    rw [nearestNat, hspare, halfEven_mul, Nat.pow_add, ← Nat.mul_assoc]
    rfl

theorem nearest_natCast (n : Nat) : nearest n = nearestNat n := rfl

theorem nearest_neg_natCast (n : Nat) : nearest (-n) = -nearestNat n := by
  cases n <;> rfl

/-- **Rounding keeps the order of integers**, though not their being different. -/
theorem nearest_mono {i j : Int} (h : i ≤ j) : nearest i ≤ nearest j := by
  obtain ⟨n, rfl | rfl⟩ := i.eq_nat_or_neg <;> obtain ⟨m, rfl | rfl⟩ := j.eq_nat_or_neg
  · rw [nearest_natCast, nearest_natCast]
    exact_mod_cast nearestNat_mono (by omega)
  · obtain ⟨rfl, rfl⟩ : n = 0 ∧ m = 0 := by omega
    exact le_rfl
  · rw [nearest_natCast, nearest_neg_natCast]
    omega
  · rw [nearest_neg_natCast, nearest_neg_natCast]
    exact neg_le_neg (by exact_mod_cast nearestNat_mono (by omega))

/-- Integers of up to 53 bits are left as they are. -/
theorem nearest_of_natAbs_le {i : Int} (h : i.natAbs ≤ 2 ^ 53) : nearest i = i := by
  have hnat : nearestNat i.natAbs = i.natAbs := by
    obtain h | h := h.lt_or_eq
    · exact nearestNat_of_lt h
    · rw [h]
      rfl
  obtain ⟨n, rfl | rfl⟩ := i.eq_nat_or_neg
  · rw [nearest_natCast]
    exact congrArg _ hnat
  · rw [nearest_neg_natCast]
    rw [Int.natAbs_neg] at hnat
    exact congrArg (fun n : Nat => -(n : Int)) hnat

theorem natAbs_nearest (i : Int) : (nearest i).natAbs = nearestNat i.natAbs := by
  obtain ⟨n, rfl | rfl⟩ := i.eq_nat_or_neg
  · rw [nearest_natCast]
    rfl
  · rw [nearest_neg_natCast, Int.natAbs_neg, Int.natAbs_neg]
    rfl

/-- Rounding keeps the sign. -/
theorem nearest_neg_iff (i : Int) : nearest i < 0 ↔ i < 0 := by
  constructor
  · intro h
    by_contra hi
    have := nearest_mono (show 0 ≤ i by omega)
    have : nearest 0 = 0 := rfl
    omega
  · intro h
    have := nearest_mono (show i ≤ -1 by omega)
    have : nearest (-1) = -1 := by decide
    omega

theorem nearest_eq_zero_iff (i : Int) : nearest i = 0 ↔ i = 0 := by
  constructor
  · intro h
    by_contra hi
    have hpos : 0 < 2 ^ i.natAbs.log2 := Nat.two_pow_pos _
    have hle := (nearestNat_bounds (Int.natAbs_ne_zero.mpr hi)).1
    have hzero := natAbs_nearest i
    rw [h] at hzero
    omega
  · rintro rfl
    rfl

end Nearest

/-! ## What the model makes of a shift -/

open Float.Model Float.Model.UnpackedFloat

namespace Unpacked

/-- A mantissa that has come from `n` by `s` shifts.  The two bits kept of the part shifted out tell
whether it is one half or more, and whether it is anything but nothing and one half. -/
structure Shifted (n s : Nat) (em : ExtendedMantissa) : Prop where
  mantissa : em.mantissa = n / 2 ^ s
  roundBit : em.roundBit = true ↔ 2 ^ s ≤ 2 * (n % 2 ^ s)
  stickyBit : em.stickyBit = true ↔ 2 * (n % 2 ^ s) ≠ 2 ^ s ∧ n % 2 ^ s ≠ 0

theorem Shifted.start (n : Nat) : Shifted n 0 ⟨n, false, false⟩ := by
  constructor <;> simp [Nat.mod_one]

theorem Shifted.step {n s : Nat} {em : ExtendedMantissa} (h : Shifted n s em) :
    Shifted n (s + 1) em.shiftRightOne := by
  have hrest : n % 2 ^ (s + 1) = n % 2 ^ s + 2 ^ s * (n / 2 ^ s % 2) := by
    rw [Nat.pow_succ, Nat.mod_mul]
  have hlt : n % 2 ^ s < 2 ^ s := Nat.mod_lt _ (Nat.two_pow_pos s)
  have hbit : n / 2 ^ s % 2 = 0 ∨ n / 2 ^ s % 2 = 1 := Nat.mod_two_eq_zero_or_one _
  constructor
  · show em.mantissa / 2 = _
    rw [h.mantissa, Nat.div_div_eq_div_mul, ← Nat.pow_succ]
  · show (em.mantissa % 2 != 0) = true ↔ _
    rw [h.mantissa, hrest, Nat.pow_succ, bne_iff_ne]
    obtain hbit | hbit := hbit <;> rw [hbit] <;> omega
  · show (em.roundBit || em.stickyBit) = true ↔ _
    rw [Bool.or_eq_true, h.roundBit, h.stickyBit, hrest, Nat.pow_succ]
    obtain hbit | hbit := hbit <;> rw [hbit] <;> omega

theorem shifted_shiftRight (n s : Nat) :
    Shifted n s ((⟨n, false, false⟩ : ExtendedMantissa) >>> s) := by
  induction s with
  | zero => exact .start n
  | succ s ih => exact ih.step

/-- The mantissa as it is rounded in the end. -/
theorem Shifted.roundedMantissa {n s : Nat} {em : ExtendedMantissa} (h : Shifted n s em) :
    em.roundedMantissa = halfEven n s := by
  obtain ⟨q, half, sticky⟩ := em
  obtain ⟨rfl, hhalf, hsticky⟩ := h
  rw [halfEven]
  cases half <;> cases sticky <;>
    simp only [Bool.false_eq_true, false_iff, true_iff] at hhalf hsticky <;>
    simp only [ExtendedMantissa.roundedMantissa, ExtendedMantissa.accuracy,
      Accuracy.roundToNearestEven] <;>
    split_ifs <;> omega

/-! ### Mantissas of full width -/

/-- A mantissa of full width. -/
def Full (m : Nat) : Prop := 2 ^ 52 ≤ m ∧ m < 2 ^ 53

/-- The size of a float. -/
def size (m : Nat) (e : Int) : ℚ := m * 2 ^ e

theorem Full.log2_eq {m : Nat} (h : Full m) : m.log2 = 52 :=
  (Nat.log2_eq_iff (by have := h.1; omega)).mpr h

theorem le_log2 {n : Nat} (h : 2 ^ 52 ≤ n) : 52 ≤ n.log2 :=
  (Nat.le_log2 (by omega)).mpr h

/-- The exponent at which 53 bits are left, or the least one there is. -/
theorem targetExponent_eq (n : Nat) (e : Int) :
    Format.binary64.targetExponent (totalExponent n e) = max (n.log2 + e - 52) (-1074) := by
  have hbits : (Format.binary64.mantissaBits : Int) = 53 := rfl
  have hleast : Format.binary64.minExponent = -1074 := rfl
  rw [Format.targetExponent, totalExponent, hbits, hleast]
  omega

/-- With at least 53 bits, above the least exponent, a mantissa gives up its spare bits. -/
theorem shiftToTargetExponent_eq {n : Nat} {e : Int} (hn : 2 ^ 52 ≤ n) (he : -1074 ≤ e) :
    shiftToTargetExponent .binary64 n e .exact =
      ((⟨n, false, false⟩ : ExtendedMantissa) >>> spareBits n, e + spareBits n) := by
  have hlog := le_log2 hn
  have htarget : Format.binary64.targetExponent (totalExponent n e) = e + spareBits n := by
    rw [targetExponent_eq, spareBits]
    omega
  rw [shiftToTargetExponent, htarget, shiftToExponent, add_sub_cancel_left, Int.toNat_natCast]
  rfl

/-- Rounding leaves 53 bits, or just one more. -/
theorem halfEven_spareBits {n : Nat} (hn : 2 ^ 52 ≤ n) :
    2 ^ 52 ≤ halfEven n (spareBits n) ∧ halfEven n (spareBits n) ≤ 2 ^ 53 := by
  have hlog : n.log2 = 52 + spareBits n := by
    have := le_log2 hn
    rw [spareBits]
    omega
  obtain ⟨hlower, hupper⟩ := nearestNat_bounds (n := n) (by omega)
  rw [nearestNat, hlog, Nat.pow_add] at hlower
  rw [nearestNat, hlog, Nat.add_right_comm, Nat.pow_add] at hupper
  exact ⟨Nat.le_of_mul_le_mul_right hlower (Nat.two_pow_pos _),
    Nat.le_of_mul_le_mul_right hupper (Nat.two_pow_pos _)⟩

theorem finite_congr {s s' : Sign} {m m' : Nat} {e e' : Int} {hm : 0 < m} {hm' : 0 < m'}
    (hs : s = s') (h : m = m') (he : e = e') :
    UnpackedFloat.finite s m e hm = .finite s' m' e' hm' := by
  subst hs h he
  rfl

/-- The model shifts, rounds, and shifts once more in case a bit has come in. -/
theorem roundWithAccuracy_of_shifts {spec : Format} (s : Sign) {n : Nat} {e e₁ e₂ : Int}
    {a : Accuracy} {em₁ em₂ : ExtendedMantissa}
    (h₁ : shiftToTargetExponent spec n e a = (em₁, e₁))
    (h₂ : shiftToTargetExponent spec em₁.roundedMantissa e₁ .exact = (em₂, e₂))
    (hpos : 0 < em₂.mantissa) :
    roundWithAccuracy spec s n e a = .finite s em₂.mantissa e₂ hpos := by
  rw [roundWithAccuracy, h₁]
  dsimp only
  rw [h₂]
  exact dif_neg hpos.ne'

theorem roundWithAccuracy_halfEven (s : Sign) {n r : Nat} {e : Int} (hn : 2 ^ 52 ≤ n)
    (he : -1074 ≤ e) (hr : halfEven n (spareBits n) = r) (hpos : 0 < r / 2 ^ spareBits r) :
    roundWithAccuracy .binary64 s n e .exact =
      .finite s (r / 2 ^ spareBits r) (e + spareBits n + spareBits r) hpos := by
  have hfirst := (shifted_shiftRight n (spareBits n)).roundedMantissa.trans hr
  have hsecond := (shifted_shiftRight r (spareBits r)).mantissa
  have hwide : 2 ^ 52 ≤ r := hr ▸ (halfEven_spareBits hn).1
  have hagain := shiftToTargetExponent_eq hwide (show -1074 ≤ e + spareBits n by omega)
  rw [← hfirst] at hagain hsecond hpos
  rw [roundWithAccuracy_of_shifts s (shiftToTargetExponent_eq hn he) hagain (hsecond.symm ▸ hpos)]
  exact finite_congr rfl (hfirst ▸ hsecond) (by rw [hfirst])

/-- No bit has come in. -/
theorem roundWithAccuracy_of_lt (s : Sign) {n r : Nat} {e : Int} (hn : 2 ^ 52 ≤ n)
    (he : -1074 ≤ e) (hr : halfEven n (spareBits n) = r) (hpos : 0 < r) (hlt : r < 2 ^ 53) :
    roundWithAccuracy .binary64 s n e .exact = .finite s r (e + spareBits n) hpos := by
  have hdrop : r / 2 ^ spareBits r = r := by rw [spareBits_of_lt hlt, pow_zero, Nat.div_one]
  rw [roundWithAccuracy_halfEven s hn he hr (hdrop.symm ▸ hpos)]
  exact finite_congr rfl hdrop (by rw [spareBits_of_lt hlt, Nat.cast_zero, add_zero])

/-- A bit has come in, and is shifted out again. -/
theorem roundWithAccuracy_of_eq (s : Sign) {n : Nat} {e : Int} (hn : 2 ^ 52 ≤ n)
    (he : -1074 ≤ e) (hr : halfEven n (spareBits n) = 2 ^ 53) :
    roundWithAccuracy .binary64 s n e .exact =
      .finite s (2 ^ 52) (e + spareBits n + 1) (by decide) := by
  have hspare : spareBits (2 ^ 53) = 1 := by decide
  rw [roundWithAccuracy_halfEven s hn he hr (by decide)]
  exact finite_congr rfl (by decide) (by rw [hspare, Nat.cast_one])

/-- **What rounding makes of a mantissa of 53 bits or more.** -/
theorem roundWithAccuracy_eq (s : Sign) {n : Nat} {e : Int} (hn : 2 ^ 52 ≤ n) (he : -1074 ≤ e) :
    ∃ m e' hm, roundWithAccuracy .binary64 s n e .exact = .finite s m e' hm ∧ Full m ∧
      e + spareBits n ≤ e' ∧ e' ≤ e + spareBits n + 1 ∧ size m e' = nearestNat n * 2 ^ e := by
  obtain ⟨hlower, hupper⟩ := halfEven_spareBits hn
  have hsize : (nearestNat n : ℚ) * 2 ^ e = size (halfEven n (spareBits n)) (e + spareBits n) := by
    rw [size, nearestNat, zpow_add₀ two_ne_zero, zpow_natCast]
    push_cast
    ring
  rw [hsize]
  obtain hlt | heq := hupper.lt_or_eq
  · exact ⟨_, _, _, roundWithAccuracy_of_lt s hn he rfl (by omega) hlt, ⟨hlower, hlt⟩, le_rfl,
      by omega, rfl⟩
  · refine ⟨_, _, _, roundWithAccuracy_of_eq s hn he heq, ⟨le_rfl, by decide⟩, by omega, le_rfl, ?_⟩
    rw [heq, size, size, zpow_add_one₀ two_ne_zero]
    push_cast
    ring

/-! ### Packing -/

/-- A float that stands for an integer, in the form in which unpacking gives it. -/
inductive Stands : UnpackedFloat → Int → Prop where
  | zero (s : Sign) : Stands (.zero s) 0
  | positive {m : Nat} {e i : Int} (hm : 0 < m) (full : Full m) (low : -52 ≤ e) (high : e ≤ 971)
    (size_eq : size m e = i) : Stands (.finite .positive m e hm) i
  | negative {m : Nat} {e i : Int} (hm : 0 < m) (full : Full m) (low : -52 ≤ e) (high : e ≤ 971)
    (size_eq : -size m e = i) : Stands (.finite .negative m e hm) i

theorem sign_unpackSign (s : Sign) (x : BitVec 11) (m : BitVec 52) :
    Sign.ofBitVec (unpackSign (packComponents .binary64 s x m)) = s := by
  delta unpackSign
  rw [packComponents, BitVec.extractLsb, BitVec.extractLsb'_append_eq_of_le (by decide),
    BitVec.extractLsb'_append_eq_of_le (by decide)]
  cases s <;> rfl

theorem toNat_one_append {w : Nat} (m : BitVec w) : (1#1 ++ m).toNat = 2 ^ w + m.toNat := by
  rw [BitVec.toNat_append, ← Nat.shiftLeft_add_eq_or_of_lt m.isLt, Nat.shiftLeft_eq]
  show 1 * 2 ^ w + m.toNat = _
  rw [one_mul]

theorem toNat_one_append_pos {w : Nat} (m : BitVec w) : 0 < (1#1 ++ m).toNat :=
  toNat_one_append m ▸ Nat.add_pos_left (Nat.two_pow_pos w) _

/-- The highest exponent and the lowest have a meaning of their own, the others this one. -/
theorem unpack_of_exponent {spec : Format} {b : BitVec spec.numBits}
    (hhigh : unpackExponent b ≠ -1#_) (hlow : unpackExponent b ≠ 0#_) : unpack spec b =
      .finite (Sign.ofBitVec (unpackSign b)) (1#1 ++ unpackMantissa b).toNat
        ((unpackExponent b).toNat - (spec.exponentBias + spec.mantissaBitsWithoutImplicit))
        (toNat_one_append_pos _) := by
  delta UnpackedFloat.unpack
  dsimp only
  rw [if_neg hhigh, if_neg hlow]

theorem unpack_packComponents (s : Sign) {x : BitVec 11} (hlow : x ≠ 0#11) (hhigh : x ≠ -1#11)
    (m : BitVec 52) : unpack .binary64 (packComponents .binary64 s x m) =
      .finite s (1#1 ++ m).toNat (x.toNat - (1023 + 52)) (toNat_one_append_pos m) := by
  have hexp : unpackExponent (packComponents .binary64 s x m) = x := unpackExponent_packComponents
  have hmantissa : unpackMantissa (packComponents .binary64 s x m) = m :=
    unpackMantissa_packComponents
  rw [unpack_of_exponent (by rwa [hexp]) (by rwa [hexp])]
  refine finite_congr (sign_unpackSign s x m) (by rw [hmantissa]) ?_
  rw [hexp]
  rfl

theorem pack_finite (s : Sign) {m : Nat} {e : Int} (hm : 0 < m) (hfull : Full m)
    (low : -1074 ≤ e) (high : e ≤ 971) : UnpackedFloat.pack .binary64 (.finite s m e hm) =
      packComponents .binary64 s (BitVec.ofNat 11 (e + 1075).toNat) (BitVec.ofNat 52 m) := by
  have hbias : (e + Format.binary64.exponentBias +
      Format.binary64.mantissaBitsWithoutImplicit).toNat = (e + 1075).toNat := by
    show (e + (1023 : Nat) + (52 : Nat)).toNat = _
    omega
  delta UnpackedFloat.pack
  dsimp only
  rw [hbias, hfull.log2_eq, if_neg (by omega), if_pos (by decide)]

/-- **A float of full width comes out of its bits again.** -/
theorem unpack_pack_finite (s : Sign) {m : Nat} {e : Int} (hm : 0 < m) (hfull : Full m)
    (low : -1074 ≤ e) (high : e ≤ 971) :
    (Float.Model.pack (.finite s m e hm)).unpack = .finite s m e hm := by
  obtain ⟨hmin, hmax⟩ := hfull
  have hexp : (BitVec.ofNat 11 (e + 1075).toNat).toNat = (e + 1075).toNat := by
    rw [BitVec.toNat_ofNat, Nat.mod_eq_of_lt (by omega)]
  have hne (b : BitVec 11) (hb : (e + 1075).toNat ≠ b.toNat) :
      BitVec.ofNat 11 (e + 1075).toNat ≠ b := by
    rintro rfl
    exact hb hexp.symm
  have hlow : (e + 1075).toNat ≠ (0#11).toNat := by
    show _ ≠ 0
    omega
  have hhigh : (e + 1075).toNat ≠ (-1#11).toNat := by
    show _ ≠ 2047
    omega
  have hmantissa : (1#1 ++ BitVec.ofNat 52 m).toNat = m := by
    rw [toNat_one_append, BitVec.toNat_ofNat]
    omega
  show unpack .binary64 (UnpackedFloat.pack .binary64 (.finite s m e hm)) = _
  rw [pack_finite s hm ⟨hmin, hmax⟩ low high, unpack_packComponents s (hne _ hlow) (hne _ hhigh)]
  exact finite_congr rfl hmantissa (by omega)

namespace Stands

variable {x y : UnpackedFloat} {i j : Int}

theorem unpack_pack (h : Stands x i) : (Float.Model.pack x).unpack = x := by
  cases h with
  | zero s => cases s <;> rfl
  | positive hm full low high => exact unpack_pack_finite _ hm full (by omega) high
  | negative hm full low high => exact unpack_pack_finite _ hm full (by omega) high

theorem neg (h : Stands x i) : Stands x.neg (-i) := by
  cases h with
  | zero s => exact .zero _
  | positive hm full low high size_eq =>
    exact .negative hm full low high (by rw [size_eq, Int.cast_neg])
  | negative hm full low high size_eq =>
    exact .positive hm full low high (by rw [Int.cast_neg, ← size_eq, neg_neg])

theorem abs (h : Stands x i) : Stands x.abs i.natAbs := by
  cases h with
  | zero s => exact .zero _
  | positive hm full low high size_eq =>
    refine .positive hm full low high ?_
    have hpos : (0 : ℚ) < i := size_eq ▸ mul_pos (Nat.cast_pos.mpr hm) (zpow_pos two_pos _)
    rw [size_eq, Int.natCast_natAbs, Int.cast_abs, abs_of_pos hpos]
  | negative hm full low high size_eq =>
    refine .positive hm full low high ?_
    rw [Int.natCast_natAbs, Int.cast_abs, ← size_eq, abs_neg]
    exact (abs_of_pos (mul_pos (Nat.cast_pos.mpr hm) (zpow_pos two_pos _))).symm

theorem isFinite (h : Stands x i) : x.isFinite = true := by
  cases h <;> rfl

end Stands

/-! ### Comparing -/

theorem size_pos {m : Nat} (hm : 0 < m) (e : Int) : 0 < size m e :=
  mul_pos (Nat.cast_pos.mpr hm) (zpow_pos two_pos e)

/-- The exponents of mantissas of full width decide first. -/
theorem size_lt_of_lt {m m' : Nat} {e e' : Int} (hm : Full m) (hm' : Full m') (he : e < e') :
    size m e < size m' e' := by
  have hunit : (0 : ℚ) < 2 ^ e := zpow_pos two_pos e
  calc size m e < 2 ^ 53 * 2 ^ e := by
        refine mul_lt_mul_of_pos_right ?_ hunit
        exact_mod_cast hm.2
    _ = 2 ^ 52 * 2 ^ (e + 1) := by rw [zpow_add_one₀ two_ne_zero]; ring
    _ ≤ 2 ^ 52 * 2 ^ e' := by
        refine mul_le_mul_of_nonneg_left ?_ (by positivity)
        exact zpow_le_zpow_right₀ one_le_two he
    _ ≤ size m' e' := by
        refine mul_le_mul_of_nonneg_right ?_ (zpow_pos two_pos e').le
        exact_mod_cast hm'.1

theorem compare_size {m m' : Nat} (e e' : Int) (hm : Full m) (hm' : Full m') :
    (compare e e').then (compare m m') = cmp (size m e) (size m' e') := by
  rcases lt_trichotomy e e' with he | rfl | he
  · rw [compare_lt_iff_lt.mpr he, (cmp_eq_lt_iff _ _).mpr (size_lt_of_lt hm hm' he)]
    rfl
  · rw [compare_eq_iff_eq.mpr rfl, size, size, cmp_mul_pos_right (zpow_pos two_pos e),
      Nat.strictMono_cast.cmp_map_eq, cmp_eq_compare]
    rfl
  · rw [compare_gt_iff_gt.mpr he, (cmp_eq_gt_iff _ _).mpr (size_lt_of_lt hm' hm he)]
    rfl

theorem pos_of_size_eq {m : Nat} {e i : Int} (hm : 0 < m) (h : size m e = i) : 0 < i := by
  have hpos := size_pos hm e
  rw [h] at hpos
  exact_mod_cast hpos

theorem neg_of_size_eq {m : Nat} {e i : Int} (hm : 0 < m) (h : -size m e = i) : i < 0 := by
  have hpos := size_pos hm e
  have hneg : (i : ℚ) < 0 := by linarith
  exact_mod_cast hneg

/-- What stands for an integer that is not zero has its sign and its size. -/
theorem Stands.exists_finite {u : UnpackedFloat} {i : Int} (h : Stands u i) (hi : i ≠ 0) :
    ∃ s m e, ∃ hm : 0 < m, u = .finite s m e hm ∧ Full m ∧ size m e = i.natAbs ∧
      (s = .negative ↔ i < 0) := by
  cases h with
  | zero s => exact absurd rfl hi
  | positive hm full low high hsize =>
    have hpos := pos_of_size_eq hm hsize
    refine ⟨_, _, _, hm, rfl, full, ?_, by simp; omega⟩
    rw [hsize, Nat.cast_natAbs, abs_of_pos hpos]
  | negative hm full low high hsize =>
    have hneg := neg_of_size_eq hm hsize
    refine ⟨_, _, _, hm, rfl, full, ?_, iff_of_true rfl hneg⟩
    rw [Nat.cast_natAbs, abs_of_neg hneg, Int.cast_neg, ← hsize, neg_neg]

/-- **Floats that stand for integers compare as these do.** -/
theorem Stands.compare_eq {x y : UnpackedFloat} {i j : Int} (hx : Stands x i) (hy : Stands y j) :
    x.compare y = some (Ord.compare i j) := by
  have hlt {i j : Int} (h : i < j) : some .lt = some (Ord.compare i j) :=
    congrArg some (compare_lt_iff_lt.mpr h).symm
  have hgt {i j : Int} (h : j < i) : some .gt = some (Ord.compare i j) :=
    congrArg some (compare_gt_iff_gt.mpr h).symm
  cases hx with
  | zero s =>
    cases hy with
    | zero t => rfl
    | positive hm _ _ _ hj => exact hlt (pos_of_size_eq hm hj)
    | negative hm _ _ _ hj => exact hgt (neg_of_size_eq hm hj)
  | positive hm full _ _ hi =>
    have hipos := pos_of_size_eq hm hi
    cases hy with
    | zero t => exact hgt hipos
    | positive _ full' _ _ hj =>
      refine congrArg some ((compare_size _ _ full full').trans ?_)
      rw [hi, hj, Int.cast_strictMono.cmp_map_eq, cmp_eq_compare]
    | negative hm' _ _ _ hj => exact hgt ((neg_of_size_eq hm' hj).trans hipos)
  | negative hm full _ _ hi =>
    have hineg := neg_of_size_eq hm hi
    cases hy with
    | zero t => exact hlt hineg
    | positive hm' _ _ _ hj => exact hlt (hineg.trans (pos_of_size_eq hm' hj))
    | negative _ full' _ _ hj =>
      refine congrArg some ((congrArg Ordering.swap (compare_size _ _ full full')).trans ?_)
      rw [cmp_swap, ← cmp_eq_compare, ← Int.cast_strictMono.cmp_map_eq (β := ℚ), ← hi, ← hj]
      have hanti : StrictAnti fun q : ℚ => -q := fun _ _ h => neg_lt_neg h
      exact (hanti.cmp_map_eq _ _).symm

/-! ### Integers -/

/-- A mantissa that is wide enough rounds to the float of the integer it comes to. -/
theorem stands_roundWithAccuracy (s : Sign) {n : Nat} {e i : Int} (hn : 2 ^ 52 ≤ n)
    (least : -1074 ≤ e) (low : -52 ≤ e + spareBits n) (high : e + spareBits n ≤ 970)
    (hi : (nearestNat n : ℚ) * 2 ^ e = i) :
    Stands (roundWithAccuracy .binary64 s n e .exact) (s.apply i) := by
  obtain ⟨m, e', hm, hround, full, hlow, hhigh, hsize⟩ := roundWithAccuracy_eq s hn least
  rw [hround]
  cases s with
  | negative =>
    exact .negative hm full (by omega) (by omega) (by rw [hsize, hi, Sign.apply, Int.cast_neg])
  | positive => exact .positive hm full (by omega) (by omega) (by rw [hsize, hi, Sign.apply])

/-- A natural number of up to 53 bits is moved up until it has all of them. -/
theorem stands_normalize {n : Nat} (hn : n < 2 ^ 53) :
    Stands (UnpackedFloat.normalize .binary64 n 0 .positive) n := by
  obtain rfl | hpos := Nat.eq_zero_or_pos n
  · exact .zero _
  have hlog : n.log2 ≤ 52 := Nat.lt_succ_iff.mp ((Nat.log2_lt hpos.ne').mpr hn)
  obtain ⟨k, hk⟩ : ∃ k, n.log2 + k = 52 := ⟨52 - n.log2, by omega⟩
  have htarget : Format.binary64.targetExponent (totalExponent n 0) = -k := by
    rw [targetExponent_eq]
    omega
  have hround : UnpackedFloat.normalize .binary64 n 0 .positive =
      roundWithAccuracy .binary64 .positive (n * 2 ^ k) (-k) .exact := by
    have hgt : compare (n : Int) 0 = .gt := compare_gt_iff_gt.mpr (Nat.cast_pos.mpr hpos)
    rw [UnpackedFloat.normalize, hgt]
    show UnpackedFloat.round .binary64 .positive (n : Int).toNat 0 = _
    rw [Int.toNat_natCast, UnpackedFloat.round, htarget]
    simp only [decreaseExponent, zero_sub, neg_neg, Int.toNat_natCast, Nat.shiftLeft_eq]
  have hfull : (n * 2 ^ k).log2 = 52 := (log2_mul_pow hpos.ne' k).trans hk
  have hwide : 2 ^ 52 ≤ n * 2 ^ k :=
    hfull ▸ Nat.log2_self_le (Nat.mul_ne_zero hpos.ne' (Nat.two_pow_pos k).ne')
  have hspare : spareBits (n * 2 ^ k) = 0 := by rw [spareBits, hfull]
  rw [hround]
  refine stands_roundWithAccuracy .positive hwide (by omega) (by omega) (by omega) ?_
  rw [nearestNat_mul_pow, nearestNat_of_lt hn, Nat.cast_mul, Nat.cast_pow, zpow_neg, zpow_natCast]
  exact mul_inv_cancel_right₀ (pow_ne_zero k two_ne_zero) _

/-- Multiplying by one changes nothing. -/
theorem Stands.mul_one {x : UnpackedFloat} {i : Int} (h : Stands x i) :
    x.mul .binary64 (.finite .positive (2 ^ 52) (-52) (by decide)) = x := by
  have hmul (s : Sign) {m : Nat} {e : Int} (hm : 0 < m) (full : Full m) (low : -52 ≤ e) :
      roundWithAccuracy .binary64 s (m * 2 ^ 52) (e + -52) .exact = .finite s m e hm := by
    have hspare : spareBits (m * 2 ^ 52) = 52 := by
      rw [spareBits, log2_mul_pow hm.ne', full.log2_eq]
    have hround : halfEven (m * 2 ^ 52) (spareBits (m * 2 ^ 52)) = m := by
      rw [hspare, halfEven_mul_self]
    rw [roundWithAccuracy_of_lt s (Nat.le_mul_of_pos_left _ hm) (by omega) hround hm full.2]
    exact finite_congr rfl rfl (by omega)
  cases h with
  | zero s => cases s <;> rfl
  | positive hm full low => exact hmul .positive hm full low
  | negative hm full low => exact hmul .negative hm full low

end Unpacked

/-! ## Integers as floats -/

open Unpacked

theorem unpack_toFloat {n : Nat} (hn : n < 2 ^ 53) :
    n.toUInt64.toFloat.toModel.unpack = UnpackedFloat.normalize .binary64 n 0 .positive := by
  have hword : n.toUInt64.toNat = n := UInt64.toNat_ofNat_of_lt (hn.trans (by decide))
  show (Float.Model.pack
    (UnpackedFloat.normalize .binary64 n.toUInt64.toNat 0 .positive)).unpack = _
  rw [hword]
  exact (stands_normalize hn).unpack_pack

/-- A wider natural number is scaled up, so that it is wide enough in any case, and then rounded. -/
theorem stands_ofScientific {n : Nat} (hn : 2 ^ 53 ≤ n) (hlt : n < 2 ^ 128) :
    Stands (UnpackedFloat.ofScientific .binary64 n 0) (nearestNat n) := by
  have hpos : n ≠ 0 := by omega
  have hlog : n.log2 < 128 := (Nat.log2_lt hpos).mpr hlt
  have hspare : spareBits (n * 2 ^ 53) = spareBits n + 53 := by
    have := le_log2 (n := n) (by omega)
    rw [spareBits, spareBits, log2_mul_pow hpos]
    omega
  have hround : UnpackedFloat.ofScientific .binary64 n 0 =
      roundWithAccuracy .binary64 .positive (n * 2 ^ 53) (-53) .exact := by
    have hbound : ¬((0 : Int) < -((2 : Int) ^ Format.binary64.exponentBits + n.log2)) := by
      have : (0 : Int) ≤ 2 ^ Format.binary64.exponentBits := by positivity
      omega
    rw [UnpackedFloat.ofScientific, dif_neg hpos, if_neg (by decide), if_neg hbound, if_pos le_rfl]
    show roundWithAccuracy .binary64 .positive (n <<< 53 * 1) (-53 + 0) .exact = _
    rw [Nat.shiftLeft_eq, Nat.mul_one, add_zero]
  have hbits : spareBits n ≤ 128 := by
    rw [spareBits]
    omega
  rw [hround]
  refine stands_roundWithAccuracy .positive (by omega) (by decide) ?_ ?_ ?_
  · rw [hspare]
    omega
  · rw [hspare]
    omega
  · rw [nearestNat_mul_pow, Nat.cast_mul, Nat.cast_pow, zpow_neg]
    exact mul_inv_cancel_right₀ (pow_ne_zero 53 two_ne_zero) _

/-- The float of a natural number.  The bound is far below the greatest float, and far above what a
word can hold. -/
theorem stands_ofNat {n : Nat} (hn : n < 2 ^ 128) :
    Stands (Float.ofNat n).toModel.unpack (nearestNat n) := by
  show Stands (Float.ofScientific n false 0).toModel.unpack _
  rw [Float.ofScientific]
  split
  · next hsmall =>
    have hone : (Float.ofBits 0x3FF0000000000000).toModel.unpack =
        .finite .positive (2 ^ 52) (-52) (by decide) := rfl
    have hstands := stands_normalize hsmall.1
    show Stands (Float.Model.pack (UnpackedFloat.mul .binary64 n.toUInt64.toFloat.toModel.unpack
      (Float.ofBits 0x3FF0000000000000).toModel.unpack)).unpack _
    rw [hone, unpack_toFloat hsmall.1, hstands.mul_one, hstands.unpack_pack,
      nearestNat_of_lt hsmall.1]
    exact hstands
  · next hlarge =>
    have hwide : 2 ^ 53 ≤ n := by
      by_contra hlt
      exact hlarge ⟨by omega, by decide⟩
    have hstands := stands_ofScientific hwide hn
    show Stands (Float.Model.pack (UnpackedFloat.ofScientific .binary64 n 0)).unpack _
    rw [hstands.unpack_pack]
    exact hstands

/-- **The float of an integer is that of the nearest one with 53 significant bits.** -/
theorem stands_ofInt {i : Int} (hi : i.natAbs < 2 ^ 128) :
    Stands (Float.ofInt i).toModel.unpack (nearest i) := by
  cases i with
  | ofNat n => exact stands_ofNat hi
  | negSucc n =>
    have hstands := (stands_ofNat (n := n + 1) hi).neg
    show Stands (Float.Model.pack (Float.ofNat (n + 1)).toModel.unpack.neg).unpack _
    rw [hstands.unpack_pack]
    exact hstands

theorem isFinite_ofInt {i : Int} (hi : i.natAbs < 2 ^ 128) : (Float.ofInt i).isFinite = true :=
  (stands_ofInt hi).isFinite

end QueryPlan
