import QueryPlan.Literal
import QueryPlan.Proofs.IntegerOrder
import QueryPlan.Proofs.TupleText

/-!
# What the SQL text of a number says

The SQL text of a float and the text of an integer spell a float each, the float itself and the one
nearest to the integer (`Decimal.spells_sql`, `Number.spells_toString`).  So an integer and a float
may well be written alike, as `1` and `1.0` are, but only if they are the same number to a
comparison.

For an integer this is not the shortest text that reads back, and need not read back to the float
by anything but its value: between the integer and its float there may be as much as half of the
last bit.
-/

set_option autoImplicit false

namespace QueryPlan

open Float.Model Float.Model.UnpackedFloat

namespace Decimal

open Unpacked

/-! ## The bits of a float of full width -/

section Bits

variable {x : Float} {s : Sign} {m : Nat} {e : Int} {hm : 0 < m}

/-- The sign is the highest bit. -/
theorem isNegative_iff (x : Float) :
    isNegative x = true ↔ Sign.ofBitVec (@unpackSign .binary64 x.toBits.toBitVec) = .negative := by
  have hbit : (@unpackSign .binary64 x.toBits.toBitVec).toNat = x.toBits.toNat / 2 ^ 63 % 2 := by
    delta unpackSign
    simp [Nat.shiftRight_eq_div_pow]
  have hlt := x.toBits.toNat_lt
  rw [isNegative, decide_eq_true_iff, Sign.ofBitVec]
  split
  · next h =>
    rw [← BitVec.toNat_inj, hbit] at h
    have h : x.toBits.toNat / 2 ^ 63 % 2 = 0 := h
    exact iff_of_false (by omega) (by simp)
  · next h =>
    rw [← BitVec.toNat_inj, hbit] at h
    have h : x.toBits.toNat / 2 ^ 63 % 2 ≠ 0 := h
    exact iff_of_true (by omega) rfl

/-- What the bits of a float of full width hold. -/
theorem ofBits_of_unpack (h : x.toModel.unpack = .finite s m e hm) (full : Full m) :
    (Binary.ofBits x.toBits).mantissa = m ∧ (Binary.ofBits x.toBits).exponent = e ∧
      (isNegative x = true ↔ s = .negative) := by
  have hunpack : unpack .binary64 x.toBits.toBitVec = .finite s m e hm := h
  have hcases : unpack .binary64 x.toBits.toBitVec = .finite s m e hm := h
  delta UnpackedFloat.unpack at hcases
  dsimp only at hcases
  have hhigh : @unpackExponent .binary64 x.toBits.toBitVec ≠ -1#_ := by
    intro hhigh
    by_cases hman : @unpackMantissa .binary64 x.toBits.toBitVec = 0#_
    · rw [if_pos hhigh, if_pos hman] at hcases
      cases hcases
    · rw [if_pos hhigh, if_neg hman] at hcases
      cases hcases
  have hlow : @unpackExponent .binary64 x.toBits.toBitVec ≠ 0#_ := by
    intro hlow
    by_cases hman : @unpackMantissa .binary64 x.toBits.toBitVec = 0#_
    · rw [if_neg hhigh, if_pos hlow, dif_pos hman] at hcases
      cases hcases
    · rw [if_neg hhigh, if_pos hlow, dif_neg hman] at hcases
      injection hcases with _ hmantissa
      have := full.1
      have := toNat_unpackMantissa x
      omega
  rw [unpack_of_exponent hhigh hlow] at hunpack
  injection hunpack with hs hmantissa he
  have hbiased : x.toBits.toNat / 2 ^ 52 % 2 ^ 11 ≠ 0 := fun hzero =>
    hlow (BitVec.toNat_inj.mp ((toNat_unpackExponent x).trans hzero))
  rw [toNat_one_append, toNat_unpackMantissa] at hmantissa
  rw [toNat_unpackExponent] at he
  simp only [Binary.ofBits]
  rw [if_neg hbiased, isNegative_iff, hs]
  exact ⟨hmantissa, he, Iff.rfl⟩

end Bits

/-! ## An integer reads back to its nearest float -/

section Halves

/-! Rounding takes `n` to `m * 2 ^ k` units, each of `p`.  The ends of the reals that round there
are quarters of a unit `p * 2 ^ k`; of the two ends only an even `m` has them. -/

variable {m n p : Nat}

theorem below_upper (hp : 0 < p) (k : Nat)
    (h : 2 * n < (2 * (m * 2 ^ k) + 1) * p ∨
      m * 2 ^ k % 2 = 0 ∧ 2 * n = (2 * (m * 2 ^ k) + 1) * p) :
    n * 4 < (4 * m + 2) * (p * 2 ^ k) ∨ m % 2 = 0 ∧ n * 4 = (4 * m + 2) * (p * 2 ^ k) := by
  cases k with
  | zero =>
    rw [pow_zero, Nat.mul_one, Nat.add_mul, Nat.mul_assoc] at h
    rw [pow_zero, Nat.mul_one, Nat.add_mul, Nat.mul_assoc]
    omega
  | succ k =>
    have hq : p ≤ p * 2 ^ k := Nat.le_mul_of_pos_right p (Nat.two_pow_pos k)
    have hle : 2 * n ≤ 4 * (m * (p * 2 ^ k)) + p := by
      have hform : (2 * (m * 2 ^ (k + 1)) + 1) * p = 4 * (m * (p * 2 ^ k)) + p := by ring
      omega
    have hform : (4 * m + 2) * (p * 2 ^ (k + 1)) = 8 * (m * (p * 2 ^ k)) + 4 * (p * 2 ^ k) := by
      ring
    omega

theorem above_lower (hm : 0 < m) (hp : 0 < p) (k : Nat)
    (h : 2 * (m * 2 ^ k) * p < 2 * n + p ∨
      m * 2 ^ k % 2 = 0 ∧ 2 * (m * 2 ^ k) * p = 2 * n + p) :
    (4 * m - 2) * (p * 2 ^ k) < n * 4 ∨ m % 2 = 0 ∧ n * 4 = (4 * m - 2) * (p * 2 ^ k) := by
  rw [Nat.sub_mul]
  cases k with
  | zero =>
    have hmp : p ≤ m * p := Nat.le_mul_of_pos_left p hm
    rw [pow_zero, Nat.mul_one, Nat.mul_assoc] at h
    rw [pow_zero, Nat.mul_one, Nat.mul_assoc]
    omega
  | succ k =>
    have hq : p ≤ p * 2 ^ k := Nat.le_mul_of_pos_right p (Nat.two_pow_pos k)
    have hmq : p * 2 ^ k ≤ m * (p * 2 ^ k) := Nat.le_mul_of_pos_left _ hm
    have hle : 4 * (m * (p * 2 ^ k)) ≤ 2 * n + p := by
      have hform : 2 * (m * 2 ^ (k + 1)) * p = 4 * (m * (p * 2 ^ k)) := by ring
      omega
    have hform : 4 * m * (p * 2 ^ (k + 1)) = 8 * (m * (p * 2 ^ k)) := by ring
    have hform' : 2 * (p * 2 ^ (k + 1)) = 4 * (p * 2 ^ k) := by ring
    omega

/-- Below a power of two the last bit is worth half as much. -/
theorem above_lower_narrow (hp : 0 < p) (k : Nat) (hm : m % 2 = 0) (hn : m * p ≤ n)
    (h : 2 * (m * 2 ^ k) * p ≤ 2 * n + p) :
    (4 * m - 1) * (p * 2 ^ k) < n * 4 ∨ m % 2 = 0 ∧ n * 4 = (4 * m - 1) * (p * 2 ^ k) := by
  rw [Nat.sub_mul]
  cases k with
  | zero =>
    rw [pow_zero, Nat.mul_one, Nat.mul_assoc]
    omega
  | succ k =>
    have hq : p ≤ p * 2 ^ k := Nat.le_mul_of_pos_right p (Nat.two_pow_pos k)
    have hform : 2 * (m * 2 ^ (k + 1)) * p = 4 * (m * (p * 2 ^ k)) := by ring
    have hform' : 4 * m * (p * 2 ^ (k + 1)) = 8 * (m * (p * 2 ^ k)) := by ring
    have hform'' : 1 * (p * 2 ^ (k + 1)) = 2 * (p * 2 ^ k) := by ring
    omega

end Halves

section Integers

variable {x : Binary} {n : Nat}

/-- A wide integer has lost its spare bits, and perhaps one more that had come in. -/
theorem exists_shift {m : Nat} {e : Int} (full : Full m) (hn : 2 ^ 52 ≤ n)
    (hsize : size m e = nearestNat n) :
    ∃ k : Nat, e = (spareBits n + k : Nat) ∧ m * 2 ^ k = halfEven n (spareBits n) := by
  have hnearest : (nearestNat n : ℚ) = halfEven n (spareBits n) * 2 ^ spareBits n := by
    rw [nearestNat]
    push_cast
    rfl
  have hle : (spareBits n : Int) ≤ e := by
    by_contra hlt
    have hless : size m e < size (2 ^ 52) (spareBits n) :=
      size_lt_of_lt full ⟨le_rfl, by decide⟩ (by omega)
    have hwide : size (2 ^ 52) (spareBits n) ≤ nearestNat n := by
      rw [hnearest, size, zpow_natCast]
      refine mul_le_mul_of_nonneg_right ?_ (by positivity)
      exact_mod_cast (halfEven_spareBits hn).1
    linarith
  obtain ⟨k, rfl⟩ := Int.le.dest hle
  refine ⟨k, by push_cast; rfl, ?_⟩
  have hpow : (0 : ℚ) < 2 ^ spareBits n := by positivity
  rw [hnearest, size, zpow_add₀ two_ne_zero, zpow_natCast, zpow_natCast] at hsize
  have hcancel : (m : ℚ) * 2 ^ k = halfEven n (spareBits n) :=
    mul_right_cancel₀ hpow.ne' (by rw [← hsize]; ring)
  exact_mod_cast hcancel

/-- The ends of a number that lies on the grid of the integers' halves. -/
theorem quarters_eq (q : Nat) {e : Int} {j : Nat} (he : e = j) :
    (q : ℚ) * 2 ^ (e - 2) = (q * 2 ^ j : Nat) / 4 := by
  rw [he, zpow_sub₀ two_ne_zero, zpow_natCast]
  push_cast
  ring

/-- The nearest float and the integer are at most half of the last bit apart. -/
theorem readsBack_nearestNat (hx : x.Normal) (full : Full x.mantissa)
    (hsize : size x.mantissa x.exponent = nearestNat n) : readsBack x ⟨n, 0⟩ = true := by
  have hvalue : value ⟨n, 0⟩ = n := by simp [value]
  rw [readsBack_iff, hvalue]
  by_cases hspare : spareBits n = 0
  · -- nothing is rounded away
    have hexact : nearestNat n = n := by
      rw [nearestNat, hspare, halfEven_zero, pow_zero, Nat.mul_one]
    rw [hexact] at hsize
    obtain ⟨hl, hu⟩ := Binary.lower_lt_upper hx n hsize.symm
    exact ⟨.inl hl, .inl hu⟩
  have hlog : n.log2 = 52 + spareBits n := by
    rw [spareBits] at hspare ⊢
    omega
  have hpos : n ≠ 0 := by
    rintro rfl
    exact hspare rfl
  have hwide : 2 ^ (52 + spareBits n) ≤ n := hlog ▸ Nat.log2_self_le hpos
  obtain ⟨k, he, hm⟩ := exists_shift full
    ((Nat.pow_le_pow_right two_pos (Nat.le_add_right _ _)).trans hwide) hsize
  obtain ⟨hupper, hlower⟩ := halfEven_near n (spareBits n)
  rw [Binary.lower, Binary.upper, quarters_eq _ he, quarters_eq _ he, lt_div_iff₀ four_pos,
    div_lt_iff₀ four_pos, eq_div_iff four_ne_zero, eq_div_iff four_ne_zero]
  norm_cast
  rw [Nat.pow_add, Binary.upperQuarters, Binary.lowerQuarters]
  rw [← hm] at hupper hlower
  have hp : 0 < 2 ^ spareBits n := Nat.two_pow_pos _
  refine ⟨?_, below_upper hp k hupper⟩
  split_ifs with hnarrow
  · have hmin := (hx.narrow.mp hnarrow).1
    refine above_lower_narrow hp k (by omega) ?_ ?_
    · rwa [hmin, ← Nat.pow_add]
    · exact hlower.elim Nat.le_of_lt fun h => h.2.le
  · exact above_lower hx.pos hp k hlower

end Integers

/-! ## The float of an integer -/

section Stands

variable {x : Float} {i : Int}

/-- A float that stands for the nearest integer has its sign and a size that reads back. -/
theorem denotes_of_stands (h : Stands x.toModel.unpack (nearest i)) (hi : i ≠ 0) :
    Denotes i.natAbs x ∧ isNegative x = decide (i < 0) := by
  obtain ⟨s, m, e, hm, hunpack, full, hsize, hsign⟩ :=
    h.exists_finite (mt (nearest_eq_zero_iff i).mp hi)
  obtain ⟨hmantissa, hexponent, hneg⟩ := ofBits_of_unpack hunpack full
  have hx : ¬(x == 0) = true := by
    show ¬(x.toModel.unpack.compare (.zero .positive) == some .eq) = true
    rw [hunpack]
    cases s <;> exact Bool.false_ne_true
  constructor
  · rw [Denotes, if_neg hx]
    refine ⟨⟨i.natAbs, 0⟩, by simp [value], readsBack_nearestNat (normal_of_ne_zero hx) ?_ ?_⟩
    · rwa [hmantissa]
    · rw [hmantissa, hexponent, hsize, natAbs_nearest]
  · rw [Bool.eq_iff_iff, hneg, hsign, nearest_neg_iff, decide_eq_true_iff]

theorem denotes_ofInt (hi : i.natAbs < 2 ^ 128) :
    Denotes i.natAbs (Float.ofInt i) ∧ isNegative (Float.ofInt i) = decide (i < 0) := by
  by_cases h : i = 0
  · subst h
    have hzero : (Float.ofInt 0 == 0) = true := rfl
    exact ⟨(if_pos hzero).mpr (by simp), rfl⟩
  · exact denotes_of_stands (stands_ofInt hi) h

/-- **The text of an integer spells the nearest float.** -/
theorem spells_toString (hi : i.natAbs < 2 ^ 128) : Spells (toString i).toList (Float.ofInt i) := by
  obtain ⟨hdenotes, hneg⟩ := denotes_ofInt hi
  have htext : (toString i).toList =
      signed (Float.ofInt i) (Nat.toDigits 10 i.natAbs ++ []) := by
    rw [signed, hneg, List.append_nil]
    cases i with
    | ofNat n =>
      rw [if_neg (by simp)]
      exact Number.toString_natCast n
    | negSucc n =>
      rw [Number.toString_negSucc, if_pos (decide_eq_true (Int.negSucc_lt_zero n))]
      rfl
  refine ⟨_, ?_, hdenotes⟩
  rw [htext, Says, Json.Numeral.ofSpelling_signed _ (fun c hc => isDigit_of_mem_toDigits hc)
    Nat.toDigits_ne_nil rfl]
  exact ⟨rfl, by simp [Json.Numeral.size, Json.Numeral.placesOf, Json.Numeral.exponentOf?]⟩

/-- The size of an integer becomes the size of its float. -/
theorem abs_ofInt (hi : i.natAbs < 2 ^ 128) : (Float.ofInt i).abs = Float.ofInt i.natAbs := by
  by_cases h : i = 0
  · subst h
    rfl
  have hstands := (stands_ofInt hi).abs
  have habs : Stands (Float.ofInt i).abs.toModel.unpack (nearest i.natAbs) := by
    rw [natAbs_nearest] at hstands
    show Stands (Float.Model.pack (Float.ofInt i).toModel.unpack.abs).unpack _
    rw [hstands.unpack_pack]
    exact hstands
  have hsize : (i.natAbs : Int) ≠ 0 := by omega
  obtain ⟨hdenotes, hneg⟩ := denotes_of_stands habs hsize
  obtain ⟨hdenotes', hneg'⟩ := denotes_of_stands (stands_ofInt (i := i.natAbs) hi) hsize
  exact eq_of_denotes (hneg.trans hneg'.symm) hdenotes hdenotes'

end Stands

/-! ## The text of a float -/

/-- **The SQL text of a float spells it**, unless it is infinite. -/
theorem spells_sql {x : Float} (hx : x.isInf = false) : Spells (sql x) x := by
  rw [sql, if_neg (by simp [hx])]
  split
  · next hzero =>
    refine spells_zero x ?_ hzero
    rw [← List.append_nil ['0'], Says, Json.Numeral.ofSpelling_signed x (List.all_eq_true.mp rfl)
      (by decide) rfl]
    refine ⟨rfl, ?_⟩
    simp [Json.Numeral.size, Json.Numeral.placesOf, Json.digitsValue, Json.digitValue]
  · next hzero =>
    refine spells_shortest .up x hzero ?_
    have hback := readsBack_shortest .up (normal_of_ne_zero hzero)
    have hpos := pos_of_readsBack (normal_of_ne_zero hzero) hback
    generalize shortest .up (Binary.ofBits x.toBits) = d at hpos
    rw [value_eq_significant]
    exact says_positional x (.inl rfl) (fun c hc => isDigit_of_mem_significant hc)
      (significant_ne_nil hpos) _

end Decimal

end QueryPlan
