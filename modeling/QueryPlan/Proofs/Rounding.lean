import Mathlib.Algebra.Order.Field.Rat
import Mathlib.Algebra.Order.Ring.Unbundled.Basic
import Mathlib.Tactic.FieldSimp
import Mathlib.Tactic.Linarith
import Mathlib.Tactic.Positivity
import Mathlib.Tactic.Ring
import QueryPlan.Decimal.Shortest

/-!
# Rounding intervals do not meet

A decimal that reads back to a binary64 number reads back to no other (`eq_of_readsBack`): the reals
that round to a number form an interval, two neighbouring intervals share an end at most, and of
the two mantissas there only one is even.  `shortest` always gives a decimal that reads back
(`readsBack_shortest`), so it tells any two numbers apart.
-/

set_option autoImplicit false

namespace QueryPlan.Decimal

/-! ## Sizes as fractions -/

/-- The size of a decimal. -/
def value (d : Decimal) : ℚ := d.digits * (10 : ℚ) ^ d.exp

/-- A power with an exponent of either sign as a fraction of two powers. -/
theorem zpow_eq_div {a : ℚ} (n : ℤ) :
    a ^ n = a ^ n.toNat / a ^ (-n).toNat := by
  cases n with
  | ofNat n => simp
  | negSucc n => rw [Int.neg_negSucc]; simp [zpow_negSucc]

/-- Comparing by cross-multiplication compares sizes. -/
theorem compareQuarters_eq (d : Decimal) (quarters : Nat) (exponent : ℤ) :
    compareQuarters d quarters exponent =
      compare d.value (quarters * (2 : ℚ) ^ (exponent - 2)) := by
  have hpos : (0 : ℚ) < 10 ^ (-d.exp).toNat * 2 ^ (-exponent).toNat * 4 := by positivity
  have hcast : compareQuarters d quarters exponent =
      cmp ((d.digits * 10 ^ d.exp.toNat * 4 * 2 ^ (-exponent).toNat : ℕ) : ℚ)
        (quarters * 2 ^ exponent.toNat * 10 ^ (-d.exp).toNat : ℕ) := by
    rw [Nat.strictMono_cast.cmp_map_eq, cmp_eq_compare]
    rfl
  rw [hcast, ← cmp_eq_compare]
  refine Eq.trans ?_ (cmp_mul_pos_right hpos _ _)
  congr 1
  · rw [value, zpow_eq_div]
    push_cast
    field_simp
  · rw [zpow_sub₀ two_ne_zero, zpow_eq_div]
    push_cast
    field_simp

namespace Binary

/-- The lower end of the reals that round to a number. -/
def lower (x : Binary) : ℚ := x.lowerQuarters * (2 : ℚ) ^ (x.exponent - 2)

/-- The upper end of the reals that round to a number. -/
def upper (x : Binary) : ℚ := x.upperQuarters * (2 : ℚ) ^ (x.exponent - 2)

/-- The form in which the bits give a number: the mantissa has its full width, unless the exponent
is the least. -/
structure Normal (x : Binary) : Prop where
  pos : 0 < x.mantissa
  lt : x.mantissa < 2 ^ 53
  least : -1074 ≤ x.exponent
  full : -1074 < x.exponent → 2 ^ 52 ≤ x.mantissa
  narrow : x.narrowBelow = true ↔ x.mantissa = 2 ^ 52 ∧ -1074 < x.exponent

end Binary

/-- What reads back lies between the ends, and is an end only for an even mantissa. -/
theorem readsBack_iff (x : Binary) (d : Decimal) : readsBack x d = true ↔
    (x.lower < d.value ∨ x.mantissa % 2 = 0 ∧ d.value = x.lower) ∧
      (d.value < x.upper ∨ x.mantissa % 2 = 0 ∧ d.value = x.upper) := by
  simp only [readsBack, compareQuarters_eq, Binary.lower, Binary.upper, Bool.and_eq_true,
    Bool.or_eq_true, beq_iff_eq, compare_lt_iff_lt, compare_gt_iff_gt, compare_eq_iff_eq]

/-! ## Two intervals -/

namespace Binary

variable {x y : Binary}

theorem lower_lt_upper (hx : x.Normal) (v : ℚ)
    (hv : v = x.mantissa * (2 : ℚ) ^ x.exponent) : x.lower < v ∧ v < x.upper := by
  have hpos := hx.pos
  have hunit : (0 : ℚ) < 2 ^ (x.exponent - 2) := zpow_pos two_pos _
  have hquarters : v = (4 * x.mantissa : ℕ) * (2 : ℚ) ^ (x.exponent - 2) := by
    rw [hv, zpow_sub₀ two_ne_zero]
    push_cast
    ring
  rw [hquarters, lower, upper, mul_lt_mul_iff_left₀ hunit, mul_lt_mul_iff_left₀ hunit,
    Nat.cast_lt, Nat.cast_lt, lowerQuarters, upperQuarters]
  split <;> omega

/-- Where two numbers have one exponent, the interval of the greater begins where that of the
smaller ends, or after it; at a common end only one mantissa is even. -/
theorem upper_le_lower_of_eq (he : x.exponent = y.exponent) (hm : x.mantissa < y.mantissa) :
    x.upper ≤ y.lower ∧ (x.upper = y.lower → x.mantissa % 2 = 0 → y.mantissa % 2 = 1) := by
  have hunit : (0 : ℚ) < 2 ^ (y.exponent - 2) := zpow_pos two_pos _
  rw [upper, lower, he, mul_le_mul_iff_left₀ hunit, mul_left_inj' hunit.ne', Nat.cast_le,
    Nat.cast_inj, lowerQuarters, upperQuarters]
  split <;> omega

/-- The same where the exponents differ: then the mantissa below the common end is odd. -/
theorem upper_le_lower_of_lt (hx : x.Normal) (hy : y.Normal) (he : x.exponent < y.exponent) :
    x.upper ≤ y.lower ∧ (x.upper = y.lower → x.mantissa % 2 = 1) := by
  obtain ⟨k, hk⟩ : ∃ k : ℕ, y.exponent = x.exponent + 1 + k :=
    ⟨(y.exponent - x.exponent - 1).toNat, by omega⟩
  have hunit : (0 : ℚ) < 2 ^ (x.exponent - 2) := zpow_pos two_pos _
  have hpow : (2 : ℚ) ^ (y.exponent - 2) = (2 * 2 ^ k : ℕ) * 2 ^ (x.exponent - 2) := by
    rw [hk, show x.exponent + 1 + k - 2 = x.exponent - 2 + 1 + k by ring,
      zpow_add₀ two_ne_zero, zpow_add₀ two_ne_zero, zpow_natCast]
    push_cast
    ring
  have hfull := hy.full (lt_of_le_of_lt hx.least he)
  have hlt := hx.lt
  have hquarters : 2 ^ 54 - 1 ≤ y.lowerQuarters := by
    rw [lowerQuarters]
    split
    · omega
    · next hnarrow =>
      have : y.mantissa ≠ 2 ^ 52 := fun h =>
        hnarrow (hy.narrow.mpr ⟨h, lt_of_le_of_lt hx.least he⟩)
      omega
  have hstep : y.lowerQuarters * 2 ≤ y.lowerQuarters * (2 * 2 ^ k) :=
    Nat.mul_le_mul_left _ (Nat.le_mul_of_pos_right 2 (Nat.two_pow_pos k))
  rw [upper, lower, hpow, ← mul_assoc, ← Nat.cast_mul, mul_le_mul_iff_left₀ hunit,
    mul_left_inj' hunit.ne', Nat.cast_le, Nat.cast_inj, upperQuarters]
  omega

end Binary

/-- **A decimal reads back to one number only.** -/
theorem eq_of_readsBack {x y : Binary} {d e : Decimal} (hx : x.Normal) (hy : y.Normal)
    (hd : readsBack x d = true) (he : readsBack y e = true) (hde : d.value = e.value) :
    x.mantissa = y.mantissa ∧ x.exponent = y.exponent := by
  rw [readsBack_iff] at hd he
  rw [← hde] at he
  -- of two numbers with intervals one after the other only one has the common end
  have hapart {a b : Binary} {v : ℚ} (h : a.upper ≤ b.lower)
      (hends : a.upper = b.lower → a.mantissa % 2 = 0 → b.mantissa % 2 = 1)
      (ha : v < a.upper ∨ a.mantissa % 2 = 0 ∧ v = a.upper)
      (hb : b.lower < v ∨ b.mantissa % 2 = 0 ∧ v = b.lower) : False := by
    rcases ha with ha | ⟨haeven, ha⟩
    · rcases hb with hb | ⟨-, hb⟩ <;> linarith
    · rcases hb with hb | ⟨hbeven, hb⟩
      · linarith
      · have := hends (ha.symm.trans hb) haeven
        omega
  rcases lt_trichotomy x.exponent y.exponent with hexp | hexp | hexp
  · obtain ⟨h, hodd⟩ := Binary.upper_le_lower_of_lt hx hy hexp
    exact (hapart h (fun heq heven => by have := hodd heq; omega) hd.2 he.1).elim
  · rcases lt_trichotomy x.mantissa y.mantissa with hm | hm | hm
    · obtain ⟨h, hends⟩ := Binary.upper_le_lower_of_eq hexp hm
      exact (hapart h hends hd.2 he.1).elim
    · exact ⟨hm, hexp⟩
    · obtain ⟨h, hends⟩ := Binary.upper_le_lower_of_eq hexp.symm hm
      exact (hapart h hends he.2 hd.1).elim
  · obtain ⟨h, hodd⟩ := Binary.upper_le_lower_of_lt hy hx hexp
    exact (hapart h (fun heq heven => by have := hodd heq; omega) he.2 hd.1).elim

/-! ## The shortest decimal -/

theorem value_exact (x : Binary) : (exact x).value = x.mantissa * (2 : ℚ) ^ x.exponent := by
  rw [exact]
  split
  · next h =>
    obtain ⟨n, hn⟩ := Int.eq_ofNat_of_zero_le h
    simp [value, Binary.num, hn]
  · next h =>
    obtain ⟨n, hn⟩ : ∃ n : ℕ, x.exponent = -n := ⟨(-x.exponent).toNat, by omega⟩
    have hten : (10 : ℚ) ^ n = 5 ^ n * 2 ^ n := by rw [← mul_pow]; norm_num
    simp only [value, hn, neg_neg, Int.toNat_natCast, zpow_neg, zpow_natCast, hten]
    push_cast
    field_simp

-- the equation at arguments would make the kernel evaluate the search, and with it `10 ^ 400`
theorem shortest_eq : shortest = fun tie x => (let point := pointOf x
    match (List.range 17).findSome? (fun i => onGrid? tie x (point - (i + 1 : ℕ))) with
    | some d => d
    | none => exact x) := rfl

/-- **The shortest decimal reads back.** -/
theorem readsBack_shortest (tie : Tie) {x : Binary} (hx : x.Normal) :
    readsBack x (shortest tie x) = true := by
  rw [shortest_eq]
  generalize pointOf x = point
  dsimp only
  split
  · next d hd =>
    obtain ⟨i, -, hi⟩ := List.exists_of_findSome?_eq_some hd
    exact readsBack_of_onGrid? hi
  · obtain ⟨hl, hu⟩ := Binary.lower_lt_upper hx _ (value_exact x)
    exact (readsBack_iff x _).mpr ⟨.inl hl, .inl hu⟩

/-- What reads back to a number that is not zero is not zero. -/
theorem pos_of_readsBack {x : Binary} {d : Decimal} (hx : x.Normal) (hd : readsBack x d = true) :
    0 < d.value := by
  have hpos := hx.pos
  have hlower : 0 < x.lower := by
    refine mul_pos (Nat.cast_pos.mpr ?_) (zpow_pos two_pos _)
    rw [Binary.lowerQuarters]
    split <;> omega
  rcases ((readsBack_iff x d).mp hd).1 with h | ⟨-, h⟩ <;> linarith

end QueryPlan.Decimal
