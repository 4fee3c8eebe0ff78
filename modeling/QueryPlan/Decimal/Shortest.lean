import QueryPlan.Decimal.Binary

/-!
# The fewest digits that read back

Every real in a small interval around a binary64 number rounds to that number.  `shortest` gives
the decimal with the fewest digits in that interval, and of several with equally few the one
nearest to the number.

It looks at one grid of decimals after another, the multiples of `10 ^ exp` for smaller and smaller
`exp`, beginning with one digit.  On a grid only the two neighbours of the number can be nearest,
so only those are tested, by exact comparison of integers.  The first grid with a hit wins.  Two
hits at the same distance are a tie, and which of them is written is a choice of the format.
-/

set_option autoImplicit false

namespace QueryPlan

/-- The decimal number `digits * 10 ^ exp`. -/
structure Decimal where
  digits : Nat
  exp : Int
deriving DecidableEq

namespace Decimal

attribute [local instance] corePow

/-- Which of two equally near decimals is taken. -/
inductive Tie where
  | up
  | even
deriving DecidableEq

/-- Compares `d` with `quarters * 2 ^ (exponent - 2)` by cross-multiplication. -/
def compareQuarters (d : Decimal) (quarters : Nat) (exponent : Int) : Ordering :=
  compare (d.digits * 10 ^ d.exp.toNat * 4 * 2 ^ (-exponent).toNat)
    (quarters * 2 ^ exponent.toNat * 10 ^ (-d.exp).toNat)

/-- Whether `d` lies among the reals that round to `x`.  The ends round to an even mantissa. -/
def readsBack (x : Binary) (d : Decimal) : Bool :=
  let lower := compareQuarters d x.lowerQuarters x.exponent
  let upper := compareQuarters d x.upperQuarters x.exponent
  let ends := x.mantissa % 2 == 0
  (lower == .gt || (ends && lower == .eq)) && (upper == .lt || (ends && upper == .eq))

/-- How many decimal digits a natural number has. -/
def width (n : Nat) : Nat := (Nat.toDigits 10 n).length

/-- The position of the point of `x` before its leading digit: the least `k` with `x < 10 ^ k`.
Every size is at least `10 ^ -400`, so the digits of `x * 10 ^ 400` can be counted instead. -/
def pointOf (x : Binary) : Int := (width (x.num * 10 ^ (400 : Nat) / x.den) : Int) - 400

/-- The size `x` divided by `10 ^ exp`, as numerator and denominator. -/
def onGrid (x : Binary) (exp : Int) : Nat × Nat :=
  (x.num * 10 ^ (-exp).toNat, x.den * 10 ^ exp.toNat)

/-- Of the neighbours `f` and `f + 1` of `num / den`, the nearer one, a tie going by the rule. -/
def nearer (tie : Tie) (num den f : Nat) : Nat :=
  match compare (2 * num) ((2 * f + 1) * den) with
  | .lt => f
  | .gt => f + 1
  | .eq => match tie with
    | .up => f + 1
    | .even => if f % 2 = 0 then f else f + 1

/-- The decimal chosen on the grid of multiples of `10 ^ exp`, if one of the two neighbours of `x`
on it reads back. -/
def onGrid? (tie : Tie) (x : Binary) (exp : Int) : Option Decimal :=
  let (num, den) := onGrid x exp
  let f := num / den
  match readsBack x ⟨f, exp⟩, readsBack x ⟨f + 1, exp⟩ with
  | true, true => some ⟨nearer tie num den f, exp⟩
  | true, false => some ⟨f, exp⟩
  | false, true => some ⟨f + 1, exp⟩
  | false, false => none

/-- The exact value of `x` in decimal. -/
def exact (x : Binary) : Decimal :=
  if 0 ≤ x.exponent then ⟨x.num, 0⟩ else ⟨x.mantissa * 5 ^ (-x.exponent).toNat, x.exponent⟩

/-- The decimal with the fewest digits among those that read back to `x`, and of these the
nearest.  Seventeen digits are enough for every binary64 number. -/
def shortest (tie : Tie) (x : Binary) : Decimal :=
  let point := pointOf x
  match (List.range 17).findSome? (fun i => onGrid? tie x (point - (i + 1 : Nat))) with
  | some d => d
  | none => exact x

/-- What is chosen on a grid reads back. -/
theorem readsBack_of_onGrid? {tie : Tie} {x : Binary} {exp : Int} {d : Decimal}
    (h : onGrid? tie x exp = some d) : readsBack x d = true := by
  simp only [onGrid?] at h
  split at h
  · next h₁ h₂ =>
    injection h with h
    subst h
    unfold nearer
    split
    · exact h₁
    · exact h₂
    · cases tie
      · exact h₂
      · by_cases hf : (onGrid x exp).1 / (onGrid x exp).2 % 2 = 0
        · simpa [hf] using h₁
        · simpa [hf] using h₂
  · next h₁ _ => injection h with h; subst h; exact h₁
  · next _ h₂ => injection h with h; subst h; exact h₂
  · cases h

end Decimal

end QueryPlan
