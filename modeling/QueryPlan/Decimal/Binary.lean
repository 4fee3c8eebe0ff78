/-!
# The exact size of a binary64 number

A finite binary64 number is a sign and a size `mantissa * 2 ^ exponent`.  The decimal texts of a
number depend on this size and on the interval of reals that round to it, so both are read off the
bits here, in exact integers.
-/

set_option autoImplicit false

namespace QueryPlan.Decimal

/-- Powers as the core library has them.  Another library may bring powers of its own, and what is
meant here must not depend on that. -/
@[reducible]
def corePow (α : Type) [NatPow α] : Pow α Nat := instPowNat

attribute [local instance] corePow

/-- The size of a finite binary64 number: `mantissa * 2 ^ exponent`. -/
structure Binary where
  mantissa : Nat
  exponent : Int
  /-- The number below is only half as far away as the number above. -/
  narrowBelow : Bool
deriving DecidableEq

namespace Binary

/-- The size held by the lower 63 bits of a finite number.  The top 11 of them are the biased
exponent; the number just above a power of two's predecessor has the narrow gap below it. -/
def ofBits (bits : UInt64) : Binary :=
  let biased : Nat := bits.toNat / 2 ^ (52 : Nat) % 2 ^ (11 : Nat)
  let fraction : Nat := bits.toNat % 2 ^ (52 : Nat)
  if biased = 0 then ⟨fraction, -1074, false⟩
  else ⟨2 ^ (52 : Nat) + fraction, (biased : Int) - 1075, decide (fraction = 0 ∧ 1 < biased)⟩

/-- The size as a fraction: its numerator. -/
def num (x : Binary) : Nat := x.mantissa * 2 ^ x.exponent.toNat

/-- The size as a fraction: its denominator, a power of two. -/
def den (x : Binary) : Nat := 2 ^ (-x.exponent).toNat

/-- The lower end of the reals that round to this size, in quarters of `2 ^ exponent`. -/
def lowerQuarters (x : Binary) : Nat :=
  if x.narrowBelow then 4 * x.mantissa - 1 else 4 * x.mantissa - 2

/-- The upper end of the reals that round to this size, in quarters of `2 ^ exponent`. -/
def upperQuarters (x : Binary) : Nat := 4 * x.mantissa + 2

end Binary

/-- Whether the sign of a binary64 number is set; `-0.0` has it. -/
def isNegative (x : Float) : Bool := decide (2 ^ (63 : Nat) ≤ x.toBits.toNat)

end QueryPlan.Decimal
