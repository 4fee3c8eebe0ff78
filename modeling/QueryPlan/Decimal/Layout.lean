import QueryPlan.Decimal.Shortest

/-!
# The two written forms of a binary64 number

SQL text writes a number with all its places and no exponent, JSON text keeps at least one place
and turns to an exponent for the very large and the very small.  Both write the fewest digits that
read back.
-/

set_option autoImplicit false

namespace QueryPlan.Decimal

/-- The significant digits of a decimal: no zero at the end. -/
def significant (d : Decimal) : List Char :=
  ((Nat.toDigits 10 d.digits).reverse.dropWhile (· == '0')).reverse

/-- Where the point stands, counted from before the first digit. -/
def point (d : Decimal) : Int := (width d.digits : Int) + d.exp

/-- The digits with all their places; `whole` follows a number without places. -/
def positional (whole : List Char) (digits : List Char) (point : Int) : List Char :=
  if point ≤ 0 then '0' :: '.' :: (List.replicate (-point).toNat '0' ++ digits)
  else if digits.length ≤ point.toNat then
    digits ++ List.replicate (point.toNat - digits.length) '0' ++ whole
  else digits.take point.toNat ++ '.' :: digits.drop point.toNat

/-- One digit before the point, and an exponent that always has its sign. -/
def scientific (digits : List Char) (point : Int) : List Char :=
  let places := match digits.drop 1 with
    | [] => []
    | rest => '.' :: rest
  let exponent := point - 1
  digits.take 1 ++ places ++ 'e' :: (if exponent < 0 then '-' else '+') ::
    Nat.toDigits 10 exponent.natAbs

/-- A sign in front of the text of the size. -/
def signed (x : Float) (size : List Char) : List Char :=
  if isNegative x then '-' :: size else size

/-- The text of a number in SQL: all places, no exponent, no point after a whole number.  Of two
equally near decimals the upper is taken. -/
def sql (x : Float) : List Char :=
  if x.isInf then signed x ['i', 'n', 'f']
  else if x == 0 then signed x ['0']
  else
    let d := shortest .up (Binary.ofBits x.toBits)
    signed x (positional [] d.significant d.point)

/-- The text of a finite number in JSON: at least one place, and an exponent below `10 ^ -5` and
from `10 ^ 16` on.  Of two equally near decimals the even one is taken. -/
def json (x : Float) : List Char :=
  if x == 0 then signed x ['0', '.', '0']
  else
    let d := shortest .even (Binary.ofBits x.toBits)
    let exponent := d.point - 1
    signed x (if -5 ≤ exponent ∧ exponent < 16 then
      positional ['.', '0'] d.significant d.point
    else scientific d.significant d.point)

end QueryPlan.Decimal
