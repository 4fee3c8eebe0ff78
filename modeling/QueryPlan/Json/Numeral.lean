import QueryPlan.Json.Reader
import QueryPlan.Number

/-!
# The number that a spelling stands for

A spelling without point and exponent stands for an integer, if the integer fits 64 bits, signed
below zero and unsigned from zero on.  Every other spelling stands for a binary64 number: the
leading digits that fit 64 bits make an integer, and that is scaled by a power of ten in one
multiplication or division.  So a long spelling may miss the nearest binary64 number by a little;
one beyond the largest has no value.

This stands for how the serializer, a library outside this project, reads numbers.  It is documented
to keep integers of 64 bits as they are and, unless it is built for that, not to read fractions to
the last place; the functions here take the steps that it takes then.
-/

set_option autoImplicit false

namespace QueryPlan.Json

attribute [local instance] Decimal.corePow

/-- The value of a decimal digit. -/
def digitValue (c : Char) : Nat := c.toNat - 48

/-- Appends digits to a number as long as it stays below `2 ^ 64`, and counts those appended. -/
def absorb (n : Nat) : List Char → Nat × Nat
  | [] => (n, 0)
  | c :: rest =>
    let next := n * 10 + digitValue c
    if next < 2 ^ (64 : Nat) then
      let (result, count) := absorb next rest
      (result, count + 1)
    else (n, 0)

/-- The number written by digits. -/
def digitsValue (digits : List Char) : Nat := digits.foldl (fun n c => n * 10 + digitValue c) 0

/-- The binary64 number nearest to a power of ten. -/
def tenTo (k : Nat) : Float := Float.ofScientific 1 false k

/-- Division by `10 ^ k`, in steps of at most `10 ^ 308`. -/
def scaleDown (f : Float) (k : Nat) : Float :=
  if k ≤ 308 then f / tenTo k
  else if f == 0 then f
  else scaleDown (f / tenTo 308) (k - 308)
termination_by k

/-- The binary64 number `n * 10 ^ exponent`, unless that is too large. -/
def scale? (n : Nat) (exponent : Int) : Option Float :=
  let f := Float.ofNat n
  if exponent < 0 then some (scaleDown f exponent.natAbs)
  else if exponent ≤ 308 then
    let scaled := f * tenTo exponent.toNat
    if scaled.isInf then none else some scaled
  else if f == 0 then some f else none

/-- The parts of a spelling. -/
structure Numeral where
  negative : Bool
  whole : List Char
  /-- The places behind the point, if there is one. -/
  fraction : Option (List Char)
  /-- The exponent, if there is one. -/
  exponent : Option Int

namespace Numeral

/-- The exponent behind its mark. -/
def exponentOf : List Char → Int
  | '-' :: digits => -(digitsValue digits : Int)
  | '+' :: digits => digitsValue digits
  | digits => digitsValue digits

/-- Takes a well-formed spelling apart. -/
def ofSpelling (spelling : List Char) : Numeral :=
  let (negative, s) := match spelling with
    | '-' :: rest => (true, rest)
    | s => (false, s)
  let whole := s.takeWhile isDigit
  let s := s.dropWhile isDigit
  let (fraction, s) := match s with
    | '.' :: rest => (some (rest.takeWhile isDigit), rest.dropWhile isDigit)
    | s => (none, s)
  let exponent := match s with
    | _ :: rest => some (exponentOf rest)
    | [] => none
  { negative, whole, fraction, exponent }

/-- A size under a sign. -/
def signed (n : Numeral) (size : Float) : Float := if n.negative then -size else size

/-- The number that a numeral stands for. -/
def number? (n : Numeral) : Option Number :=
  let (leading, used) := absorb 0 n.whole
  let dropped := n.whole.length - used
  if n.fraction.isNone ∧ n.exponent.isNone ∧ dropped = 0 then
    if !n.negative then some (.int leading)
    else if leading = 0 ∨ 2 ^ (63 : Nat) < leading then Number.ofFloat? (-(Float.ofNat leading))
    else some (.int (-(leading : Int)))
  else do
    let (digits, places) := absorb leading (n.fraction.getD [])
    let size ← scale? digits ((dropped : Int) - places + n.exponent.getD 0)
    Number.ofFloat? (n.signed size)

end Numeral

/-- The number that a spelling stands for. -/
def number? : Json → Option Number
  | .num spelling => (Numeral.ofSpelling spelling).number?
  | _ => none

end QueryPlan.Json
