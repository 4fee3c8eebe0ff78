import QueryPlan.Decimal.Layout

/-!
# Numbers in cells

A cell holds an integer or a finite binary64 number, and keeps which of the two it is: the integer
2 and the float 2.0 are different values that compare as equal.  Two numbers are compared as
binary64 numbers, whatever they are.
-/

set_option autoImplicit false

namespace QueryPlan

/-- A number in a cell.  Cells read from outside hold integers from `-2 ^ 63` to `2 ^ 64 - 1`. -/
inductive Number where
  | int (i : Int)
  | float (f : Float) (finite : f.isFinite = true)
deriving DecidableEq

namespace Number

attribute [local instance] Decimal.corePow

/-- A binary64 number as a cell holds it; infinities and the number that is none are not held. -/
def ofFloat? (f : Float) : Option Number :=
  if h : f.isFinite = true then some (float f h) else none

/-- The nearest binary64 number. -/
def toFloat : Number → Float
  | int i => Float.ofInt i
  | float f _ => f

/-- Whether an integer fits a signed word of 64 bits. -/
def fitsWord (i : Int) : Bool := decide (-2 ^ (63 : Nat) ≤ i ∧ i < 2 ^ (63 : Nat))

/-- The integer of a number that is one and fits a signed word. -/
def word? : Number → Option Int
  | int i => if fitsWord i then some i else none
  | float _ _ => none

/-- Only an integer that fits a signed word has one. -/
theorem eq_of_word? {n : Number} {i : Int} (h : n.word? = some i) :
    n = int i ∧ fitsWord i = true := by
  cases n with
  | int j =>
    obtain ⟨hfits, hij⟩ := Option.ite_none_right_eq_some.mp h
    obtain rfl := Option.some.inj hij
    exact ⟨rfl, hfits⟩
  | float f _ => cases h

/-- The signed word of 64 bits that an integer wraps around to. -/
def wrap (i : Int) : Int := i.bmod (2 ^ (64 : Nat))

theorem wrap_of_fitsWord {i : Int} (h : fitsWord i = true) : wrap i = i := by
  rw [fitsWord, decide_eq_true_eq] at h
  exact Int.bmod_eq_of_le (by omega) (by omega)

/-- How two binary64 numbers compare; the two zeros are equal. -/
def orderOfFloats (x y : Float) : Ordering :=
  if x < y then .lt else if x == y then .eq else .gt

/-- How two numbers compare. -/
def order (a b : Number) : Ordering := orderOfFloats a.toFloat b.toFloat

/-- The text of a number in JSON. -/
def text : Number → List Char
  | int i => (toString i).toList
  | float f _ => Decimal.json f

end Number

end QueryPlan
