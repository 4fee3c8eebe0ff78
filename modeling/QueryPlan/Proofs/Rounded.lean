import QueryPlan.Proofs.Evaluation
import QueryPlan.Proofs.NumberText

/-!
# What an evaluator sees of a number

Comparisons and memberships look at numbers as floats, and so does all the rest of evaluating an
expression: where integers are replaced by their nearest floats, the answers are the same, and where
a number comes out it is the same up to this replacement (`Value.rounded`).

One integer cannot be replaced.  The size of the least word wraps around to that word, which is
below zero, and the size of its float is above.  So the least word stays as it is
(`Number.rounded_least`), and of any other number the size is that of its float
(`Value.rounded_size`).
-/

set_option autoImplicit false

namespace QueryPlan

/-- The least integer that fits a signed word. -/
def Number.least : Number := .int (-2 ^ 63)

/-- The number as the float that comparisons see.  An integer beyond all floats stays, and so does
the least word. -/
def Number.rounded (n : Number) : Number := if n = least then n else (ofFloat? n.toFloat).getD n

/-- A value with its number rounded. -/
def Value.rounded : Value → Value
  | num n => num n.rounded
  | v => v

namespace Number

theorem ofFloat?_of_isFinite {f : Float} (h : f.isFinite = true) : ofFloat? f = some (float f h) :=
  dif_pos h

theorem toFloat_int (i : Int) : (int i).toFloat = Float.ofInt i := rfl

theorem toFloat_float {f : Float} (h : f.isFinite = true) : (float f h).toFloat = f := rfl

theorem float_ne_least {f : Float} (h : f.isFinite = true) : float f h ≠ least := nofun

theorem int_eq_least_iff {i : Int} : int i = least ↔ i = -2 ^ 63 := by rw [least, int.injEq]

@[simp] theorem rounded_least : least.rounded = least := if_pos rfl

theorem rounded_eq {n : Number} (hleast : n ≠ least) {f : Float} (hn : n.toFloat = f)
    (h : f.isFinite = true) : n.rounded = float f h := by
  rw [rounded, if_neg hleast, hn, ofFloat?_of_isFinite h, Option.getD_some]

theorem rounded_of_not_isFinite {n : Number} (h : ¬n.toFloat.isFinite = true) : n.rounded = n := by
  rw [rounded, ofFloat?, dif_neg h, Option.getD_none, ite_self]

/-- A float is left as it is. -/
theorem rounded_float {f : Float} (h : f.isFinite = true) : (float f h).rounded = float f h :=
  rounded_eq (float_ne_least h) (toFloat_float h) h

/-- A number is left as it is or becomes its float. -/
theorem rounded_cases (n : Number) : n.rounded = n ∨ ∃ h, n.rounded = float n.toFloat h := by
  by_cases hleast : n = least
  · exact .inl (if_pos hleast)
  · by_cases h : n.toFloat.isFinite = true
    · exact .inr ⟨h, rounded_eq hleast rfl h⟩
    · exact .inl (rounded_of_not_isFinite h)

@[simp] theorem toFloat_rounded (n : Number) : n.rounded.toFloat = n.toFloat := by
  obtain h | ⟨_, h⟩ := n.rounded_cases
  · rw [h]
  · rw [h, toFloat_float]

@[simp] theorem rounded_rounded (n : Number) : n.rounded.rounded = n.rounded := by
  obtain h | ⟨hfinite, h⟩ := n.rounded_cases
  · rw [h, h]
  · rw [h, rounded_float]

theorem rounded_eq_least_iff {n : Number} : n.rounded = least ↔ n = least := by
  constructor
  · intro hleast
    obtain h | ⟨hfinite, h⟩ := n.rounded_cases
    · exact h ▸ hleast
    · exact absurd (h ▸ hleast) (float_ne_least hfinite)
  · rintro rfl
    exact rounded_least

end Number

namespace Value

@[simp] theorem rounded_rounded (v : Value) : v.rounded.rounded = v.rounded := by
  cases v <;> simp [rounded]

@[simp] theorem rounded_ofTruth (t : Truth) : (ofTruth t).rounded = ofTruth t := by cases t <;> rfl

@[simp] theorem truth_rounded (v : Value) : v.rounded.truth = v.truth := by cases v <;> rfl

@[simp] theorem isNull_rounded (v : Value) : v.rounded.isNull = v.isNull := by cases v <;> rfl

@[simp] theorem compare_rounded (l r : Value) (op : Comparison) :
    l.rounded.compare op r.rounded = l.compare op r := by
  cases l <;> cases r <;> simp [rounded, compare, order?, Number.order]

@[simp] theorem equals_rounded (v w : Value) : v.rounded.equals w.rounded = v.equals w := by
  cases v <;> cases w <;> simp [rounded, equals]

@[simp] theorem among_rounded (v : Value) (list : List Value) :
    v.rounded.among (list.map rounded) = v.among list := by
  simp [among, List.any_map, Function.comp_def]

@[simp] theorem likeTruth_rounded (v p : Value) :
    Expr.likeTruth v.rounded p.rounded = Expr.likeTruth v p := by
  cases v <;> cases p <;> rfl

theorem firstPresent_rounded (vs : List Value) :
    firstPresent (vs.map rounded) = (firstPresent vs).rounded := by
  rw [firstPresent, firstPresent, List.find?_map]
  simp only [Function.comp_def, isNull_rounded]
  cases vs.find? fun v => !v.isNull <;> rfl

@[simp] theorem rounded_ofFloat (f : Float) : (ofFloat f).rounded = ofFloat f := by
  rw [ofFloat]
  split
  · next n hn =>
    rw [Number.ofFloat?] at hn
    split at hn
    · next h =>
      obtain rfl := Option.some.inj hn
      exact congrArg num (Number.rounded_float h)
    · cases hn
  · rfl

/-- The size of an integer is rounded to the size of its float, if that size fits a word. -/
theorem rounded_size {n : Number} (hleast : n ≠ .least) :
    n.size.rounded = ofFloat n.toFloat.abs := by
  rw [Number.size]
  split
  · next i hi =>
    obtain ⟨rfl, hfits⟩ := Number.eq_of_word? hi
    have hsmall := Number.natAbs_lt_of_fitsWord hfits
    have hfinite : (Float.ofInt i.natAbs).isFinite = true := isFinite_ofInt hsmall
    have hsize : Number.fitsWord i.natAbs = true := by
      rw [Ne, Number.int_eq_least_iff] at hleast
      rw [Number.fitsWord, decide_eq_true_eq] at hfits ⊢
      omega
    have hne : Number.int i.natAbs ≠ .least := by
      rw [Ne, Number.int_eq_least_iff]
      omega
    rw [Number.wrap_of_fitsWord hsize, Number.toFloat_int, Decimal.abs_ofInt hsmall, ofFloat,
      Number.ofFloat?_of_isFinite hfinite, int, rounded,
      Number.rounded_eq hne (Number.toFloat_int _) hfinite]
  · exact rounded_ofFloat _

/-- It does not matter for the size whether a number is rounded before. -/
theorem rounded_size_rounded (n : Number) : n.rounded.size.rounded = n.size.rounded := by
  by_cases hleast : n = .least
  · rw [hleast, Number.rounded_least]
  · rw [rounded_size hleast, rounded_size (Number.rounded_eq_least_iff.not.mpr hleast),
      Number.toFloat_rounded]

example : Number.least.size = .num .least := rfl

end Value

namespace Expr

open Value

theorem applyFolded_coalesce (vs : List Value) :
    applyFolded "coalesce" vs = firstPresent vs := by
  simp [applyFolded]

/-- **A function answers for the rounded arguments as for the exact ones**, up to rounding. -/
theorem rounded_applyFolded (name : String) (vs : List Value) :
    (applyFolded name (vs.map rounded)).rounded = (applyFolded name vs).rounded := by
  by_cases hcoalesce : name = "coalesce"
  · subst hcoalesce
    rw [applyFolded_coalesce, applyFolded_coalesce, firstPresent_rounded, rounded_rounded]
  rcases vs with _ | ⟨v, _ | ⟨w, vs⟩⟩
  · rfl
  · cases v with
    | num n =>
      by_cases habs : name = "abs"
      · subst habs
        exact rounded_size_rounded n
      · simp [applyFolded, habs, rounded]
    | _ => rfl
  · simp [applyFolded]

end Expr

end QueryPlan
