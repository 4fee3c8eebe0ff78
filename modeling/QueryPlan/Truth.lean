/-!
# Three-valued truth

A predicate over a row with missing cells holds, fails, or stays unknown.  `Truth` is that answer,
with the three connectives that SQL gives it: `fails` absorbs a conjunction, `holds` absorbs a
disjunction, and what neither decides is `unknown`.  A row is kept only when its predicate
`accepts`, that is, holds outright.
-/

set_option autoImplicit false

namespace QueryPlan

/-- The answer of a predicate. -/
inductive Truth where
  | holds
  | fails
  | unknown
deriving DecidableEq

namespace Truth

/-- A decided answer. -/
def ofBool (b : Bool) : Truth := if b then holds else fails

/-- Conjunction: `fails` absorbs. -/
def and : Truth → Truth → Truth
  | fails, _ => fails
  | _, fails => fails
  | holds, holds => holds
  | _, _ => unknown

/-- Disjunction: `holds` absorbs. -/
def or : Truth → Truth → Truth
  | holds, _ => holds
  | _, holds => holds
  | fails, fails => fails
  | _, _ => unknown

/-- Negation keeps `unknown`. -/
def not : Truth → Truth
  | holds => fails
  | fails => holds
  | unknown => unknown

/-- Negation under a flag, as in `IS NOT NULL` and `NOT IN`. -/
def negateIf (negated : Bool) (t : Truth) : Truth := if negated then t.not else t

/-- Whether a row with this answer is kept. -/
def accepts : Truth → Bool
  | holds => true
  | _ => false

/-- The answer as a word. -/
def text : Truth → String
  | holds => "True"
  | fails => "False"
  | unknown => "Unknown"

/-- The word with its label. -/
def inspect (t : Truth) : String := "Truth(" ++ t.text ++ ")"

/-! ## The connectives as an algebra -/

theorem and_comm (a b : Truth) : a.and b = b.and a := by cases a <;> cases b <;> rfl

theorem or_comm (a b : Truth) : a.or b = b.or a := by cases a <;> cases b <;> rfl

theorem and_assoc (a b c : Truth) : (a.and b).and c = a.and (b.and c) := by
  cases a <;> cases b <;> cases c <;> rfl

theorem or_assoc (a b c : Truth) : (a.or b).or c = a.or (b.or c) := by
  cases a <;> cases b <;> cases c <;> rfl

@[simp] theorem and_holds (a : Truth) : a.and .holds = a := by cases a <;> rfl

@[simp] theorem or_fails (a : Truth) : a.or .fails = a := by cases a <;> rfl

@[simp] theorem not_not (a : Truth) : a.not.not = a := by cases a <;> rfl

@[simp] theorem not_and (a b : Truth) : (a.and b).not = a.not.or b.not := by
  cases a <;> cases b <;> rfl

@[simp] theorem not_or (a b : Truth) : (a.or b).not = a.not.and b.not := by
  cases a <;> cases b <;> rfl

@[simp] theorem accepts_and (a b : Truth) : (a.and b).accepts = (a.accepts && b.accepts) := by
  cases a <;> cases b <;> rfl

@[simp] theorem accepts_or (a b : Truth) : (a.or b).accepts = (a.accepts || b.accepts) := by
  cases a <;> cases b <;> rfl

@[simp] theorem accepts_ofBool (b : Bool) : (ofBool b).accepts = b := by cases b <;> rfl

end Truth

end QueryPlan
