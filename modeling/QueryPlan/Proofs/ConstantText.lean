import QueryPlan.Proofs.Rounded
import QueryPlan.Proofs.Tokens

/-!
# Constants with one text

A constant that is not a string is written as a word: a number with its digits, the others with a
name.  The word tells the value of the constant up to rounding (`Constant.unique`).  It does not
tell an integer from a float, or an infinite float from a null, and no predicate does.

The least word alone is not rounded, since its size is not that of its float.  So its text must be
that of no float, and it is not: floats are written with the fewest digits that read back, and its
own float needs fewer (`Decimal.sql_ne_leastText`).
-/

set_option autoImplicit false

namespace QueryPlan

open Json (isDigit)

/-! ## The characters of a number in SQL -/

namespace Decimal

variable {x : Float}

theorem all_isNumeric_sql (hx : x.isInf = false) : ∀ c ∈ sql x, isNumeric c := by
  rw [sql, if_neg (by simp [hx])]
  split
  · exact all_isNumeric_signed x (List.all_eq_true.mp rfl)
  · exact all_isNumeric_signed x (all_isNumeric_positional (by simp)
      (fun c hc => isDigit_of_mem_significant hc) _)

/-- A number begins with a sign or a digit. -/
def BeginsNumber (text : List Char) : Prop := ∃ c rest, text = c :: rest ∧ (isDigit c ∨ c = '-')

theorem beginsNumber_signed {size : List Char} (h : BeginsNumber size) :
    BeginsNumber (signed x size) := by
  rw [signed]
  split
  · exact ⟨_, _, rfl, .inr rfl⟩
  · exact h

theorem beginsNumber_positional {digits : List Char} (h : ∀ c ∈ digits, isDigit c)
    (hne : digits ≠ []) (whole : List Char) (point : ℤ) :
    BeginsNumber (positional whole digits point) := by
  obtain ⟨c, digits, rfl⟩ := List.exists_cons_of_ne_nil hne
  have hc : isDigit c := h c List.mem_cons_self
  rw [positional]
  split_ifs with hpoint
  · exact ⟨_, _, rfl, .inl rfl⟩
  · exact ⟨_, _, rfl, .inl hc⟩
  · obtain ⟨n, hn⟩ : ∃ n, point.toNat = n + 1 := ⟨point.toNat - 1, by omega⟩
    rw [hn]
    exact ⟨_, _, rfl, .inl hc⟩

theorem beginsNumber_sql (hx : x.isInf = false) : BeginsNumber (sql x) := by
  rw [sql, if_neg (by simp [hx])]
  split
  · exact beginsNumber_signed ⟨_, _, rfl, .inl rfl⟩
  · next hzero =>
    have hback := readsBack_shortest .up (normal_of_ne_zero hzero)
    have hpos := pos_of_readsBack (normal_of_ne_zero hzero) hback
    exact beginsNumber_signed (beginsNumber_positional
      (fun c hc => isDigit_of_mem_significant hc) (significant_ne_nil hpos) _ _)

theorem beginsNumber_toString (i : Int) : BeginsNumber (toString i).toList := by
  cases hi : (toString i).toList with
  | nil => exact absurd hi (Number.int i).text_ne_nil
  | cons c rest => exact ⟨c, rest, rfl, Number.mem_toString (hi ▸ List.mem_cons_self)⟩

/-- The text of the least word. -/
def leastText : List Char := (toString (-2 ^ 63 : Int)).toList

/-- No float is written like the least word: its own one is written with fewer digits. -/
theorem sql_ne_leastText (hx : x.isInf = false) : sql x ≠ leastText := by
  intro h
  have hspells : Spells leastText (Float.ofInt (-2 ^ 63)) := spells_toString (by decide)
  obtain rfl : x = Float.ofInt (-2 ^ 63) := eq_of_spells (h ▸ spells_sql hx) hspells
  exact absurd h (by decide +kernel)

end Decimal

/-! ## Words for constants -/

open Decimal (BeginsNumber Spells isNumeric leastText)

/-- The constants that are written by name. -/
def constantWords : List String := ["NULL", "TRUE", "FALSE", "inf", "-inf"]

/-- The value of a constant that is written by name; an infinite float has none. -/
def constantValue (s : String) : Value :=
  if s = "TRUE" then .bool true else if s = "FALSE" then .bool false else .null

/-- A word for a constant, and the value of the constant when it is rounded. -/
inductive Constant : List Char → Value → Prop where
  | number {text : List Char} {f : Float} (finite : f.isFinite = true) (spells : Spells text f)
    (numeric : ∀ c ∈ text, isNumeric c) (begins : BeginsNumber text) (ne : text ≠ leastText) :
    Constant text (.num (.float f finite))
  | least : Constant leastText (.num .least)
  | name {s : String} (mem : s ∈ constantWords) : Constant s.toList (constantValue s)

namespace Constant

variable {text text' : List Char} {v v' : Value}

theorem all_isNumeric_leastText : ∀ c ∈ leastText, isNumeric c :=
  (Number.int (-2 ^ 63)).all_isNumeric_text

theorem not_numeric {s : String} (h : s ∈ constantWords) : ¬∀ c ∈ s.toList, isNumeric c := by
  have hnone : ∀ s ∈ constantWords, s.toList.all isNumeric = false := by decide
  intro hall
  cases (hnone s h).symm.trans (List.all_eq_true.mpr hall)

/-- What is not written by name is written with the characters of a number. -/
theorem numeric_or_name (h : Constant text v) :
    ((∀ c ∈ text, isNumeric c) ∧ BeginsNumber text) ∨ ∃ s ∈ constantWords, text = s.toList := by
  cases h with
  | number _ _ numeric begins _ => exact .inl ⟨numeric, begins⟩
  | least => exact .inl ⟨all_isNumeric_leastText, Decimal.beginsNumber_toString _⟩
  | name mem => exact .inr ⟨_, mem, rfl⟩

/-- **A word belongs to one value only.** -/
theorem unique (h : Constant text v) (h' : Constant text' v') (htext : text = text') : v = v' := by
  cases h with
  | number finite spells numeric _ ne =>
    cases h' with
    | number finite' spells' _ _ _ =>
      obtain rfl := Decimal.eq_of_spells spells (htext ▸ spells')
      rfl
    | least => exact absurd htext ne
    | name mem => exact absurd (htext ▸ numeric) (not_numeric mem)
  | least =>
    cases h' with
    | number _ _ _ _ ne => exact absurd htext.symm ne
    | least => rfl
    | name mem => exact absurd (htext ▸ all_isNumeric_leastText) (not_numeric mem)
  | name mem =>
    cases h' with
    | number _ _ numeric _ _ => exact absurd (htext ▸ numeric) (not_numeric mem)
    | least => exact absurd (htext ▸ all_isNumeric_leastText) (not_numeric mem)
    | name _ => rw [String.toList_inj.mp htext]

theorem isWordChar_of_isNumeric {c : Char} (h : isNumeric c) : isWordChar c := by
  rw [isWordChar, Bool.not_eq_true']
  by_contra hmem
  rw [Bool.not_eq_false, List.contains_iff_mem] at hmem
  have hall : [' ', '(', ')', ',', '\x27'].all fun c => !isNumeric c := by decide
  exact absurd h (by simpa using List.all_eq_true.mp hall c hmem)

/-- The word is one indeed. -/
theorem fits (h : Constant text v) : (Token.word text).fits := by
  obtain ⟨numeric, c, rest, rfl, -⟩ | ⟨s, mem, rfl⟩ := h.numeric_or_name
  · have hall := List.all_eq_true.mpr fun d hd => isWordChar_of_isNumeric (numeric d hd)
    rw [Token.fits, hall]
    rfl
  · exact (by decide : ∀ s ∈ constantWords, (Token.word s.toList).fits) s mem

end Constant

namespace Literal

/-- A constant that is not a string is written as a word for its value. -/
theorem constant {l : Literal} (hl : ∀ s, l ≠ str s) : Constant l.sql.toList l.value.rounded := by
  cases l with
  | str s => exact absurd rfl (hl s)
  | int i =>
    have hsmall := Number.natAbs_lt_of_fitsWord (Number.fitsWord_toInt i)
    have hfinite : (Float.ofInt i.toInt).isFinite = true := isFinite_ofInt hsmall
    rw [value, Value.int, Value.rounded, sql]
    by_cases hleast : i.toInt = -2 ^ 63
    · rw [hleast]
      exact .least
    · rw [Number.rounded_eq (Number.int_eq_least_iff.not.mpr hleast) (Number.toFloat_int _) hfinite]
      exact .number hfinite (Decimal.spells_toString hsmall)
        (Number.int i.toInt).all_isNumeric_text (Decimal.beginsNumber_toString _)
        fun htext => hleast (Number.toString_inj htext)
  | float f notNaN =>
    rw [value, Value.rounded_ofFloat, sql, String.toList_ofList]
    have hfinite := isFinite_eq_not_isInf notNaN
    cases hinf : f.isInf with
    | true =>
      rw [hinf] at hfinite
      rw [Value.ofFloat, Number.ofFloat?, dif_neg (by simp [hfinite]), Decimal.sql, if_pos hinf,
        Decimal.signed]
      split
      · exact .name (s := "-inf") (by decide)
      · exact .name (s := "inf") (by decide)
    | false =>
      rw [hinf] at hfinite
      rw [Value.ofFloat, Number.ofFloat?_of_isFinite hfinite]
      exact .number hfinite (Decimal.spells_sql hinf) (Decimal.all_isNumeric_sql hinf)
        (Decimal.beginsNumber_sql hinf) (Decimal.sql_ne_leastText hinf)
  | bool b => cases b <;> exact .name (by decide)
  | null => exact .name (s := "NULL") (by decide)

end Literal

end QueryPlan
