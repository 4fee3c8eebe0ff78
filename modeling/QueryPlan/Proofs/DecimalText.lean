import Mathlib.Data.List.TakeWhile
import QueryPlan.Decimal.Layout
import QueryPlan.Json.Numeral
import QueryPlan.Proofs.FloatOrder
import QueryPlan.Proofs.Rounding

/-!
# The JSON text of a float tells which float it is

No two floats have one JSON text (`Decimal.json_injective`).  The text is taken apart again by the
reader of numerals, `Numeral.ofSpelling`, and what comes out is compared with what went in.

* **Spellings say sizes.**  `Says` is the sign and the exact size, a rational, that taking a
  spelling apart gives.  Each of the two layouts has its lemma: with the point before the digits,
  behind them or among them (`says_before`, `says_behind`, `says_among`, together
  `says_positional`), and with an exponent (`says_scientific`).  They are about any digits and any
  place of the point, so they serve the SQL text of a float as well.
* **Sizes denote floats.**  The decimal that is written is not the float but reads back to it
  (`Denotes`), and a decimal reads back to one float only, since sign and size are all that the
  bits hold (`eq_of_denotes`).
* **Texts spell floats.**  `Spells` puts the two together.  A text spells one float only
  (`eq_of_spells`), and the text of a float spells it (`spells_json`).

At the end stand the characters that occur in the text of a number.  That a float is written with a
point or an exponent (`mark_mem_json`) keeps it apart from every integer.
-/

set_option autoImplicit false

namespace QueryPlan

open Json (isDigit digitsValue Numeral)

/-! ## Digits -/

theorem isDigit_of_mem_toDigits {n : Nat} {c : Char} (h : c ∈ Nat.toDigits 10 n) : isDigit c := by
  have := Nat.isDigit_of_mem_toDigits (by decide) (by decide) h
  rw [Char.isDigit, Bool.and_eq_true, decide_eq_true_eq, decide_eq_true_eq] at this
  exact decide_eq_true ⟨this.1, this.2⟩

theorem digitsValue_eq (digits : List Char) :
    digitsValue digits = Nat.ofDigitChars 10 digits 0 := by
  rw [digitsValue, Nat.ofDigitChars_eq_foldl]
  simp only [Json.digitValue, Nat.mul_comm]
  rfl

@[simp] theorem digitsValue_toDigits (n : Nat) : digitsValue (Nat.toDigits 10 n) = n := by
  rw [digitsValue_eq, Nat.ofDigitChars_ten_toDigits]

/-- Zeros behind digits. -/
theorem digitsValue_append_zeros (digits : List Char) (k : Nat) :
    digitsValue (digits ++ List.replicate k '0') = digitsValue digits * 10 ^ k := by
  rw [digitsValue_eq, digitsValue_eq, Nat.ofDigitChars_append, Nat.ofDigitChars_replicate_zero,
    Nat.mul_comm]

/-- Zeros before digits. -/
theorem digitsValue_zeros_append (digits : List Char) (k : Nat) :
    digitsValue (List.replicate k '0' ++ digits) = digitsValue digits := by
  rw [digitsValue_eq, digitsValue_eq, Nat.ofDigitChars_append, Nat.ofDigitChars_replicate_zero,
    Nat.mul_zero]

/-! ## Taking a spelling apart -/

namespace Json.Numeral

/-- The size that a numeral writes. -/
def size (n : Numeral) : ℚ :=
  digitsValue (n.whole ++ n.fraction.getD []) *
    (10 : ℚ) ^ (n.exponent.getD 0 - ((n.fraction.getD []).length : ℤ))

variable {whole places : List Char}

theorem takeWhile_digits (h : ∀ c ∈ whole, isDigit c) (rest : List Char)
    (hrest : rest.head?.all fun c => !isDigit c) :
    (whole ++ rest).takeWhile isDigit = whole ∧ (whole ++ rest).dropWhile isDigit = rest := by
  rw [List.takeWhile_append_of_pos h, List.dropWhile_append_of_pos h]
  cases rest with
  | nil => simp
  | cons c rest =>
    have hc : isDigit c = false := by simpa using hrest
    simp [hc]

/-- The places behind a point, and what follows them. -/
def placesOf : List Char → Option (List Char) × List Char
  | '.' :: rest => (some (rest.takeWhile isDigit), rest.dropWhile isDigit)
  | s => (none, s)

/-- The exponent behind a mark. -/
def exponentOf? : List Char → Option ℤ
  | _ :: rest => some (exponentOf rest)
  | [] => none

/-- Behind the sign, the whole part is what comes before the first character that is no digit. -/
theorem ofSpelling_signed (x : Float) (h : ∀ c ∈ whole, isDigit c) (hne : whole ≠ [])
    {rest : List Char} (hrest : rest.head?.all fun c => !isDigit c) :
    ofSpelling (Decimal.signed x (whole ++ rest)) =
      ⟨Decimal.isNegative x, whole, (placesOf rest).1, exponentOf? (placesOf rest).2⟩ := by
  obtain ⟨htake, hdrop⟩ := takeWhile_digits h rest hrest
  rw [Decimal.signed]
  split
  · next hx =>
    simp only [ofSpelling, htake, hdrop, hx]
    rfl
  · next hx =>
    obtain ⟨c, cs, rfl⟩ := List.exists_cons_of_ne_nil hne
    have hc : c ≠ '-' := fun h' => absurd (h c List.mem_cons_self) (by rw [h']; decide)
    rw [List.cons_append] at htake hdrop ⊢
    rw [Bool.not_eq_true] at hx
    simp only [ofSpelling]
    split
    · next h' => exact absurd (List.cons.inj h').1 hc
    · simp only [htake, hdrop, hx]
      rfl

theorem ofSpelling_point (x : Float) (h : ∀ c ∈ whole, isDigit c) (hne : whole ≠ [])
    (hplaces : ∀ c ∈ places, isDigit c) :
    ofSpelling (Decimal.signed x (whole ++ '.' :: places)) =
      ⟨Decimal.isNegative x, whole, some places, none⟩ := by
  obtain ⟨htake, hdrop⟩ := takeWhile_digits hplaces [] rfl
  rw [List.append_nil] at htake hdrop
  rw [ofSpelling_signed x h hne rfl, placesOf, htake, hdrop]
  rfl

theorem ofSpelling_point_exponent (x : Float) (h : ∀ c ∈ whole, isDigit c) (hne : whole ≠ [])
    (hplaces : ∀ c ∈ places, isDigit c) (s : List Char) :
    ofSpelling (Decimal.signed x (whole ++ '.' :: (places ++ 'e' :: s))) =
      ⟨Decimal.isNegative x, whole, some places, some (exponentOf s)⟩ := by
  obtain ⟨htake, hdrop⟩ := takeWhile_digits hplaces ('e' :: s) rfl
  rw [ofSpelling_signed x h hne rfl, placesOf, htake, hdrop]
  rfl

theorem ofSpelling_exponent (x : Float) (h : ∀ c ∈ whole, isDigit c) (hne : whole ≠ [])
    (s : List Char) :
    ofSpelling (Decimal.signed x (whole ++ 'e' :: s)) =
      ⟨Decimal.isNegative x, whole, none, some (exponentOf s)⟩ := by
  rw [ofSpelling_signed x h hne rfl]
  rfl

end Json.Numeral

/-! ## The two layouts -/

namespace Decimal

open Json.Numeral (ofSpelling)

/-- What a spelling says: a sign and a size. -/
def Says (spelling : List Char) (negative : Bool) (size : ℚ) : Prop :=
  (ofSpelling spelling).negative = negative ∧ (ofSpelling spelling).size = size

variable {digits : List Char} (x : Float)

theorem isDigit_of_mem_zeros (k : ℕ) : ∀ c ∈ List.replicate k '0', isDigit c := fun c hc => by
  rw [List.eq_of_mem_replicate hc]
  decide

section Positional

variable (h : ∀ c ∈ digits, isDigit c)
include h

/-- The point stands before the digits, with zeros between. -/
theorem says_before (k : ℕ) :
    Says (signed x ('0' :: '.' :: (List.replicate k '0' ++ digits))) (isNegative x)
      (digitsValue digits * (10 : ℚ) ^ (-(k : ℤ) - digits.length)) := by
  have hplaces : ∀ c ∈ List.replicate k '0' ++ digits, isDigit c := fun c hc =>
    (List.mem_append.mp hc).elim (isDigit_of_mem_zeros k c) (h c)
  rw [show ('0' :: '.' :: (List.replicate k '0' ++ digits)) =
      ['0'] ++ '.' :: (List.replicate k '0' ++ digits) from rfl,
    Says, Json.Numeral.ofSpelling_point x (List.all_eq_true.mp rfl) (by decide) hplaces]
  refine ⟨rfl, ?_⟩
  simp only [Json.Numeral.size, Option.getD_some, Option.getD_none, List.length_append,
    List.length_replicate, ← List.replicate_succ, ← List.append_assoc, List.singleton_append]
  rw [digitsValue_zeros_append]
  congr 2
  push_cast
  ring

/-- The digits are filled up with zeros; behind them stands one place or none. -/
theorem says_behind (hne : digits ≠ []) {whole : List Char}
    (hwhole : whole = [] ∨ whole = ['.', '0']) (k : ℕ) :
    Says (signed x (digits ++ List.replicate k '0' ++ whole)) (isNegative x)
      (digitsValue digits * (10 : ℚ) ^ k) := by
  have hall : ∀ c ∈ digits ++ List.replicate k '0', isDigit c := fun c hc =>
    (List.mem_append.mp hc).elim (h c) (isDigit_of_mem_zeros k c)
  have hsome : digits ++ List.replicate k '0' ≠ [] := by simp [hne]
  rw [Says]
  rcases hwhole with rfl | rfl
  · rw [Json.Numeral.ofSpelling_signed x hall hsome rfl]
    refine ⟨rfl, ?_⟩
    simp [Json.Numeral.size, Json.Numeral.placesOf, Json.Numeral.exponentOf?,
      digitsValue_append_zeros]
  · rw [Json.Numeral.ofSpelling_point x hall hsome (List.all_eq_true.mp rfl)]
    refine ⟨rfl, ?_⟩
    simp only [Json.Numeral.size, Option.getD_some, Option.getD_none, List.length_singleton,
      List.append_assoc, ← List.replicate_succ']
    rw [digitsValue_append_zeros]
    push_cast
    rw [mul_assoc, zpow_neg_one, pow_succ, mul_inv_cancel_right₀]
    norm_num

/-- The point stands among the digits. -/
theorem says_among {k : ℕ} (hk : 0 < k) (hlt : k < digits.length) :
    Says (signed x (digits.take k ++ '.' :: digits.drop k)) (isNegative x)
      (digitsValue digits * (10 : ℚ) ^ ((k : ℤ) - digits.length)) := by
  have hsome : digits.take k ≠ [] := List.ne_nil_of_length_pos (by rw [List.length_take]; omega)
  rw [Says, Json.Numeral.ofSpelling_point x (fun c hc => h c (List.mem_of_mem_take hc)) hsome
    (fun c hc => h c (List.mem_of_mem_drop hc))]
  refine ⟨rfl, ?_⟩
  simp only [Json.Numeral.size, Option.getD_some, Option.getD_none, List.take_append_drop,
    List.length_drop]
  congr 2
  omega

end Positional

/-- A whole number may stand without places. -/
theorem says_positional {whole : List Char} (hwhole : whole = [] ∨ whole = ['.', '0'])
    (h : ∀ c ∈ digits, isDigit c) (hne : digits ≠ []) (point : ℤ) :
    Says (signed x (positional whole digits point)) (isNegative x)
      (digitsValue digits * (10 : ℚ) ^ (point - digits.length)) := by
  rw [positional]
  split
  · obtain ⟨k, rfl⟩ : ∃ k : ℕ, point = -k := ⟨(-point).toNat, by omega⟩
    rw [neg_neg, Int.toNat_natCast]
    exact says_before x h k
  · split
    · obtain ⟨k, rfl⟩ : ∃ k : ℕ, point = (digits.length + k : ℕ) :=
        ⟨point.toNat - digits.length, by omega⟩
      rw [Int.toNat_natCast, Nat.add_sub_cancel_left, Nat.cast_add, add_sub_cancel_left,
        zpow_natCast]
      exact says_behind x h hne hwhole k
    · obtain ⟨k, rfl⟩ : ∃ k : ℕ, point = k := ⟨point.toNat, by omega⟩
      rw [Int.toNat_natCast] at *
      exact says_among x h (by omega) (by omega)

theorem exponentOf_signed (e : ℤ) :
    Json.Numeral.exponentOf ((if e < 0 then '-' else '+') :: Nat.toDigits 10 e.natAbs) = e := by
  split
  · rw [Json.Numeral.exponentOf, digitsValue_toDigits]; omega
  · rw [Json.Numeral.exponentOf, digitsValue_toDigits]; omega

theorem says_scientific (h : ∀ c ∈ digits, isDigit c) (hne : digits ≠ []) (point : ℤ) :
    Says (signed x (scientific digits point)) (isNegative x)
      (digitsValue digits * (10 : ℚ) ^ (point - digits.length)) := by
  obtain ⟨c, cs, rfl⟩ := List.exists_cons_of_ne_nil hne
  have hc : ∀ d ∈ [c], isDigit d := fun d hd => h d (by simp_all)
  cases cs with
  | nil =>
    show Says (signed x ([c] ++ 'e' :: _)) _ _
    rw [Says, Json.Numeral.ofSpelling_exponent x hc (by simp), exponentOf_signed]
    refine ⟨rfl, ?_⟩
    simp [Json.Numeral.size]
  | cons d ds =>
    show Says (signed x ([c] ++ '.' :: (d :: ds ++ 'e' :: _))) _ _
    rw [Says, Json.Numeral.ofSpelling_point_exponent x hc (by simp)
      (fun d hd => h d (List.mem_cons_of_mem _ hd)), exponentOf_signed]
    refine ⟨rfl, ?_⟩
    simp only [Json.Numeral.size, Option.getD_some, List.singleton_append, List.length_cons]
    congr 2
    push_cast
    ring

/-! ## The text of a float -/

/-- All digits of a number are its significant ones and then zeros. -/
theorem toDigits_eq_significant (d : Decimal) : ∃ k, Nat.toDigits 10 d.digits =
    d.significant ++ List.replicate k '0' := by
  have hsplit := List.takeWhile_append_dropWhile (p := (· == '0'))
    (l := (Nat.toDigits 10 d.digits).reverse)
  have hzeros : (Nat.toDigits 10 d.digits).reverse.takeWhile (· == '0') =
      List.replicate _ '0' := List.eq_replicate_of_mem fun c hc => by
    simpa using List.mem_takeWhile_imp hc
  refine ⟨((Nat.toDigits 10 d.digits).reverse.takeWhile (· == '0')).length, ?_⟩
  rw [significant, ← List.reverse_inj, List.reverse_append, List.reverse_reverse,
    List.reverse_replicate, ← hzeros, hsplit]

theorem isDigit_of_mem_significant {d : Decimal} {c : Char} (h : c ∈ d.significant) :
    isDigit c := by
  obtain ⟨k, hk⟩ := toDigits_eq_significant d
  exact isDigit_of_mem_toDigits (hk ▸ List.mem_append_left _ h)

/-- The digits and the point say the size. -/
theorem value_eq_significant (d : Decimal) : d.value =
    digitsValue d.significant * (10 : ℚ) ^ (d.point - d.significant.length) := by
  obtain ⟨k, hk⟩ := toDigits_eq_significant d
  have hdigits : d.digits = digitsValue d.significant * 10 ^ k := by
    rw [← digitsValue_append_zeros, ← hk, digitsValue_toDigits]
  have hpoint : d.point - d.significant.length = k + d.exp := by
    rw [point, width, hk, List.length_append, List.length_replicate]
    push_cast
    ring
  rw [value, hdigits, hpoint, zpow_add₀ (by norm_num), zpow_natCast]
  push_cast
  ring

theorem significant_ne_nil {d : Decimal} (h : 0 < d.value) : d.significant ≠ [] := by
  intro hnil
  rw [value_eq_significant, hnil] at h
  simp [digitsValue] at h

section Bits

open Float.Model.UnpackedFloat

theorem toNat_unpackExponent (x : Float) :
    (@unpackExponent .binary64 x.toBits.toBitVec).toNat = x.toBits.toNat / 2 ^ 52 % 2 ^ 11 := by
  simp [unpackExponent, Nat.shiftRight_eq_div_pow]

theorem toNat_unpackMantissa (x : Float) :
    (@unpackMantissa .binary64 x.toBits.toBitVec).toNat = x.toBits.toNat % 2 ^ 52 := by
  simp [unpackMantissa]

theorem ne_zero_of_exponent {x : Float}
    (h : @unpackExponent .binary64 x.toBits.toBitVec = -1#_) : x.toBits.toNat % 2 ^ 63 ≠ 0 := by
  rw [← BitVec.toNat_inj, toNat_unpackExponent] at h
  have hexp : x.toBits.toNat / 2 ^ 52 % 2 ^ 11 = 2047 := h
  omega

end Bits

/-- A float is a zero when all its bits are, but for the sign. -/
theorem eq_zero_iff (x : Float) : (x == 0) = true ↔ x.toBits.toNat % 2 ^ 63 = 0 := by
  have hcompare : ∀ u : Float.Model.UnpackedFloat,
      (u.compare (.zero .positive) == some .eq) = true ↔ ∃ s, u = .zero s := by
    intro u
    cases u with
    | zero s => exact ⟨fun _ => ⟨s, rfl⟩, fun _ => rfl⟩
    | notANumber => exact iff_of_false (fun h => by cases h) (by rintro ⟨_, h⟩; cases h)
    | infinity s =>
      cases s <;> exact iff_of_false (fun h => by cases h) (by rintro ⟨_, h⟩; cases h)
    | finite s _ _ _ =>
      cases s <;> exact iff_of_false (fun h => by cases h) (by rintro ⟨_, h⟩; cases h)
  show (x.toModel.unpack.compare (.zero .positive) == some .eq) = true ↔ _
  rw [hcompare]
  show (∃ s, Float.Model.UnpackedFloat.unpack .binary64 x.toBits.toBitVec = .zero s) ↔ _
  rcases Unpacked.unpack_cases .binary64 x.toBits.toBitVec with
    ⟨hexp, -, h⟩ | ⟨hexp, s, h⟩ | ⟨hexp, hman, s, h⟩ | ⟨hexp, s, m, e, hm, h⟩
  · exact iff_of_false (by rw [h]; rintro ⟨_, hs⟩; cases hs) (ne_zero_of_exponent hexp)
  · exact iff_of_false (by rw [h]; rintro ⟨_, hs⟩; cases hs) (ne_zero_of_exponent hexp)
  · rw [← BitVec.toNat_inj, toNat_unpackExponent] at hexp
    rw [← BitVec.toNat_inj, toNat_unpackMantissa] at hman
    have hexp : x.toBits.toNat / 2 ^ 52 % 2 ^ 11 = 0 := hexp
    have hman : x.toBits.toNat % 2 ^ 52 = 0 := hman
    exact iff_of_true ⟨s, h⟩ (by omega)
  · rw [← BitVec.toNat_inj, toNat_unpackExponent, ne_eq, ← BitVec.toNat_inj,
      toNat_unpackMantissa] at hexp
    have hexp : x.toBits.toNat / 2 ^ 52 % 2 ^ 11 = 0 → x.toBits.toNat % 2 ^ 52 ≠ 0 := hexp
    exact iff_of_false (by rw [h]; rintro ⟨_, hs⟩; cases hs) (by omega)

/-- The bits give a number in its normal form. -/
theorem normal_ofBits {bits : UInt64} (h : bits.toNat % 2 ^ 63 ≠ 0) :
    (Binary.ofBits bits).Normal := by
  simp only [Binary.ofBits]
  split
  · exact ⟨by simp only; omega, by simp only; omega, by simp, by simp, by simp⟩
  · exact ⟨by simp, by simp only; omega, by simp only; omega, by simp, by simp; omega⟩

/-- Mantissa and exponent give all bits but the sign. -/
theorem eq_of_ofBits {a b : UInt64}
    (hm : (Binary.ofBits a).mantissa = (Binary.ofBits b).mantissa)
    (he : (Binary.ofBits a).exponent = (Binary.ofBits b).exponent) :
    a.toNat % 2 ^ 63 = b.toNat % 2 ^ 63 := by
  simp only [Binary.ofBits] at hm he
  split at hm <;> split at hm <;> simp_all only [if_true, if_false] <;> omega

/-- A size that reads back to a float. -/
def Denotes (size : ℚ) (x : Float) : Prop :=
  if x == 0 then size = 0
  else ∃ d : Decimal, d.value = size ∧ readsBack (Binary.ofBits x.toBits) d = true

/-- A text that says the sign of a float and a size that reads back to it. -/
def Spells (spelling : List Char) (x : Float) : Prop :=
  ∃ size, Says spelling (isNegative x) size ∧ Denotes size x

theorem normal_of_ne_zero {x : Float} (h : ¬(x == 0) = true) : (Binary.ofBits x.toBits).Normal :=
  normal_ofBits ((eq_zero_iff x).not.mp h)

theorem spells_zero (x : Float) {spelling : List Char} (h : Says spelling (isNegative x) 0)
    (hx : (x == 0) = true) : Spells spelling x :=
  ⟨0, h, (if_pos hx).mpr rfl⟩

theorem spells_shortest (tie : Tie) (x : Float) {spelling : List Char} (hx : ¬(x == 0) = true)
    (h : Says spelling (isNegative x) (shortest tie (Binary.ofBits x.toBits)).value) :
    Spells spelling x :=
  ⟨_, h, (if_neg hx).mpr ⟨_, rfl, readsBack_shortest tie (normal_of_ne_zero hx)⟩⟩

/-- Sign and size are all that the bits hold. -/
theorem eq_of_denotes {x y : Float} {size : ℚ} (hneg : isNegative x = isNegative y)
    (hx : Denotes size x) (hy : Denotes size y) : x = y := by
  have hbits : x.toBits.toNat % 2 ^ 63 = y.toBits.toNat % 2 ^ 63 := by
    rw [Denotes] at hx hy
    split at hx <;> split at hy
    · next hx' hy' => rw [(eq_zero_iff x).mp hx', (eq_zero_iff y).mp hy']
    · next hx' hy' =>
      obtain ⟨d, hd, hback⟩ := hy
      exact absurd (hd.trans hx) (pos_of_readsBack (normal_of_ne_zero hy') hback).ne'
    · next hx' hy' =>
      obtain ⟨d, hd, hback⟩ := hx
      exact absurd (hd.trans hy) (pos_of_readsBack (normal_of_ne_zero hx') hback).ne'
    · next hx' hy' =>
      obtain ⟨d, hd, hdback⟩ := hx
      obtain ⟨e, he, heback⟩ := hy
      obtain ⟨hm, hexp⟩ := eq_of_readsBack (normal_of_ne_zero hx') (normal_of_ne_zero hy') hdback
        heback (hd.trans he.symm)
      exact eq_of_ofBits hm hexp
  have htop : x.toBits.toNat = y.toBits.toNat := by
    rw [isNegative, isNegative, decide_eq_decide] at hneg
    have := x.toBits.toNat_lt
    have := y.toBits.toNat_lt
    omega
  obtain ⟨⟨bx, _⟩⟩ := x
  obtain ⟨⟨b, _⟩⟩ := y
  obtain rfl : bx = b := UInt64.toNat_inj.mp htop
  rfl

/-- **A text spells one float only.** -/
theorem eq_of_spells {spelling : List Char} {x y : Float} (hx : Spells spelling x)
    (hy : Spells spelling y) : x = y := by
  obtain ⟨size, ⟨hxneg, hxsize⟩, hx⟩ := hx
  obtain ⟨size', ⟨hyneg, hysize⟩, hy⟩ := hy
  obtain rfl : size = size' := hxsize.symm.trans hysize
  exact eq_of_denotes (hxneg.symm.trans hyneg) hx hy

/-- The text of a float says its sign and the decimal that was written. -/
theorem spells_json (x : Float) : Spells (json x) x := by
  rw [json]
  split
  · next hx =>
    refine spells_zero x ?_ hx
    show Says (signed x (['0'] ++ '.' :: ['0'])) _ _
    rw [Says, Json.Numeral.ofSpelling_point x (List.all_eq_true.mp rfl) (by decide)
      (List.all_eq_true.mp rfl)]
    exact ⟨rfl, by simp [Json.Numeral.size, digitsValue, Json.digitValue]⟩
  · next hx =>
    refine spells_shortest .even x hx ?_
    have hback := readsBack_shortest .even (normal_of_ne_zero hx)
    have hpos := pos_of_readsBack (normal_of_ne_zero hx) hback
    generalize shortest .even (Binary.ofBits x.toBits) = d at hpos
    have hdigits : ∀ c ∈ d.significant, isDigit c := fun c hc => isDigit_of_mem_significant hc
    have hne := significant_ne_nil hpos
    rw [value_eq_significant]
    simp only []
    split
    · exact says_positional x (.inr rfl) hdigits hne _
    · exact says_scientific x hdigits hne _

/-- **No two floats have one text.** -/
theorem json_injective : Function.Injective json := fun x y h =>
  eq_of_spells (spells_json x) (h ▸ spells_json y)

/-! ## The characters of a number -/

/-- A character of the text of a number. -/
def isNumeric (c : Char) : Bool := isDigit c || c == '-' || c == '+' || c == '.' || c == 'e'

theorem isNumeric_of_isDigit {c : Char} (h : isDigit c) : isNumeric c := by
  rw [isNumeric, h]
  rfl

theorem all_isNumeric_positional {whole : List Char} (hwhole : ∀ c ∈ whole, isNumeric c)
    (h : ∀ c ∈ digits, isDigit c) (point : ℤ) :
    ∀ c ∈ positional whole digits point, isNumeric c := by
  have hzeros (k : ℕ) : ∀ c ∈ List.replicate k '0', isNumeric c := fun c hc => by
    rw [List.eq_of_mem_replicate hc]; decide
  have hd : ∀ c ∈ digits, isNumeric c := fun c hc => isNumeric_of_isDigit (h c hc)
  rw [positional]
  split
  · simp only [List.forall_mem_cons, List.forall_mem_append]
    exact ⟨by decide, by decide, hzeros _, hd⟩
  · split
    · simp only [List.forall_mem_append]
      exact ⟨⟨hd, hzeros _⟩, hwhole⟩
    · simp only [List.forall_mem_cons, List.forall_mem_append]
      exact ⟨fun c hc => hd c (List.mem_of_mem_take hc), by decide,
        fun c hc => hd c (List.mem_of_mem_drop hc)⟩

theorem mark_mem_positional (point : ℤ) : '.' ∈ positional ['.', '0'] digits point := by
  rw [positional]
  split
  · simp
  · split <;> simp

theorem all_isNumeric_scientific (h : ∀ c ∈ digits, isDigit c) (point : ℤ) :
    ∀ c ∈ scientific digits point, isNumeric c := by
  have hd : ∀ c ∈ digits, isNumeric c := fun c hc => isNumeric_of_isDigit (h c hc)
  have hexponent : ∀ c ∈ Nat.toDigits 10 (point - 1).natAbs, isNumeric c := fun c hc =>
    isNumeric_of_isDigit (isDigit_of_mem_toDigits hc)
  have hsign : isNumeric (if point - 1 < 0 then '-' else '+') := by split <;> decide
  rw [scientific]
  simp only [List.forall_mem_cons, List.forall_mem_append]
  refine ⟨⟨fun c hc => hd c (List.mem_of_mem_take hc), ?_⟩, by decide, hsign, hexponent⟩
  split
  · simp
  · next rest hrest =>
    rw [List.forall_mem_cons]
    exact ⟨by decide, fun c hc => hd c (List.mem_of_mem_drop hc)⟩

theorem all_isNumeric_signed {size : List Char} (h : ∀ c ∈ size, isNumeric c) :
    ∀ c ∈ signed x size, isNumeric c := by
  rw [signed]
  split
  · exact List.forall_mem_cons.mpr ⟨by decide, h⟩
  · exact h

theorem mem_signed {size : List Char} {c : Char} (h : c ∈ size) : c ∈ signed x size := by
  rw [signed]
  split
  · exact List.mem_cons_of_mem _ h
  · exact h

theorem all_isNumeric_json : ∀ c ∈ json x, isNumeric c := by
  have hdigits (d : Decimal) : ∀ c ∈ d.significant, isDigit c :=
    fun c hc => isDigit_of_mem_significant hc
  rw [json]
  split
  · exact all_isNumeric_signed x (List.all_eq_true.mp rfl)
  · generalize shortest .even (Binary.ofBits x.toBits) = d
    simp only []
    split
    · exact all_isNumeric_signed x
        (all_isNumeric_positional (List.all_eq_true.mp rfl) (hdigits d) _)
    · exact all_isNumeric_signed x (all_isNumeric_scientific (hdigits d) _)

/-- A float is written with a point or an exponent. -/
theorem mark_mem_json : '.' ∈ json x ∨ 'e' ∈ json x := by
  rw [json]
  split
  · exact .inl (mem_signed x (by simp))
  · generalize shortest .even (Binary.ofBits x.toBits) = d
    simp only []
    split
    · exact .inl (mem_signed x (mark_mem_positional _))
    · exact .inr (mem_signed x (by simp [scientific]))

end Decimal

end QueryPlan
