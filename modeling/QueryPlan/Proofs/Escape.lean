import QueryPlan.Json.Escape

/-!
# Escaped strings are read back

The spelling of a text ends at the first quote that is not escaped (`scanString_escape`), and it
stands for the text (`unescape_escape`).  Both go by the spelling of one character, which a reader
takes in one step.
-/

set_option autoImplicit false

namespace QueryPlan.Json

/-- Shows all ways in which a character is spelled. -/
theorem escapeChar_cases (c : Char) :
    (∃ d, escapeChar c = ['\\', d] ∧ d ≠ 'u' ∧ simpleEscape? d = some c) ∨
    (c.toNat < 32 ∧ escapeChar c =
      ['\\', 'u', '0', '0', hexDigit (c.toNat / 16), hexDigit (c.toNat % 16)]) ∨
    (escapeChar c = [c] ∧ c ≠ '"' ∧ c ≠ '\\' ∧ 32 ≤ c.toNat) := by
  by_cases hq : c = '"'
  · exact .inl ⟨'"', by subst hq; decide⟩
  by_cases hb : c = '\\'
  · exact .inl ⟨'\\', by subst hb; decide⟩
  by_cases h8 : c = '\x08'
  · exact .inl ⟨'b', by subst h8; decide⟩
  by_cases hc : c = '\x0c'
  · exact .inl ⟨'f', by subst hc; decide⟩
  by_cases hn : c = '\n'
  · exact .inl ⟨'n', by subst hn; decide⟩
  by_cases hr : c = '\r'
  · exact .inl ⟨'r', by subst hr; decide⟩
  by_cases ht : c = '\t'
  · exact .inl ⟨'t', by subst ht; decide⟩
  by_cases hlow : c.toNat < 32
  · exact .inr (.inl ⟨hlow, by simp [escapeChar, hq, hb, h8, hc, hn, hr, ht, hlow]⟩)
  · exact .inr (.inr ⟨by simp [escapeChar, hq, hb, h8, hc, hn, hr, ht, hlow], hq, hb, by omega⟩)

theorem hexValue?_hexDigit {n : Nat} (h : n < 16) : hexValue? (hexDigit n) = some n := by
  have : ∀ n : Fin 16, hexValue? (hexDigit n) = some n.val := by decide
  exact this ⟨n, h⟩

theorem hexValue4?_control {n : Nat} (h : n < 32) :
    hexValue4? '0' '0' (hexDigit (n / 16)) (hexDigit (n % 16)) = some n := by
  have hzero : hexValue? '0' = some 0 := by decide
  rw [hexValue4?, hzero, hexValue?_hexDigit (by omega), hexValue?_hexDigit (by omega)]
  simp only [Option.bind_eq_bind, Option.bind_some]
  congr 1
  omega

/-! ## Finding the end -/

theorem scanString_escapeChar (c : Char) (rest : List Char) :
    scanString (escapeChar c ++ rest) =
      (scanString rest).map fun r => (escapeChar c ++ r.1, r.2) := by
  obtain ⟨d, hd, hu, hsimple⟩ | ⟨hlow, hc⟩ | ⟨hc, hquote, hback, hlow⟩ := escapeChar_cases c
  · rw [hd]
    show scanString ('\\' :: d :: rest) = _
    rw [scanString, hsimple]
    · cases scanString rest <;> rfl
    · exact fun _ _ _ _ _ h => absurd h hu
  · rw [hc]
    show scanString ('\\' :: 'u' :: '0' :: '0' :: _ :: _ :: rest) = _
    rw [scanString, hexValue4?_control hlow]
    cases scanString rest <;> rfl
  · rw [hc]
    show scanString (c :: rest) = _
    have hplain : ¬(c = '\\' ∨ c.toNat < 32) := by
      rintro (h | h)
      · exact hback h
      · omega
    rw [scanString, if_neg hplain]
    · cases scanString rest <;> rfl
    · exact hquote
    · exact fun _ _ _ _ _ h => absurd h hback
    · exact fun _ _ h => absurd h hback

/-- **A spelling ends at its closing quote.** -/
theorem scanString_escape (s rest : List Char) :
    scanString (escape s ++ '"' :: rest) = some (escape s, rest) := by
  induction s with
  | nil => rfl
  | cons c s ih =>
    rw [escape, List.flatMap_cons, List.append_assoc, scanString_escapeChar, ← escape, ih]
    rfl

/-! ## Reading back -/

theorem unescape_escapeChar (c : Char) (rest : List Char) :
    unescape (escapeChar c ++ rest) = (unescape rest).map (c :: ·) := by
  obtain ⟨d, hd, hu, hsimple⟩ | ⟨hlow, hc⟩ | ⟨hc, hquote, hback, hlow⟩ := escapeChar_cases c
  · rw [hd]
    show unescape ('\\' :: d :: rest) = _
    rw [unescape, hsimple]
    · cases unescape rest <;> rfl
    · exact fun _ _ _ _ _ h => absurd h hu
  · rw [hc]
    show unescape ('\\' :: 'u' :: '0' :: '0' :: _ :: _ :: rest) = _
    have hlowhalf : isLowHalf c.toNat = false := decide_eq_false (by omega)
    have hhighhalf : isHighHalf c.toNat = false := decide_eq_false (by omega)
    rw [unescape, hexValue4?_control hlow]
    simp only [Option.bind_eq_bind, Option.bind_some, hlowhalf, hhighhalf, Char.ofNat_toNat]
    cases unescape rest <;> rfl
  · rw [hc]
    show unescape (c :: rest) = _
    rw [unescape, if_neg hback]
    · cases unescape rest <;> rfl
    · exact fun _ _ _ _ _ h => absurd h hback
    · exact fun _ _ h => absurd h hback

/-- **The spelling of a text stands for the text.** -/
theorem unescape_escape (s : List Char) : unescape (escape s) = some s := by
  induction s with
  | nil => rfl
  | cons c s ih =>
    rw [escape, List.flatMap_cons, unescape_escapeChar, ← escape, ih]
    rfl

/-- Two quoted spellings that begin one text are the same, and so is what follows. -/
theorem escape_append_inj {s t r r' : List Char}
    (h : escape s ++ '"' :: r = escape t ++ '"' :: r') : s = t ∧ r = r' := by
  have hscan := scanString_escape s r
  rw [h, scanString_escape, Option.some.injEq, Prod.mk.injEq] at hscan
  refine ⟨?_, hscan.2.symm⟩
  rw [← Option.some.injEq, ← unescape_escape, ← unescape_escape, hscan.1]

end QueryPlan.Json
