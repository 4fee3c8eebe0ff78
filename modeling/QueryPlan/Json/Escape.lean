/-!
# Strings inside JSON text

Between its quotes a JSON string is written with escapes.  `escape` gives the one spelling this
library writes: the quote, the backslash and the control characters are escaped, everything else
stands for itself.  `unescape` reads any spelling; it has no answer where an escape names one half
of a surrogate pair without the other half, since no character is meant then.

JSON is written and read by a serializer, a library of its own that lies outside this project.  The
two functions stand for its treatment of strings.  They follow the documented form: `unescape` takes
all spellings that JSON has for a character, and `escape` gives the one that the serializer writes.
-/

set_option autoImplicit false

namespace QueryPlan.Json

/-! ## Hexadecimal digits -/

/-- The lower-case hexadecimal digit of a number below 16. -/
def hexDigit (n : Nat) : Char := Nat.digitChar n

/-- The value of a hexadecimal digit of either case. -/
def hexValue? (c : Char) : Option Nat :=
  let n := c.toNat
  if 48 ≤ n ∧ n ≤ 57 then some (n - 48)
  else if 97 ≤ n ∧ n ≤ 102 then some (n - 87)
  else if 65 ≤ n ∧ n ≤ 70 then some (n - 55)
  else none

/-- The number written by four hexadecimal digits. -/
def hexValue4? (a b c d : Char) : Option Nat := do
  let a ← hexValue? a
  let b ← hexValue? b
  let c ← hexValue? c
  let d ← hexValue? d
  some (((a * 16 + b) * 16 + c) * 16 + d)

/-! ## Writing -/

/-- The spelling of one character. -/
def escapeChar (c : Char) : List Char :=
  if c = '"' then ['\\', '"']
  else if c = '\\' then ['\\', '\\']
  else if c = '\x08' then ['\\', 'b']
  else if c = '\x0c' then ['\\', 'f']
  else if c = '\n' then ['\\', 'n']
  else if c = '\r' then ['\\', 'r']
  else if c = '\t' then ['\\', 't']
  else if c.toNat < 32 then
    ['\\', 'u', '0', '0', hexDigit (c.toNat / 16), hexDigit (c.toNat % 16)]
  else [c]

/-- The spelling of a text between its quotes. -/
def escape (s : List Char) : List Char := s.flatMap escapeChar

/-! ## Reading -/

/-- The character behind a backslash followed by one letter or mark. -/
def simpleEscape? (c : Char) : Option Char :=
  if c = '"' ∨ c = '\\' ∨ c = '/' then some c
  else if c = 'b' then some '\x08'
  else if c = 'f' then some '\x0c'
  else if c = 'n' then some '\n'
  else if c = 'r' then some '\r'
  else if c = 't' then some '\t'
  else none

/-- Whether a 16-bit unit is the first half of a surrogate pair. -/
def isHighHalf (u : Nat) : Bool := decide (0xD800 ≤ u ∧ u < 0xDC00)

/-- Whether a 16-bit unit is the second half of a surrogate pair. -/
def isLowHalf (u : Nat) : Bool := decide (0xDC00 ≤ u ∧ u < 0xE000)

/-- The character that two halves name together. -/
def pairChar (high low : Nat) : Char :=
  Char.ofNat (0x10000 + (high - 0xD800) * 0x400 + (low - 0xDC00))

/-- The text that a spelling stands for. -/
def unescape : List Char → Option (List Char)
  | [] => some []
  | '\\' :: 'u' :: a :: b :: c :: d :: rest => do
    let unit ← hexValue4? a b c d
    if isLowHalf unit then none
    else if isHighHalf unit then
      match rest with
      | '\\' :: 'u' :: e :: f :: g :: h :: rest => do
        let low ← hexValue4? e f g h
        if isLowHalf low then return pairChar unit low :: (← unescape rest) else none
      | _ => none
    else return Char.ofNat unit :: (← unescape rest)
  | '\\' :: c :: rest => do
    let c ← simpleEscape? c
    return c :: (← unescape rest)
  | c :: rest => do
    if c = '\\' then none else return c :: (← unescape rest)

/-- Splits a text after an opening quote into the spelling up to the closing quote and what follows
it.  Every escape has to be well formed, and no control character may stand for itself. -/
def scanString : List Char → Option (List Char × List Char)
  | [] => none
  | '"' :: rest => some ([], rest)
  | '\\' :: 'u' :: a :: b :: c :: d :: rest => do
    let _ ← hexValue4? a b c d
    let (spelling, rest) ← scanString rest
    return ('\\' :: 'u' :: a :: b :: c :: d :: spelling, rest)
  | '\\' :: c :: rest => do
    let _ ← simpleEscape? c
    let (spelling, rest) ← scanString rest
    return ('\\' :: c :: spelling, rest)
  | c :: rest => do
    if c = '\\' ∨ c.toNat < 32 then none
    else
      let (spelling, rest) ← scanString rest
      return (c :: spelling, rest)

end QueryPlan.Json
