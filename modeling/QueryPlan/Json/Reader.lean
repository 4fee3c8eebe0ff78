import QueryPlan.Json.Tree

/-!
# Reading JSON text

`Json.parse?` reads one JSON text with blanks around it.  The grammar is the standard one: blanks
are the space, the tab and the two line ends, a number has no superfluous zero and at least one
digit on each side of its point, and no comma stands before a closing bracket.

The readers take a bound on the number of their calls.  Every second call moves past a character,
so twice the length of the text is enough.

`parse?` stands for the reader of the serializer, a library outside this project, and follows the
grammar that is documented for it.  It says which texts are read, and as which tree; the errors for
the others are left out.  How deep a text may be nested is checked on the tree (`storedDepth`).
-/

set_option autoImplicit false

namespace QueryPlan.Json

/-- The four blanks of JSON. -/
def isBlank (c : Char) : Bool := c == ' ' || c == '\t' || c == '\n' || c == '\r'

/-- The text behind its leading blanks. -/
def skipBlanks (s : List Char) : List Char := s.dropWhile isBlank

/-! ## Numbers -/

/-- Whether a character is one of the ten digits. -/
def isDigit (c : Char) : Bool := decide (48 ≤ c.toNat ∧ c.toNat ≤ 57)

/-- At least one digit, and what follows the digits. -/
def scanDigits (s : List Char) : Option (List Char × List Char) :=
  match s.takeWhile isDigit with
  | [] => none
  | digits => some (digits, s.dropWhile isDigit)

/-- The whole part of a number: a zero alone, or digits that begin with another one. -/
def scanWhole : List Char → Option (List Char × List Char)
  | '0' :: rest => some (['0'], rest)
  | s => scanDigits s

/-- The places of a number behind its point, if it has a point. -/
def scanFraction : List Char → Option (List Char × List Char)
  | '.' :: rest => do
    let (digits, rest) ← scanDigits rest
    return ('.' :: digits, rest)
  | s => some ([], s)

/-- The sign of an exponent, if it has one. -/
def scanSign : List Char → List Char × List Char
  | '+' :: rest => (['+'], rest)
  | '-' :: rest => (['-'], rest)
  | s => ([], s)

/-- The exponent of a number, if it has one. -/
def scanExponent : List Char → Option (List Char × List Char)
  | c :: rest =>
    if c = 'e' ∨ c = 'E' then do
      let (sign, rest) := scanSign rest
      let (digits, rest) ← scanDigits rest
      return (c :: (sign ++ digits), rest)
    else some ([], c :: rest)
  | [] => some ([], [])

/-- A number without its sign. -/
def scanUnsigned (s : List Char) : Option (List Char × List Char) := do
  let (whole, s) ← scanWhole s
  let (fraction, s) ← scanFraction s
  let (exponent, s) ← scanExponent s
  return (whole ++ fraction ++ exponent, s)

/-- A number, and what follows it. -/
def scanNumber : List Char → Option (List Char × List Char)
  | '-' :: rest => do
    let (spelling, rest) ← scanUnsigned rest
    return ('-' :: spelling, rest)
  | s => scanUnsigned s

/-! ## Values -/

mutual

/-- One value, and what follows it. -/
def readValue : Nat → List Char → Option (Json × List Char)
  | 0, _ => none
  | n + 1, s =>
    match skipBlanks s with
    | 'n' :: 'u' :: 'l' :: 'l' :: rest => some (.null, rest)
    | 't' :: 'r' :: 'u' :: 'e' :: rest => some (.bool true, rest)
    | 'f' :: 'a' :: 'l' :: 's' :: 'e' :: rest => some (.bool false, rest)
    | '"' :: rest => do
      let (spelling, rest) ← scanString rest
      return (.str spelling, rest)
    | '[' :: rest =>
      match skipBlanks rest with
      | ']' :: rest => some (.arr [], rest)
      | _ => do
        let (items, rest) ← readItems n rest
        return (.arr items, rest)
    | '\x7b' :: rest =>
      match skipBlanks rest with
      | '\x7d' :: rest => some (.obj [], rest)
      | _ => do
        let (members, rest) ← readMembers n rest
        return (.obj members, rest)
    | s => do
      let (spelling, rest) ← scanNumber s
      return (.num spelling, rest)

/-- The items of an array up to its closing bracket, at least one. -/
def readItems : Nat → List Char → Option (List Json × List Char)
  | 0, _ => none
  | n + 1, s => do
    let (item, s) ← readValue n s
    match skipBlanks s with
    | ',' :: rest => do
      let (items, rest) ← readItems n rest
      return (item :: items, rest)
    | ']' :: rest => return ([item], rest)
    | _ => none

/-- The members of an object up to its closing brace, at least one. -/
def readMembers : Nat → List Char → Option (List (List Char × Json) × List Char)
  | 0, _ => none
  | n + 1, s =>
    match skipBlanks s with
    | '"' :: rest => do
      let (name, rest) ← scanString rest
      match skipBlanks rest with
      | ':' :: rest => do
        let (value, rest) ← readValue n rest
        match skipBlanks rest with
        | ',' :: rest => do
          let (members, rest) ← readMembers n rest
          return ((name, value) :: members, rest)
        | '\x7d' :: rest => return ([(name, value)], rest)
        | _ => none
      | _ => none
    | _ => none

end

/-- The tree of a whole text. -/
def parse? (s : String) : Option Json := do
  let (value, rest) ← readValue (2 * s.length + 2) s.toList
  if (skipBlanks rest).isEmpty then some value else none

end QueryPlan.Json
