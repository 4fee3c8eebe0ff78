/-!
# Regular expressions

What is needed of regular expressions: characters, the dot, repetitions of these, the two anchors,
and the flag under which the dot takes line breaks too.  `Regex.ofText?` reads them in the usual
syntax.  It says nothing of groups, alternatives, classes and the other repetitions: a character
that has a meaning there is read only behind a backslash.

An engine is given the text of a regular expression and a text to look in.  It may refuse the
expression.  Engines are libraries of their own, so whoever uses one leaves open which it is
(`Engine`).  The one here, `Regex.engine`, refuses everything that is not read.  It goes over the
items of the expression from the last to the first, and keeps for every place in the text whether
the items so far match from there on.
-/

set_option autoImplicit false

namespace QueryPlan.Text

/-- A test for texts, given the text of a regular expression; none if that is refused. -/
abbrev Engine := List Char → Option (List Char → Bool)

/-- What one character has to be. -/
inductive CharSet where
  | any
  | exactly (c : Char)
deriving DecidableEq

/-- Whether a character is as it has to be.  A dot takes line breaks only if told so. -/
def CharSet.has (dotAll : Bool) : CharSet → Char → Bool
  | any, d => dotAll || d != '\n'
  | exactly c, d => d == c

/-- An item of a regular expression: an anchor, one character, or any number of them. -/
inductive RegexItem where
  | start
  | stop
  | one (set : CharSet)
  | many (set : CharSet)
deriving DecidableEq

/-- A regular expression: its items, one behind the other. -/
structure Regex where
  /-- Whether a dot takes line breaks too. -/
  dotAll : Bool
  items : List RegexItem
deriving DecidableEq

namespace Regex

/-! ## Text -/

/-- Whether a character has a meaning of its own in some regular expressions. -/
def isMeta (c : Char) : Bool :=
  ['\\', '.', '+', '*', '?', '(', ')', '|', '[', ']', '\x7b', '\x7d', '^', '$', '#', '&', '-',
    '~'].contains c

/-- What is written in a regular expression for a character that is to be met. -/
def escape (c : Char) : List Char := if isMeta c then ['\\', c] else [c]

/-- A sign in the text of a regular expression. -/
inductive Sign where
  | start
  | stop
  | set (set : CharSet)
  | star
deriving DecidableEq

/-- The signs of a regular expression. -/
def signs? : List Char → Option (List Sign)
  | [] => some []
  | '\\' :: c :: rest => if isMeta c then (signs? rest).map (.set (.exactly c) :: ·) else none
  | '^' :: rest => (signs? rest).map (.start :: ·)
  | '$' :: rest => (signs? rest).map (.stop :: ·)
  | '*' :: rest => (signs? rest).map (.star :: ·)
  | '.' :: rest => (signs? rest).map (.set .any :: ·)
  | c :: rest => if isMeta c then none else (signs? rest).map (.set (.exactly c) :: ·)

/-- The items that signs stand for: a star belongs to the character before it. -/
def items? : List Sign → Option (List RegexItem)
  | [] => some []
  | .start :: rest => (items? rest).map (.start :: ·)
  | .stop :: rest => (items? rest).map (.stop :: ·)
  | .set set :: .star :: rest => (items? rest).map (.many set :: ·)
  | .set set :: rest => (items? rest).map (.one set :: ·)
  | .star :: _ => none

/-- The regular expression with a text. -/
def ofText? : List Char → Option Regex
  | '(' :: '?' :: 's' :: ')' :: rest => ((signs? rest).bind items?).map (⟨true, ·⟩)
  | text => ((signs? text).bind items?).map (⟨false, ·⟩)

/-! ## Search -/

/-- The places from which one character and then the rest match, given those from which the rest
does.  There is a place before each character and one at the end. -/
def onePlaces (has : Char → Bool) : List Char → List Bool → List Bool
  | c :: text, _ :: later => (has c && later.head?.getD false) :: onePlaces has text later
  | _, _ => [false]

/-- The places from which any number of characters and then the rest match. -/
def manyPlaces (has : Char → Bool) : List Char → List Bool → List Bool
  | c :: text, here :: later =>
    let places := manyPlaces has text later
    (here || has c && places.head?.getD false) :: places
  | _, places => places

/-- Only the first place is left. -/
def startPlaces (text : List Char) (places : List Bool) : List Bool :=
  places.head?.getD false :: text.map fun _ => false

/-- Only the last place is left. -/
def stopPlaces : List Char → List Bool → List Bool
  | _ :: text, _ :: later => false :: stopPlaces text later
  | _, places => places

/-- The places from which an item and then the rest match. -/
def itemPlaces (dotAll : Bool) (text : List Char) (places : List Bool) : RegexItem → List Bool
  | .start => startPlaces text places
  | .stop => stopPlaces text places
  | .one set => onePlaces (set.has dotAll) text places
  | .many set => manyPlaces (set.has dotAll) text places

/-- The places from which some items match. -/
def places (dotAll : Bool) (text : List Char) : List RegexItem → List Bool
  | [] => true :: text.map fun _ => true
  | item :: items => itemPlaces dotAll text (places dotAll text items) item

/-- Whether a regular expression is found somewhere in a text. -/
def isFound (r : Regex) (text : List Char) : Bool := (places r.dotAll text r.items).any id

/-- The engine for regular expressions that are read here. -/
def engine : Engine := fun source => (ofText? source).map isFound

end Regex

end QueryPlan.Text
