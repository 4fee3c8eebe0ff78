import QueryPlan.Text.CaseTable

/-!
# Changing case

`upper` and `lower` change the case of a text character by character, over the whole character set.
One character may become several, as the sharp s does in upper case.  One letter looks around
itself: a capital sigma at the end of a word has a lower-case form of its own.
-/

set_option autoImplicit false

namespace QueryPlan.Text

/-- Whether a run of a case table holds a character. -/
def inRun (n : Nat) (run : Nat × Nat × Nat × Int) : Bool :=
  decide (run.1 ≤ n ∧ n ≤ run.2.1) && (n - run.1) % run.2.2.1 == 0

/-- What a character becomes by two case tables; without an entry it stays. -/
def mapCase (runs : List (Nat × Nat × Nat × Int)) (sequences : List (Nat × List Nat)) (c : Char) :
    List Char :=
  match sequences.lookup c.toNat with
  | some cs => cs.map Char.ofNat
  | none =>
    match runs.find? (inRun c.toNat) with
    | some run => [Char.ofNat (c.toNat + run.2.2.2).toNat]
    | none => [c]

/-- The upper-case form of a character. -/
def upperChar (c : Char) : List Char := mapCase upperRuns upperSequences c

/-- The lower-case form of a character outside any word. -/
def lowerChar (c : Char) : List Char := mapCase lowerRuns lowerSequences c

/-- Whether some range holds a character. -/
def inRanges (ranges : List (Nat × Nat)) (c : Char) : Bool :=
  ranges.any fun r => decide (r.1 ≤ c.toNat ∧ c.toNat ≤ r.2)

/-- Whether a word goes on: the first character that is not passed over carries case. -/
def meetsCased (s : List Char) : Bool :=
  match s.dropWhile (inRanges ignorableRanges) with
  | c :: _ => inRanges casedRanges c
  | [] => false

/-- Lower case with the characters before at hand, nearest first: a capital sigma that ends a word
becomes the final form. -/
def lowerFrom (before : List Char) : List Char → List Char
  | [] => []
  | c :: rest =>
    let here :=
      if c = 'Σ' then if meetsCased before && !meetsCased rest then ['ς'] else ['σ']
      else lowerChar c
    here ++ lowerFrom (c :: before) rest

/-- A text in upper case. -/
def upper (s : String) : String := String.ofList (s.toList.flatMap upperChar)

/-- A text in lower case. -/
def lower (s : String) : String := String.ofList (lowerFrom [] s.toList)

/-- A name with its 26 plain capital letters lowered, which is how names are looked up. -/
def foldName (s : String) : String := s.map Char.toLower

end QueryPlan.Text
