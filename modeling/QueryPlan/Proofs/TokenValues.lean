import QueryPlan.Proofs.Wording

/-!
# The answer of a predicate, read off its tokens

The text of a predicate is the text of its tokens (`Proofs/Wording.lean`).  If the answer of the
predicate can be found from its tokens alone, given what the words among them mean, then predicates
with the same text have the same answer.  This file defines a reader that goes through the tokens
once, from left to right, and works out a value as it goes, and shows for which predicates that
value is the answer.

## The reader

`Token.read` says what one token makes of a stack of levels, one for each parenthesis that is open.
`readAll` goes through several tokens, and `readout` looks at what has been found in the end.  A
level keeps the values before the last comma, and a line with what was read since:

* **The operand.**  An operator behind its operand, such as `IS NULL`, is applied to it at once.
* **What waits for an operand.**  An operator with an operand behind it is applied as soon as that
  has been read, so comparisons are grouped from the left.
* **What the connectives make of the line.**  They are left to the end of it.

When a parenthesis is closed, what stands in it makes an operand of the level around it: the value
of a call, of `IN`, of a negation, or the answer of a connective that was in parentheses.

## Grouping

The reader does not see the tree.  It finds the answer if the tree is grouped as the tokens are read
(`Expr.isGrouped`).  `Expr.looseness` says how well an expression holds together in a text:

* **0**: words, calls and negations have an end of their own and are read anywhere.
* **1**: comparisons and other tests may stand before an operator, which then takes all of the test
  for its operand.  Behind an operator it would take the first word only.
* **2**: connectives are read on a line of their own.  As operands they stand in parentheses, unless
  an alias hides that they are connectives.
* **3**: a connective of one operand leaves no mark in the text.  The reader comes to the value of
  the operand instead, which has the same truth but need not be an answer.

So `(a = b) = c` is read as it is meant, and `a = (b = c)`, which has the same text, is not.

## The argument

`Reads` says of one expression what the reader makes of its tokens, with a field for each place that
it may stand in: behind an operator, before one, and alone.  `reads_tokens` proves it by induction
over the nodes.  Each way of putting tokens together has its lemma: a word (`Reads.of_word`), a test
that begins with an operand (`Reads.of_test`) and one of two operands (`Reads.of_comparison`), a
list in parentheses (`readAll_closed`), operands with a connective in between
(`Reads.of_connective`) and an alias behind an expression (`Reads.named`).

What the reader is told of a column or a constant is the word for it, so `readout_tokens` says that
the words and the marks of a predicate are all that its answer depends on.
-/

set_option autoImplicit false

namespace QueryPlan

/-! ## The reader -/

/-- What a reader has read since the last comma. -/
structure Line where
  /-- What the connectives before make of the operand. -/
  connected : Value → Value
  /-- What an operator makes of the operand behind it. -/
  awaited : Value → Value
  operand : Option Value

namespace Line

/-- A line on which nothing has been read. -/
def start : Line := ⟨id, id, none⟩

/-- The value of the line so far. -/
def value? (l : Line) : Option Value := l.operand.map l.connected

/-- An operand has been read. -/
def take (v : Value) (l : Line) : Line := { l with awaited := id, operand := some (l.awaited v) }

/-- An operator with an operand behind it has been read. -/
def await (f : Value → Value → Value) (l : Line) : Line :=
  { l with awaited := f (l.operand.getD .null) }

/-- An operator behind its operand has been read. -/
def apply (f : Value → Value) (l : Line) : Line := { l with operand := l.operand.map f }

/-- A connective has been read. -/
def connect (f : Truth → Truth → Truth) (l : Line) : Line :=
  ⟨fun v => .ofTruth (f (l.value?.getD .null).truth v.truth), id, none⟩

end Line

/-- What a reader knows of an open parenthesis. -/
structure Level where
  /-- What becomes of the values in the parenthesis when it is closed. -/
  close : List Value → Value
  /-- The values before the last comma. -/
  items : List Value
  line : Line

namespace Level

/-- A parenthesis that has just been opened. -/
def opened (close : List Value → Value) : Level := ⟨close, [], .start⟩

/-- All values in the parenthesis. -/
def values (l : Level) : List Value := l.items ++ l.line.value?.toList

/-- A parenthesis after one more step on its line. -/
def onLine (f : Line → Line) (l : Level) : Level := { l with line := f l.line }

/-- An operand has been read. -/
def take (v : Value) (l : Level) : Level := l.onLine (.take v)

/-- A comma has been read. -/
def next (l : Level) : Level := ⟨l.close, l.values, .start⟩

end Level

/-- What a mark makes of the innermost parenthesis and those around it. -/
def Mark.read (l : Level) (below : List Level) : Mark → List Level
  | groupOpen => .opened (fun vs => .ofTruth (vs.headD .null).truth) :: l :: below
  | notOpen => .opened (fun vs => .ofTruth (vs.headD .null).truth.not) :: l :: below
  | close =>
    match below with
    | [] => [l]
    | outer :: below => outer.take (l.close l.values) :: below
  | comma => l.next :: below
  | and => l.onLine (.connect .and) :: below
  | or => l.onLine (.connect .or) :: below
  | compare op => l.onLine (.await fun v w => .ofTruth (v.compare op w)) :: below
  | like negated =>
    l.onLine (.await fun v p => .ofTruth ((Expr.likeTruth v p).negateIf negated)) :: below
  | isNull negated =>
    l.onLine (.apply fun v => .ofTruth ((Truth.ofBool v.isNull).negateIf negated)) :: below
  | inOpen negated =>
    .opened (fun vs => .ofTruth (((l.line.operand.getD .null).among vs).negateIf negated)) ::
      l :: below

section Reader

variable (ρ : List Char → Value)

/-- What a token makes of the parentheses that are open. -/
def Token.read : Token → List Level → List Level
  | _, [] => []
  | mark m, l :: below => m.read l below
  | word w, l :: below => l.take (ρ w) :: below
  | quoted s, l :: below => l.take (.str (String.ofList s)) :: below
  | call name, l :: below =>
    .opened (fun vs => (Expr.applyFunction (String.ofList name) vs).rounded) :: l :: below
  | label _, l :: below => l :: below

/-- What several tokens make of the parentheses that are open. -/
def readAll (ts : List Token) (ls : List Level) : List Level :=
  ts.foldl (fun ls t => t.read ρ ls) ls

/-- The value that a reader finds, given the values of the words. -/
def readout (ts : List Token) : Option Value :=
  (readAll ρ ts [.opened fun vs => vs.headD .null]).head?.bind fun l => l.line.value?

@[simp] theorem readAll_nil (ls : List Level) : readAll ρ [] ls = ls := rfl

@[simp] theorem readAll_cons (t : Token) (ts : List Token) (ls : List Level) :
    readAll ρ (t :: ts) ls = readAll ρ ts (t.read ρ ls) := rfl

@[simp] theorem readAll_append (ts us : List Token) (ls : List Level) :
    readAll ρ (ts ++ us) ls = readAll ρ us (readAll ρ ts ls) := List.foldl_append

end Reader

namespace Expr

/-! ## Grouping -/

/-- How loosely an expression is written: a connective more than a comparison or another test, and
these more than what has an end of its own.  A connective of one operand leaves no mark in the
text at all. -/
def looseness : Expr → Nat
  | compare .. | isNull .. | inList .. | like .. => 1
  | and operands | or operands => if operands.length = 1 then 3 else 2
  | named operand _ => looseness operand
  | _ => 0

/-- How loosely it is written as an operand, where connectives stand in parentheses. -/
def operandLooseness (e : Expr) : Nat := if e.isConnective then 0 else e.looseness

/-- Whether the parts of a node are grouped as their text will be read. -/
def isGrouped : Expr → Bool
  | compare left _ right | like left right _ =>
    decide (left.operandLooseness ≤ 1) && decide (right.operandLooseness = 0)
  | isNull operand _ => decide (operand.operandLooseness ≤ 1)
  | inList operand members _ =>
    decide (operand.operandLooseness ≤ 1) && members.all fun x => decide (x.looseness ≤ 2)
  | call _ args => args.all fun x => decide (x.looseness ≤ 2)
  | and operands | or operands =>
    !operands.isEmpty && operands.all fun x => decide (x.operandLooseness ≤ 1)
  | _ => true

/-- The word that an expression is. -/
def word? : Expr → Option (List Char)
  | lit (.str _) => none
  | lit l => some l.sql.toList
  | col c => some c.sql.toList
  | _ => none

/-! ## Reading an expression -/

section Row

variable (ρ : List Char → Value) (row : Row)

/-- The value of an expression as comparisons see it. -/
def seen (e : Expr) : Value := (e.eval row).rounded

/-- What a reader makes of the tokens of an expression, depending on how loosely it is written. -/
structure Reads (e : Expr) : Prop where
  /-- Behind an operator. -/
  tight : e.looseness = 0 → ∀ l below,
    readAll ρ e.tokens (l :: below) = l.take (e.seen row) :: below
  /-- Before an operator, or next to a connective. -/
  left : e.looseness ≤ 1 → ∀ l below, l.line.awaited = id →
    readAll ρ e.tokens (l :: below) = l.take (e.seen row) :: below
  /-- On a line of its own.  There at least the answer is found. -/
  alone : ∀ close items below, ∃ line u, line.value? = some u ∧
    u.truth = (e.seen row).truth ∧ (e.looseness ≤ 2 → u = e.seen row) ∧
    readAll ρ e.tokens (⟨close, items, .start⟩ :: below) = ⟨close, items, line⟩ :: below

variable {ρ row} {e : Expr} {es : List Expr}

theorem seen_of_isConnective (h : e.isConnective) : e.seen row = .ofTruth (e.seen row).truth := by
  cases e with
  | and operands => simp [seen, eval]
  | or operands => simp [seen, eval]
  | _ => cases h

namespace Reads

theorem of_left (h : ∀ l below, l.line.awaited = id →
      readAll ρ e.tokens (l :: below) = l.take (e.seen row) :: below)
    (htight : e.looseness = 0 →
      ∀ l below, readAll ρ e.tokens (l :: below) = l.take (e.seen row) :: below) :
    Reads ρ row e where
  tight := htight
  left _ := h
  alone _ _ _ := ⟨_, _, rfl, rfl, fun _ => rfl, h _ _ rfl⟩

theorem of_tight (h : ∀ l below, readAll ρ e.tokens (l :: below) = l.take (e.seen row) :: below) :
    Reads ρ row e :=
  of_left (fun l below _ => h l below) fun _ => h

/-- Parentheses around an expression find its answer at least. -/
theorem parenthesized (h : Reads ρ row e) (close : List Value → Value) (l : Level)
    (below : List Level) : ∃ u : Value, u.truth = (e.seen row).truth ∧
      readAll ρ (e.tokens ++ [.mark .close]) (.opened close :: l :: below) =
        l.take (close [u]) :: below := by
  obtain ⟨line, u, hvalue, htruth, -, hread⟩ := h.alone close [] (l :: below)
  refine ⟨u, htruth, ?_⟩
  rw [readAll_append, Level.opened, hread, readAll_cons, readAll_nil, Token.read, Mark.read,
    Level.values, hvalue]
  rfl

/-- An operand behind an operator. -/
theorem operand_tight (h : Reads ρ row e) (he : e.operandLooseness = 0) (l : Level)
    (below : List Level) :
    readAll ρ e.operandTokens (l :: below) = l.take (e.seen row) :: below := by
  rw [operandTokens, groupedTokens]
  rw [operandLooseness] at he
  split at he
  · next hconnective =>
    obtain ⟨u, htruth, hread⟩ :=
      h.parenthesized (fun vs => .ofTruth (vs.headD .null).truth) l below
    rw [if_pos hconnective, readAll_cons, Token.read, Mark.read, hread,
      seen_of_isConnective hconnective, ← htruth]
    rfl
  · next hconnective =>
    rw [if_neg hconnective]
    exact h.tight he l below

/-- An operand before an operator, or next to a connective. -/
theorem operand_left (h : Reads ρ row e) (he : e.operandLooseness ≤ 1) {l : Level}
    (hl : l.line.awaited = id) (below : List Level) :
    readAll ρ e.operandTokens (l :: below) = l.take (e.seen row) :: below := by
  cases hconnective : e.isConnective with
  | true => exact h.operand_tight (by rw [operandLooseness, if_pos hconnective]) l below
  | false =>
    rw [operandLooseness, hconnective] at he
    rw [operandTokens, groupedTokens, hconnective]
    exact h.left he l below hl

/-! ### Words and tests -/

theorem of_word {w : List Char} (htokens : e.tokens = [.word w]) (hword : ρ w = e.seen row) :
    Reads ρ row e :=
  of_tight fun l below => by
    rw [htokens, readAll_cons, readAll_nil, Token.read, hword]

/-- A test begins with an operand.  What is behind the operand makes the value of the test of it. -/
theorem of_test {operand : Expr} {rest : List Token} (h : Reads ρ row operand)
    (hgrouped : operand.operandLooseness ≤ 1) (hloose : e.looseness = 1)
    (htokens : e.tokens = operand.operandTokens ++ rest)
    (hrest : ∀ (l : Level) below, l.line.awaited = id →
      readAll ρ rest (l.take (operand.seen row) :: below) = l.take (e.seen row) :: below) :
    Reads ρ row e := by
  refine of_left (fun l below hl => ?_) fun htight => by omega
  rw [htokens, readAll_append, h.operand_left hgrouped hl below]
  exact hrest l below hl

/-- A test of two operands.  The operator waits for the one behind it, so that one must be read
without a look at what stands before. -/
theorem of_comparison {left right : Expr} {m : Mark} {f : Value → Value → Value}
    (hm : ∀ l below, m.read l below = l.onLine (.await f) :: below)
    (hleft : Reads ρ row left) (hright : Reads ρ row right)
    (hgrouped : (decide (left.operandLooseness ≤ 1) &&
      decide (right.operandLooseness = 0)) = true)
    (hloose : e.looseness = 1)
    (htokens : e.tokens = left.operandTokens ++ .mark m :: right.operandTokens)
    (hseen : e.seen row = f (left.seen row) (right.seen row)) : Reads ρ row e := by
  simp only [Bool.and_eq_true, decide_eq_true_eq] at hgrouped
  refine of_test hleft hgrouped.1 hloose htokens fun l below hl => ?_
  rw [readAll_cons, Token.read, hm, hright.operand_tight hgrouped.2, hseen]
  simp [Level.onLine, Level.take, Line.take, Line.await, hl]

end Reads

/-! ### Lists -/

/-- The items of a list are read one after the other, with the mark in between. -/
theorem readAll_punctuated_cons_cons (m : Mark) (f : Expr → List Token) (x : Expr)
    (ls : List Level) : readAll ρ (punctuated m ((e :: x :: es).map f)) ls =
      readAll ρ (punctuated m ((x :: es).map f)) ((Token.mark m).read ρ (readAll ρ (f e) ls)) := by
  rw [List.map_cons, List.map_cons, punctuated_cons_cons, readAll_append, readAll_cons]

/-- The values of a list stand before its commas and on its last line. -/
theorem readAll_punctuated (h : ∀ e ∈ es, Reads ρ row e ∧ e.looseness ≤ 2)
    (close : List Value → Value) (items : List Value) (below : List Level) :
    ∃ l : Level, l.close = close ∧ l.values = items ++ es.map (seen row) ∧
      readAll ρ (punctuated .comma (es.map tokens)) (⟨close, items, .start⟩ :: below) =
        l :: below := by
  induction es generalizing items with
  | nil => exact ⟨_, rfl, rfl, rfl⟩
  | cons e es ih =>
    obtain ⟨⟨he, hloose⟩, hes⟩ := List.forall_mem_cons.mp h
    obtain ⟨line, u, hvalue, -, hu, hread⟩ := he.alone close items below
    rw [hu hloose] at hvalue
    cases es with
    | nil =>
      refine ⟨_, rfl, ?_, by rw [List.map_singleton, punctuated_singleton, hread]⟩
      rw [Level.values, hvalue]
      rfl
    | cons x es =>
      obtain ⟨l, hclose, hvalues, hrest⟩ := ih hes (items ++ [e.seen row])
      refine ⟨l, hclose, by simpa using hvalues, ?_⟩
      rw [readAll_punctuated_cons_cons, hread, ← hrest]
      simp only [Token.read, Mark.read, Level.next, Level.values, hvalue, Option.toList_some]

/-- A list in parentheses becomes the value that the parenthesis was opened for. -/
theorem readAll_closed (h : ∀ e ∈ es, Reads ρ row e)
    (hgrouped : (es.all fun x => decide (x.looseness ≤ 2)) = true)
    (close : List Value → Value) (l : Level) (below : List Level) :
    readAll ρ (punctuated .comma (tokensList es) ++ [.mark .close]) (.opened close :: l :: below) =
      l.take (close ((evalList row es).map Value.rounded)) :: below := by
  have hloose (x : Expr) (hx : x ∈ es) : x.looseness ≤ 2 :=
    of_decide_eq_true (List.all_eq_true.mp hgrouped x hx)
  obtain ⟨inner, hclose, hvalues, hread⟩ :=
    readAll_punctuated (fun x hx => ⟨h x hx, hloose x hx⟩) close [] (l :: below)
  rw [tokensList_eq_map, readAll_append, Level.opened, hread, readAll_cons, readAll_nil, Token.read,
    Mark.read, hclose, hvalues, List.nil_append, evalList_eq_map, List.map_map]
  rfl

/-! ### Connectives -/

section Connectives

variable {m : Mark} {f : Truth → Truth → Truth}
  (hm : ∀ l below, m.read l below = l.onLine (.connect f) :: below)
include hm

/-- Operands behind a connective are taken one by one into what stands before. -/
theorem readAll_connected (h : ∀ e ∈ es, Reads ρ row e ∧ e.operandLooseness ≤ 1) (hne : es ≠ [])
    (t : Truth) (close : List Value → Value) (items : List Value) (below : List Level) :
    ∃ line : Line, line.value? = some (.ofTruth ((es.map fun e => (e.seen row).truth).foldl f t)) ∧
      readAll ρ (punctuated m (es.map operandTokens))
        (⟨close, items, ⟨fun v => .ofTruth (f t v.truth), id, none⟩⟩ :: below) =
          ⟨close, items, line⟩ :: below := by
  induction es generalizing t with
  | nil => exact absurd rfl hne
  | cons e es ih =>
    obtain ⟨⟨hreads, hloose⟩, hes⟩ := List.forall_mem_cons.mp h
    have hread := hreads.operand_left hloose
      (l := ⟨close, items, ⟨fun v => .ofTruth (f t v.truth), id, none⟩⟩) rfl below
    cases es with
    | nil => exact ⟨_, rfl, by rw [List.map_singleton, punctuated_singleton, hread]; rfl⟩
    | cons x es =>
      obtain ⟨line, hvalue, hrest⟩ := ih hes (List.cons_ne_nil _ _) (f t (e.seen row).truth)
      refine ⟨line, hvalue, ?_⟩
      rw [readAll_punctuated_cons_cons, hread, Token.read, Level.take, hm, ← hrest]
      simp [Level.onLine, Line.connect, Line.take, Line.value?]

/-- A connective comes to its answer.  With one operand it leaves the value of that. -/
theorem readAll_connective {unit : Truth} (hassoc : ∀ a b c, f (f a b) c = f a (f b c))
    (hunit : ∀ a, f a unit = a) (h : ∀ e ∈ es, Reads ρ row e ∧ e.operandLooseness ≤ 1)
    (hne : es ≠ []) (close : List Value → Value) (items : List Value) (below : List Level) :
    ∃ line : Line, ∃ u, line.value? = some u ∧
      u.truth = (es.map fun e => (e.seen row).truth).foldr f unit ∧
      (es.length ≠ 1 → u = .ofTruth u.truth) ∧
      readAll ρ (punctuated m (es.map operandTokens)) (⟨close, items, .start⟩ :: below) =
        ⟨close, items, line⟩ :: below := by
  obtain ⟨e, es, rfl⟩ := List.exists_cons_of_ne_nil hne
  obtain ⟨⟨hreads, hloose⟩, hes⟩ := List.forall_mem_cons.mp h
  have hread := hreads.operand_left hloose (l := ⟨close, items, .start⟩) rfl below
  cases es with
  | nil =>
    -- no connective has been read, so nothing makes an answer of the value
    refine ⟨Line.start.take (e.seen row), e.seen row, rfl, (hunit _).symm,
      fun hone => absurd rfl hone, ?_⟩
    rw [List.map_singleton, punctuated_singleton, hread]
    rfl
  | cons x es =>
    obtain ⟨line, hvalue, hrest⟩ :=
      readAll_connected hm hes (List.cons_ne_nil _ _) (e.seen row).truth close items below
    rw [foldl_eq_foldr_cons hassoc hunit] at hvalue
    refine ⟨line, _, hvalue, Value.truth_ofTruth _, fun _ => by rw [Value.truth_ofTruth], ?_⟩
    rw [readAll_punctuated_cons_cons, hread, Token.read, hm, ← hrest]
    rfl

/-- A connective is only read on a line of its own, and with one operand only its answer is
found. -/
theorem Reads.of_connective {unit : Truth} (hassoc : ∀ a b c, f (f a b) c = f a (f b c))
    (hunit : ∀ a, f a unit = a) (h : ∀ x ∈ es, Reads ρ row x)
    (hgrouped : (!es.isEmpty && es.all fun x => decide (x.operandLooseness ≤ 1)) = true)
    (hconnective : e.isConnective) (hloose : e.looseness = if es.length = 1 then 3 else 2)
    (htokens : e.tokens = punctuated m (tokensOperands es))
    (htruth : (e.seen row).truth = (es.map (eval row)).foldr (fun v t => f v.truth t) unit) :
    Reads ρ row e where
  tight htight := by split at hloose <;> omega
  left hleft := by split at hloose <;> omega
  alone close items below := by
    simp only [Bool.and_eq_true, List.all_eq_true, decide_eq_true_eq, Bool.not_eq_true',
      List.isEmpty_eq_false_iff] at hgrouped
    obtain ⟨line, u, hvalue, hu, hone, hread⟩ := readAll_connective hm hassoc hunit
      (fun x hx => ⟨h x hx, hgrouped.2 x hx⟩) hgrouped.1 close items below
    have hanswer : u.truth = (e.seen row).truth := by
      rw [hu, htruth]
      simp [seen, List.foldr_map]
    refine ⟨line, u, hvalue, hanswer, fun htwo => ?_, by rw [htokens, tokensOperands_eq_map, hread]⟩
    rw [hone (by intro hlength; rw [if_pos hlength] at hloose; omega), hanswer]
    exact (seen_of_isConnective hconnective).symm

end Connectives

/-! ### Every expression -/

/-- Whether the names of a node are plain, its parts are grouped as they will be read, and its word
means what the row says. -/
structure IsRead (ρ : List Char → Value) (row : Row) (e : Expr) : Prop where
  plain : e.isPlain
  grouped : e.isGrouped
  word : ∀ w, e.word? = some w → ρ w = e.seen row

/-- An alias makes no difference. -/
theorem Reads.named {operand : Expr} (h : Reads ρ row operand) (output : Column) :
    Reads ρ row (.named operand output) := by
  have hlabel (l : Level) (below : List Level) :
      readAll ρ (operand.labelTokens output) (l :: below) = l :: below := by
    rcases operand.labelTokens_eq output with h | h <;> rw [h] <;> rfl
  refine ⟨fun hloose l below => ?_, fun hloose l below hl => ?_, fun close items below => ?_⟩
  · rw [tokens, readAll_append, h.tight hloose, hlabel]
    rfl
  · rw [tokens, readAll_append, h.left hloose l below hl, hlabel]
    rfl
  · obtain ⟨line, u, hvalue, htruth, hu, hread⟩ := h.alone close items below
    exact ⟨line, u, hvalue, htruth, hu, by rw [tokens, readAll_append, hread, hlabel]⟩

theorem reads_tokens (h : ∀ x ∈ e.subexprs, IsRead ρ row x) : Reads ρ row e := by
  refine nodes_induction (P := Reads ρ row) (fun e he ih => ?_) h
  have hgrouped := he.grouped
  cases e with
  | lit c =>
    cases c with
    | str s =>
      refine .of_tight fun l below => ?_
      rw [tokens, Literal.token, readAll_cons, readAll_nil, Token.read, String.ofList_toList]
      rfl
    | _ => exact .of_word rfl (he.word _ rfl)
  | col c => exact .of_word rfl (he.word _ rfl)
  | call name args =>
    have hargs : ∀ x ∈ args, Reads ρ row x := ih
    refine .of_tight fun l below => ?_
    rw [tokens, readAll_cons, Token.read, readAll_closed hargs hgrouped, String.ofList_toList,
      applyFunction, Text.foldName_upper he.plain, rounded_applyFolded]
    rfl
  | compare left op right =>
    exact .of_comparison (fun _ _ => rfl) (ih left (by simp [children]))
      (ih right (by simp [children])) hgrouped rfl rfl (by simp [seen, eval])
  | and operands =>
    have hoperands : ∀ x ∈ operands, Reads ρ row x := ih
    exact .of_connective (m := .and) (fun _ _ => rfl) Truth.and_assoc Truth.and_holds hoperands
      hgrouped rfl rfl rfl (by simp [seen, eval, evalAll_eq_foldr])
  | or operands =>
    have hoperands : ∀ x ∈ operands, Reads ρ row x := ih
    exact .of_connective (m := .or) (fun _ _ => rfl) Truth.or_assoc Truth.or_fails hoperands
      hgrouped rfl rfl rfl (by simp [seen, eval, evalAny_eq_foldr])
  | not operand =>
    refine .of_tight fun l below => ?_
    obtain ⟨u, htruth, hread⟩ := (ih operand (by simp [children])).parenthesized
      (fun vs => .ofTruth (vs.headD .null).truth.not) l below
    rw [tokens, readAll_cons, Token.read, Mark.read, hread, List.headD_cons, htruth]
    simp [seen, eval]
  | isNull operand negated =>
    refine .of_test (ih operand (by simp [children])) (of_decide_eq_true hgrouped) rfl rfl
      fun l below hl => ?_
    rw [readAll_cons, readAll_nil, Token.read, Mark.read]
    simp [Level.onLine, Level.take, Line.take, Line.apply, seen, eval, hl]
  | inList operand members negated =>
    simp only [isGrouped, Bool.and_eq_true, decide_eq_true_eq] at hgrouped
    have hmembers (x : Expr) (hx : x ∈ members) : Reads ρ row x :=
      ih x (List.mem_cons_of_mem _ hx)
    refine .of_test (ih operand (by simp [children])) hgrouped.1 rfl rfl fun l below hl => ?_
    rw [readAll_cons, Token.read, Mark.read, readAll_closed hmembers hgrouped.2]
    simp [Level.onLine, Level.take, Line.take, seen, eval, hl]
  | like operand pattern negated =>
    exact .of_comparison (fun _ _ => rfl) (ih operand (by simp [children]))
      (ih pattern (by simp [children])) hgrouped rfl rfl (by simp [seen, eval])
  | aggregate func args distinct => cases he.plain
  | named operand output => exact (ih operand (by simp [children])).named output

/-- **A reader finds the answer of a predicate.** -/
theorem readout_tokens (h : ∀ x ∈ e.subexprs, IsRead ρ row x) :
    (readout ρ e.tokens).map Value.truth = some (e.truth row) := by
  obtain ⟨line, u, hvalue, htruth, -, hread⟩ :=
    (reads_tokens h).alone (fun vs => vs.headD .null) [] []
  rw [readout, Level.opened, hread]
  show line.value?.map Value.truth = _
  rw [hvalue, Option.map_some, htruth, seen, Value.truth_rounded]
  rfl

end Row

end Expr

end QueryPlan
