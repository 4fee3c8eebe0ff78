import Mathlib.Data.List.Chain
import Mathlib.Data.List.TakeWhile
import QueryPlan.Proofs.Pieces
import QueryPlan.Proofs.Quotation

/-!
# SQL text in tokens

The text of an expression is a row of tokens, as a lexer would cut it: words for columns and plain
constants, string constants in quotes, calls and labels with their names, and the marks in between
(`Expr.spell_tokens`).  Marks keep their blanks.  So a word, a quotation or a label is followed by a
blank, a comma, a closing parenthesis or nothing, and where names hold none of these the text can be
cut in one way only (`spell_inj`).

Nothing is claimed of which expression the tokens belong to; two expressions may share them.
-/

set_option autoImplicit false

namespace QueryPlan

/-! ## Marks -/

/-- A piece of text that is the same in every expression. -/
inductive Mark where
  | groupOpen
  | notOpen
  | close
  | comma
  | and
  | or
  | compare (op : Comparison)
  | like (negated : Bool)
  | isNull (negated : Bool)
  | inOpen (negated : Bool)

namespace Mark

/-- A mark as text. -/
def text : Mark → String
  | groupOpen => "("
  | notOpen => "NOT ("
  | close => ")"
  | comma => ", "
  | and => " AND "
  | or => " OR "
  | compare op => " " ++ op.symbol ++ " "
  | like negated => " " ++ Expr.notWord negated ++ "LIKE "
  | isNull negated => " IS " ++ Expr.notWord negated ++ "NULL"
  | inOpen negated => " " ++ Expr.notWord negated ++ "IN ("

/-- The marks that do not begin like a word. -/
def all : List Mark :=
  [groupOpen, close, comma, and, or] ++ Comparison.all.map compare ++
    [like, isNull, inOpen].flatMap fun mark => [mark false, mark true]

/-- The mark at the front of a text. -/
def first? (s : List Char) : Option Mark := all.find? fun m => m.text.toList.isPrefixOf s

/-- Whether a mark may follow an operand. -/
def continues : Mark → Bool
  | groupOpen | notOpen => false
  | _ => true

end Mark

/-! ## Tokens -/

/-- A character that may stand in a word. -/
def isWordChar (c : Char) : Bool := !([' ', '(', ')', ',', '\x27'].contains c)

/-- A part of a text that a lexer would cut out. -/
inductive Token where
  | mark (m : Mark)
  /-- A column, or a constant that is not a string. -/
  | word (s : List Char)
  /-- A string constant. -/
  | quoted (s : List Char)
  /-- The name of a function, with the parenthesis behind it. -/
  | call (name : List Char)
  /-- The name given by an alias. -/
  | label (name : List Char)

namespace Token

/-- A token as text. -/
def text : Token → List Char
  | mark m => m.text.toList
  | word s => s
  | quoted s => Literal.sqlString s
  | call name => name ++ ['(']
  | label name => " AS ".toList ++ name

/-- Whether the names in a token are words. -/
def fits : Token → Bool
  | word s | call s => !s.isEmpty && s.all isWordChar
  | label s => s.all isWordChar
  | _ => true

/-- Whether a token has no last character of its own. -/
def isOpenEnded : Token → Bool
  | word _ | quoted _ | label _ => true
  | _ => false

/-- Whether a token may follow an operand. -/
def continues : Token → Bool
  | mark m => m.continues
  | label _ => true
  | _ => false

/-- The token at the front of a text. -/
def first? (s : List Char) : Option Token :=
  match s.takeWhile isWordChar, s.dropWhile isWordChar with
  | [], '\x27' :: rest => (Literal.readInside? rest).map fun r => quoted r.1
  | [], ' ' :: 'A' :: 'S' :: ' ' :: rest => some (label (rest.takeWhile isWordChar))
  | [], rest => (Mark.first? rest).map mark
  | name, '(' :: _ => some (call name)
  -- no operand is followed by a blank and a parenthesis
  | _, ' ' :: '(' :: _ => some (mark .notOpen)
  | s, _ => some (word s)

end Token

/-- The text of several tokens. -/
def spell (ts : List Token) : List Char := ts.flatMap Token.text

@[simp] theorem spell_nil : spell [] = [] := rfl

@[simp] theorem spell_cons (t : Token) (ts : List Token) : spell (t :: ts) = t.text ++ spell ts :=
  rfl

@[simp] theorem spell_append (ts us : List Token) : spell (ts ++ us) = spell ts ++ spell us :=
  List.flatMap_append

/-! ## Cutting a text into tokens -/

/-- Whether a text begins where an operand may end. -/
def endsOperand : List Char → Bool
  | [] | ')' :: _ | ',' :: _ => true
  | ' ' :: c :: _ => c != '('
  | _ => false

theorem endsOperand_text {t : Token} (h : t.continues) (s : List Char) :
    endsOperand (t.text ++ s) := by
  cases t with
  | mark m =>
    cases m with
    | compare op => cases op <;> rfl
    | like negated => cases negated <;> rfl
    | isNull negated => cases negated <;> rfl
    | inOpen negated => cases negated <;> rfl
    | groupOpen | notOpen => cases h
    | _ => rfl
  | label name => rfl
  | _ => cases h

theorem head?_ne_of_endsOperand {s : List Char} (h : endsOperand s) : s.head? ≠ some '\x27' := by
  intro hquote
  obtain ⟨rest, rfl⟩ := List.head?_eq_some_iff.mp hquote
  cases h

section Words

variable {w rest : List Char}

theorem takeWhile_word (hw : w.all isWordChar) (hrest : rest.takeWhile isWordChar = []) :
    (w ++ rest).takeWhile isWordChar = w := by
  rw [List.takeWhile_append_of_pos (List.all_eq_true.mp hw), hrest, List.append_nil]

theorem dropWhile_word (hw : w.all isWordChar) (hrest : rest.takeWhile isWordChar = []) :
    (w ++ rest).dropWhile isWordChar = rest := by
  have h : rest.takeWhile isWordChar ++ rest.dropWhile isWordChar = rest :=
    List.takeWhile_append_dropWhile
  rw [hrest, List.nil_append] at h
  rw [List.dropWhile_append_of_pos (List.all_eq_true.mp hw), h]

theorem takeWhile_of_endsOperand (h : endsOperand rest) : rest.takeWhile isWordChar = [] := by
  unfold endsOperand at h
  split at h
  · rfl
  · rfl
  · rfl
  · rfl
  · cases h

end Words

namespace Token

variable {t : Token} {s : List Char}

theorem first?_mark (m : Mark) (s : List Char) : first? ((mark m).text ++ s) = some (mark m) := by
  cases m with
  | compare op => cases op <;> rfl
  | like negated => cases negated <;> rfl
  | isNull negated => cases negated <;> rfl
  | inOpen negated => cases negated <;> rfl
  | _ => rfl

theorem first?_text (ht : t.fits) (hs : t.isOpenEnded → endsOperand s) :
    first? (t.text ++ s) = some t := by
  cases t with
  | mark m => exact first?_mark m s
  | quoted q =>
    have h := Literal.readInside?_sqlChar q (head?_ne_of_endsOperand (hs rfl))
    simp only [text, Literal.sqlString, List.cons_append, List.append_assoc, List.nil_append]
    exact congrArg (Option.map fun r => quoted r.1) h
  | label name =>
    have h := takeWhile_word ht (takeWhile_of_endsOperand (hs rfl))
    exact congrArg (fun name => some (label name)) h
  | call name =>
    simp only [fits, Bool.and_eq_true, Bool.not_eq_true', List.isEmpty_eq_false_iff] at ht
    have hrest : ('(' :: s).takeWhile isWordChar = [] := rfl
    rw [text, List.append_assoc, List.singleton_append, first?, takeWhile_word ht.2 hrest,
      dropWhile_word ht.2 hrest]
    obtain ⟨c, name, rfl⟩ := List.exists_cons_of_ne_nil ht.1
    rfl
  | word w =>
    simp only [fits, Bool.and_eq_true, Bool.not_eq_true', List.isEmpty_eq_false_iff] at ht
    have hends := hs rfl
    have hrest := takeWhile_of_endsOperand hends
    rw [text, first?, takeWhile_word ht.2 hrest, dropWhile_word ht.2 hrest]
    obtain ⟨c, w, rfl⟩ := List.exists_cons_of_ne_nil ht.1
    unfold endsOperand at hends
    split at hends
    · rfl
    · rfl
    · rfl
    · next d _ =>
      have hd : d ≠ '(' := by simpa using hends
      simp [hd]
    · cases hends

end Token

/-! ## Well-spelled tokens -/

/-- The names in the tokens are words, and what has no end of its own is followed by what may follow
an operand. -/
structure WellSpelled (ts : List Token) : Prop where
  fits : ∀ t ∈ ts, t.fits
  spaced : ts.IsChain fun t u => t.isOpenEnded → u.continues

namespace WellSpelled

variable {t : Token} {ts us : List Token}

theorem nil : WellSpelled [] := ⟨by simp, .nil⟩

theorem singleton (ht : t.fits) : WellSpelled [t] := ⟨by simpa using ht, .singleton t⟩

theorem tail (h : WellSpelled (t :: ts)) : WellSpelled ts :=
  ⟨(List.forall_mem_cons.mp h.fits).2, h.spaced.tail⟩

theorem cons (h : WellSpelled ts) (ht : t.fits) (hend : t.isOpenEnded = false) :
    WellSpelled (t :: ts) :=
  ⟨List.forall_mem_cons.mpr ⟨ht, h.fits⟩, h.spaced.cons fun _ _ ht' => absurd ht' (by simp [hend])⟩

theorem append (h : WellSpelled ts) (hus : WellSpelled (t :: us)) (ht : t.continues) :
    WellSpelled (ts ++ t :: us) :=
  ⟨List.forall_mem_append.mpr ⟨h.fits, hus.fits⟩, h.spaced.append hus.spaced fun _ _ v hv _ => by
    obtain rfl : t = v := Option.some.inj hv
    exact ht⟩

/-- The token at the front is what a reader finds there. -/
theorem first?_spell (h : WellSpelled (t :: ts)) : Token.first? (spell (t :: ts)) = some t := by
  refine Token.first?_text (h.fits t List.mem_cons_self) fun ht => ?_
  cases ts with
  | nil => rfl
  | cons u us => exact endsOperand_text ((List.isChain_cons_cons.mp h.spaced).1 ht) _

end WellSpelled

/-- **A text is cut into tokens in one way only.** -/
theorem spell_inj {ts us : List Token} (hts : WellSpelled ts) (hus : WellSpelled us)
    (h : spell ts = spell us) : ts = us := by
  induction ts generalizing us with
  | nil =>
    cases us with
    | nil => rfl
    | cons u us =>
      have hu := hus.first?_spell
      rw [← h] at hu
      cases hu
  | cons t ts ih =>
    have ht := hts.first?_spell
    rw [h] at ht
    cases us with
    | nil => cases ht
    | cons u us =>
      obtain rfl : u = t := Option.some.inj (hus.first?_spell.symm.trans ht)
      rw [spell_cons, spell_cons, List.append_cancel_left_eq] at h
      rw [ih hts.tail hus.tail h]

/-! ## Rows of tokens -/

/-- Rows of tokens one after the other, with a mark in between. -/
def punctuated (m : Mark) (items : List (List Token)) : List Token :=
  [Token.mark m].intercalate items

theorem punctuated_singleton (m : Mark) (ts : List Token) : punctuated m [ts] = ts := by
  simp [punctuated]

theorem punctuated_cons_cons (m : Mark) (ts us : List Token) (items : List (List Token)) :
    punctuated m (ts :: us :: items) = ts ++ .mark m :: punctuated m (us :: items) := by
  rw [punctuated, List.intercalate_cons_cons, List.append_assoc]
  rfl

theorem wellSpelled_punctuated {m : Mark} (hm : m.continues) {items : List (List Token)}
    (h : ∀ ts ∈ items, WellSpelled ts) : WellSpelled (punctuated m items) := by
  induction items with
  | nil => exact .nil
  | cons ts items ih =>
    obtain ⟨hts, hitems⟩ := List.forall_mem_cons.mp h
    cases items with
    | nil => rwa [punctuated_singleton]
    | cons us items =>
      rw [punctuated_cons_cons]
      exact hts.append ((ih hitems).cons rfl rfl) hm

end QueryPlan
