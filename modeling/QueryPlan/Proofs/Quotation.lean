import QueryPlan.Sql.Expr

/-!
# Strings in SQL text

A string constant is written between quotes, with every quote inside it written twice.  The reader
here follows the rule of SQL and knows nothing of the writing: a quote opens, two quotes in a row
stand for one, a quote by itself closes.  It takes from the front of a text exactly what is written
for a string, as long as no quote follows (`readString?_eq_some_iff`); a quote that does follow is
taken for part of the string, so that condition cannot be dropped.

No string can therefore end its own constant and go on as SQL, and the list of an `IN` is read back
string by string (`sql_str_readable`).
-/

set_option autoImplicit false

namespace QueryPlan

namespace Literal

/-! ## One string -/

/-- Reads a string from behind its opening quote, and gives what follows the closing one. -/
def readInside? : List Char → Option (List Char × List Char)
  | '\x27' :: '\x27' :: rest => (readInside? rest).map fun r => ('\x27' :: r.1, r.2)
  | '\x27' :: rest => some ([], rest)
  | c :: rest => (readInside? rest).map fun r => (c :: r.1, r.2)
  | [] => none

/-- Reads the string at the front of a text, and gives what follows it. -/
def readString? : List Char → Option (String × List Char)
  | '\x27' :: rest => (readInside? rest).map fun r => (String.ofList r.1, r.2)
  | _ => none

variable {text rest : List Char}

theorem readInside?_sqlChar (s : List Char) (h : rest.head? ≠ some '\x27') :
    readInside? (s.flatMap sqlChar ++ '\x27' :: rest) = some (s, rest) := by
  induction s with
  | nil =>
    rw [List.flatMap_nil, List.nil_append, readInside?]
    rintro after rfl
    exact h rfl
  | cons c s ih =>
    rw [List.flatMap_cons, List.append_assoc, sqlChar]
    split
    · next hc => rw [List.cons_append, List.singleton_append, readInside?, ih, hc, Option.map_some]
    · next hc =>
      rw [List.singleton_append, readInside?, ih, Option.map_some]
      · exact fun _ hquote => absurd hquote hc
      · exact hc

/-- Whatever the reader takes is written the way strings are. -/
theorem eq_of_readInside? {s : List Char} (h : readInside? text = some (s, rest)) :
    text = s.flatMap sqlChar ++ '\x27' :: rest ∧ rest.head? ≠ some '\x27' := by
  fun_induction readInside? text generalizing s with
  | case1 text ih =>
    obtain ⟨⟨s, after⟩, hs, hr⟩ := Option.map_eq_some_iff.mp h
    obtain ⟨rfl, rfl⟩ := Prod.mk.inj hr
    obtain ⟨htext, hrest⟩ := ih hs
    exact ⟨by rw [htext]; rfl, hrest⟩
  | case2 text hnext =>
    obtain ⟨rfl, rfl⟩ := Prod.mk.inj (Option.some.inj h)
    refine ⟨rfl, fun hhead => ?_⟩
    obtain ⟨after, rfl⟩ := List.head?_eq_some_iff.mp hhead
    exact hnext after rfl
  | case3 c text _ hc ih =>
    obtain ⟨⟨s, after⟩, hs, hr⟩ := Option.map_eq_some_iff.mp h
    obtain ⟨rfl, rfl⟩ := Prod.mk.inj hr
    obtain ⟨htext, hrest⟩ := ih hs
    refine ⟨?_, hrest⟩
    rw [List.flatMap_cons, sqlChar, if_neg hc, htext]
    rfl
  | case4 => cases h

/-- **A text is read as a string and a rest exactly if it is the text of the string, followed by
the rest, and no quote follows.** -/
theorem readString?_eq_some_iff {s : String} :
    readString? text = some (s, rest) ↔
      text = (str s).sql.toList ++ rest ∧ rest.head? ≠ some '\x27' := by
  rw [sql, String.toList_ofList, sqlString]
  constructor
  · intro h
    unfold readString? at h
    split at h
    · obtain ⟨⟨inside, after⟩, hinside, hr⟩ := Option.map_eq_some_iff.mp h
      obtain ⟨rfl, rfl⟩ := Prod.mk.inj hr
      obtain ⟨rfl, hrest⟩ := eq_of_readInside? hinside
      exact ⟨by simp, hrest⟩
    · cases h
  · rintro ⟨rfl, hrest⟩
    rw [List.cons_append, List.append_assoc, List.singleton_append, readString?,
      readInside?_sqlChar _ hrest, Option.map_some, String.ofList_toList]

example : readString? "'it''s''') --".toList = some ("it's'", ") --".toList) := by decide

/-! ## Lists of strings -/

/-- The text from its first character on that is no blank. -/
def skipBlanks (text : List Char) : List Char := text.dropWhile Char.isWhitespace

/-- Reads the mark behind an item of a list: whether another item follows, and what does. -/
def readMark? (text : List Char) : Option (Bool × List Char) :=
  match skipBlanks text with
  | ',' :: rest => some (true, rest)
  | ')' :: rest => some (false, rest)
  | _ => none

/-- Reads one string of a list and the mark behind it. -/
def readItem? (text : List Char) : Option (String × Bool × List Char) := do
  let (s, rest) ← readString? (skipBlanks text)
  return (s, ← readMark? rest)

theorem length_skipBlanks_le (text : List Char) : (skipBlanks text).length ≤ text.length :=
  (List.dropWhile_suffix _).length_le

theorem length_lt_of_readMark? {more : Bool} (h : readMark? text = some (more, rest)) :
    rest.length < text.length := by
  have hblanks := length_skipBlanks_le text
  unfold readMark? at h
  split at h
  · next htext =>
    cases h
    rwa [htext] at hblanks
  · next htext =>
    cases h
    rwa [htext] at hblanks
  · cases h

/-- What is left of a text behind an item is shorter. -/
theorem length_lt_of_readItem? {s : String} {more : Bool}
    (h : readItem? text = some (s, more, rest)) : rest.length < text.length := by
  obtain ⟨⟨s, after⟩, hs, h⟩ := Option.bind_eq_some_iff.mp h
  obtain ⟨⟨more, rest⟩, hmark, h⟩ := Option.bind_eq_some_iff.mp h
  obtain ⟨htext, -⟩ := readString?_eq_some_iff.mp hs
  cases h
  have hblanks := length_skipBlanks_le text
  have hrest := length_lt_of_readMark? hmark
  rw [htext, List.length_append] at hblanks
  omega

/-- Reads strings with commas between them up to a closing parenthesis, and gives what follows. -/
def readItems? (text : List Char) : Option (List String × List Char) :=
  match _h : readItem? text with
  | none => none
  | some (s, true, rest) => (readItems? rest).map fun r => (s :: r.1, r.2)
  | some (s, false, rest) => some ([s], rest)
termination_by text.length
decreasing_by exact length_lt_of_readItem? _h

/-- Reads the strings of a list from behind its opening parenthesis, and gives what follows the
closing one. -/
def readStrings? (text : List Char) : Option (List String × List Char) :=
  match skipBlanks text with
  | ')' :: rest => some ([], rest)
  | text => readItems? text

/-! ## Lists as they are written -/

/-- The texts of strings with commas between them. -/
def sqlItems (ss : List String) : String := String.intercalate ", " (ss.map fun s => (str s).sql)

theorem sqlItems_eq_cons (s : String) (ss : List String) :
    ∃ inside, (sqlItems (s :: ss)).toList = '\x27' :: inside := by
  cases ss with
  | nil => exact ⟨_, by rw [sqlItems, List.map_singleton, String.intercalate_singleton, sql,
      String.toList_ofList, sqlString]⟩
  | cons t ss => exact ⟨_, by rw [sqlItems, List.map_cons, List.map_cons,
      String.intercalate_cons_cons, String.toList_append, String.toList_append, sql,
      String.toList_ofList, sqlString, List.append_assoc, List.cons_append]⟩

theorem skipBlanks_sqlItems (s : String) (ss : List String) (rest : List Char) :
    skipBlanks ((sqlItems (s :: ss)).toList ++ rest) = (sqlItems (s :: ss)).toList ++ rest := by
  obtain ⟨inside, h⟩ := sqlItems_eq_cons s ss
  rw [h, List.cons_append]
  exact List.dropWhile_cons_of_neg (by decide)

theorem readItem?_eq {s : String} {c : Char} (hc : c ≠ '\x27')
    (h : skipBlanks text = (str s).sql.toList ++ c :: rest) :
    readItem? text = (readMark? (c :: rest)).map fun mark => (s, mark) := by
  have hread : readString? (skipBlanks text) = some (s, c :: rest) :=
    readString?_eq_some_iff.mpr ⟨h, by simpa using hc⟩
  rw [readItem?, hread]
  cases hmark : readMark? (c :: rest) <;> simp [hmark]

/-- **Strings with commas between them are read one by one**, and blanks do not matter. -/
theorem readItems?_eq {s : String} {ss : List String}
    (h : skipBlanks text = (sqlItems (s :: ss)).toList ++ ')' :: rest) :
    readItems? text = some (s :: ss, rest) := by
  induction ss generalizing s text with
  | nil =>
    have hitem : readItem? text = some (s, false, rest) := readItem?_eq (by decide) h
    rw [readItems?, hitem]
  | cons t ss ih =>
    have htext : skipBlanks text = (str s).sql.toList ++
        ',' :: ' ' :: ((sqlItems (t :: ss)).toList ++ ')' :: rest) := by
      rw [h, sqlItems, List.map_cons, List.map_cons, String.intercalate_cons_cons]
      simp [sqlItems]
    have hitem : readItem? text =
        some (s, true, ' ' :: ((sqlItems (t :: ss)).toList ++ ')' :: rest)) :=
      readItem?_eq (by decide) htext
    have hrest : readItems? (' ' :: ((sqlItems (t :: ss)).toList ++ ')' :: rest)) =
        some (t :: ss, rest) := ih (skipBlanks_sqlItems t ss _)
    rw [readItems?, hitem]
    exact (congrArg _ hrest).trans (Option.map_some ..)

theorem readStrings?_sqlItems (ss : List String) (rest : List Char) :
    readStrings? ((sqlItems ss).toList ++ ')' :: rest) = some (ss, rest) := by
  cases ss with
  | nil => rfl
  | cons s ss =>
    have hitems := skipBlanks_sqlItems s ss (')' :: rest)
    obtain ⟨inside, hquote⟩ := sqlItems_eq_cons s ss
    rw [readStrings?, hitems]
    split
    · next hclose =>
      rw [hquote] at hclose
      cases hclose
    · exact readItems?_eq hitems

end Literal

/-! ## In the text of an expression -/

namespace Expr

theorem sqlList_map_lit (grouped : Bool) (ls : List Literal) :
    sqlList grouped (ls.map lit) = .ok (ls.map Literal.sql) := by
  rw [sqlList_eq_mapM, List.mapM_map]
  exact List.mapM_pure

theorem sql_inList (grouped negated : Bool) (operand : Expr) (ls : List Literal) :
    (inList operand (ls.map lit) negated).sql grouped =
      (operand.sql grouped).map fun o => operand.parenthesized o ++ " " ++ notWord negated ++
        "IN (" ++ String.intercalate ", " (ls.map Literal.sql) ++ ")" := by
  rw [sql, sqlList_map_lit]
  cases operand.sql grouped <;> rfl

end Expr

namespace Literal

/-- **Strings are safe in SQL text.**  What is written for a string is read back as that string, up
to the place where what follows it begins, whatever follows but a quote; so no two strings have one
text; and behind its opening parenthesis the list of an `IN` with string members is read back as
the list of these strings, up to its closing one. -/
theorem sql_str_readable :
    (∀ (text rest : List Char) (s : String), readString? text = some (s, rest) ↔
      text = (str s).sql.toList ++ rest ∧ rest.head? ≠ some '\x27') ∧
    Function.Injective (fun s => (str s).sql) ∧
    ∀ (grouped negated : Bool) (operand : Expr) (ss : List String), ∃ list : String,
      (Expr.inList operand (ss.map fun s => .lit (str s)) negated).sql grouped =
        (operand.sql grouped).map (fun o =>
          operand.parenthesized o ++ " " ++ Expr.notWord negated ++ "IN (" ++ list) ∧
      ∀ rest, readStrings? (list.toList ++ rest) = some (ss, rest) := by
  refine ⟨fun _ _ _ => readString?_eq_some_iff, fun s t hst => ?_,
    fun grouped negated operand ss => ⟨sqlItems ss ++ ")", ?_, fun rest => ?_⟩⟩
  · have hread (s : String) : readString? (str s).sql.toList = some (s, []) :=
      readString?_eq_some_iff.mpr ⟨(List.append_nil _).symm, by simp⟩
    have hsame : readString? (str s).sql.toList = readString? (str t).sql.toList :=
      congrArg (fun text : String => readString? text.toList) hst
    rw [hread, hread] at hsame
    exact (Prod.mk.inj (Option.some.inj hsame)).1
  · have hlits : (ss.map fun s => Expr.lit (str s)) = (ss.map str).map .lit := by simp
    rw [hlits, Expr.sql_inList]
    simp [sqlItems, String.append_assoc, Function.comp_def]
  · rw [String.toList_append, List.append_assoc]
    exact readStrings?_sqlItems ss rest

end Literal

end QueryPlan
