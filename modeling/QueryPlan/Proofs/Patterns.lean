import Mathlib.Data.List.Forall2
import QueryPlan.Proofs.RegularExpressions
import QueryPlan.Text.Pattern

/-!
# What a pattern matches

A pattern of LIKE matches a text if and only if the text can be cut into consecutive pieces, one for
each token of the pattern, such that each token stands for its piece (`Text.like_iff`).  The tokens
are those that are written in the pattern (`written`), a lone backslash at its end among them, and
what a token stands for is said without regular expressions (`StandsFor`).

Two things have to be seen on the way from a pattern to its matches.

* The regular expression that a pattern is put into is read as it was meant
  (`Regex.ofText?_patternRegex`): an anchor, one item for each token that stands for something, and
  the other anchor.  What is escaped is read as the character itself, whatever its meaning, and so
  no star can come to stand behind an item by accident (`Regex.IsReadAs` carries that along).
* Such items match consecutive pieces of a text exactly if the tokens stand for these pieces
  (`begins_patternItems`).  A lone backslash has no item; it stands for the empty text alone.

Neither depends on which engine does the search.  An engine that keeps to the meaning of regular
expressions gives the answer wherever it accepts the expression, and where it refuses it there is no
match.  The engine of this library accepts all of them.
-/

set_option autoImplicit false

namespace QueryPlan.Text

/-! ## Written tokens -/

/-- The tokens as they are written: a backslash goes with the character after it, if there is one,
and any other character is a token of its own. -/
def written : List Char → List (List Char)
  | [] => []
  | '\\' :: c :: rest => ['\\', c] :: written rest
  | c :: rest => [c] :: written rest

/-- The texts for which a written token stands. -/
inductive StandsFor : List Char → List Char → Prop where
  | anyText (piece : List Char) : StandsFor ['%'] piece
  | anyChar (c : Char) : StandsFor ['_'] [c]
  | escaped (c : Char) : StandsFor ['\\', c] [c]
  | loneBackslash : StandsFor ['\\'] []
  | itself {c : Char} (plain : c ∉ ['%', '_', '\\']) : StandsFor [c] [c]

/-- A text can be cut into consecutive pieces for which tokens stand, one for each in order. -/
def CutBy (tokens : List (List Char)) (text : List Char) : Prop :=
  ∃ pieces : List (List Char), pieces.flatten = text ∧ List.Forall₂ StandsFor tokens pieces

theorem cutBy_nil {text : List Char} : CutBy [] text ↔ text = [] := by
  simp [CutBy, eq_comm]

theorem cutBy_cons {token : List Char} {tokens : List (List Char)} {text : List Char} :
    CutBy (token :: tokens) text ↔
      ∃ piece later, piece ++ later = text ∧ StandsFor token piece ∧ CutBy tokens later := by
  constructor
  · rintro ⟨_, rfl, hpieces⟩
    obtain ⟨piece, pieces, hpiece, hrest, rfl⟩ := List.forall₂_cons_left_iff.mp hpieces
    exact ⟨piece, pieces.flatten, rfl, hpiece, pieces, rfl, hrest⟩
  · rintro ⟨piece, _, rfl, hpiece, pieces, rfl, hpieces⟩
    exact ⟨piece :: pieces, rfl, .cons hpiece hpieces⟩

theorem written_cons {c : Char} (h : c ≠ '\\') (rest : List Char) :
    written (c :: rest) = [c] :: written rest := by
  rw [written]
  exact fun _ _ hc _ => h hc

/-! ## Reading the regular expression of a pattern -/

namespace Regex

/-- What is escaped is read as the character itself, whatever its meaning. -/
theorem signs?_escape (c : Char) (text : List Char) :
    signs? (escape c ++ text) = (signs? text).map (.set (.exactly c) :: ·) := by
  cases hc : isMeta c with
  | true => rw [escape, hc, if_pos rfl, List.cons_append, List.singleton_append, signs?, hc,
      if_pos rfl]
  | false =>
    -- a character without meaning is none of those that are signs
    have hne (d : Char) (hd : isMeta d = true) : c ≠ d := by
      rintro rfl
      cases hc.symm.trans hd
    rw [escape, hc, if_neg Bool.false_ne_true, List.singleton_append, signs?, hc,
      if_neg Bool.false_ne_true]
    · exact fun _ _ h _ => hne '\\' rfl h
    · exact hne '^' rfl
    · exact hne '$' rfl
    · exact hne '*' rfl
    · exact hne '.' rfl

/-- A text is read as some items, and may follow any other one: it does not begin with a star. -/
def IsReadAs (text : List Char) (items : List RegexItem) : Prop :=
  ∃ signs, signs? text = some signs ∧ signs.head? ≠ some .star ∧ items? signs = some items

namespace IsReadAs

variable {text : List Char} {items : List RegexItem}

theorem stop : IsReadAs ['$'] [.stop] := ⟨[.stop], rfl, nofun, rfl⟩

/-- What is read as one sign for a character becomes an item. -/
theorem one (h : IsReadAs text items) (sign : List Char) {set : CharSet}
    (hsign : signs? (sign ++ text) = (signs? text).map (.set set :: ·)) :
    IsReadAs (sign ++ text) (.one set :: items) := by
  obtain ⟨signs, hsigns, hstar, hitems⟩ := h
  refine ⟨.set set :: signs, by rw [hsign, hsigns, Option.map_some], nofun, ?_⟩
  rw [items?, hitems, Option.map_some]
  rintro rest rfl
  exact hstar rfl

theorem anyChar (h : IsReadAs text items) : IsReadAs ('.' :: text) (.one .any :: items) :=
  h.one ['.'] rfl

theorem escaped (h : IsReadAs text items) (c : Char) :
    IsReadAs (escape c ++ text) (.one (.exactly c) :: items) :=
  h.one (escape c) (signs?_escape c text)

theorem anyText (h : IsReadAs text items) :
    IsReadAs ('.' :: '*' :: text) (.many .any :: items) := by
  obtain ⟨signs, hsigns, -, hitems⟩ := h
  refine ⟨.set .any :: .star :: signs, ?_, nofun, ?_⟩
  · rw [signs?, signs?, hsigns, Option.map_some, Option.map_some]
  · rw [items?, hitems, Option.map_some]

end IsReadAs

end Regex

/-- The items for the characters of a pattern. -/
def patternItems : List Char → List RegexItem
  | [] => []
  | '%' :: rest => .many .any :: patternItems rest
  | '_' :: rest => .one .any :: patternItems rest
  | ['\\'] => []
  | '\\' :: c :: rest => .one (.exactly c) :: patternItems rest
  | c :: rest => .one (.exactly c) :: patternItems rest

namespace Regex

theorem isReadAs_translated (pattern : List Char) :
    IsReadAs (translated pattern ++ ['$']) (patternItems pattern ++ [.stop]) := by
  fun_induction translated pattern with
  | case1 => exact .stop
  | case2 rest ih => exact ih.anyText
  | case3 rest ih => exact ih.anyChar
  | case4 => exact .stop
  | case5 c rest ih =>
    rw [List.append_assoc]
    exact ih.escaped c
  | case6 c rest hpercent hunderscore hlone hescaped ih =>
    rw [List.append_assoc, patternItems]
    · exact ih.escaped c
    all_goals assumption

/-- **The regular expression of a pattern is read as its items between the two anchors.** -/
theorem ofText?_patternRegex (pattern : List Char) : ofText? (patternRegex pattern) =
    some ⟨true, .start :: (patternItems pattern ++ [.stop])⟩ := by
  obtain ⟨signs, hsigns, -, hitems⟩ := isReadAs_translated pattern
  have hstart : signs? ('^' :: (translated pattern ++ ['$'])) = some (.start :: signs) := by
    rw [signs?, hsigns, Option.map_some]
  show ((signs? ('^' :: (translated pattern ++ ['$']))).bind items?).map (Regex.mk true) = _
  rw [hstart, Option.bind_some, items?, hitems]
  rfl

end Regex

/-! ## Matching the items of a pattern -/

theorem standsFor_underscore {piece : List Char} : StandsFor ['_'] piece ↔ ∃ c, piece = [c] := by
  constructor
  · intro h
    cases h with
    | anyChar c => exact ⟨c, rfl⟩
    | itself plain => exact absurd plain (by decide)
  · rintro ⟨c, rfl⟩
    exact .anyChar c

theorem standsFor_backslash {piece : List Char} : StandsFor ['\\'] piece ↔ piece = [] := by
  constructor
  · intro h
    cases h with
    | loneBackslash => rfl
    | itself plain => exact absurd plain (by decide)
  · rintro rfl
    exact .loneBackslash

theorem standsFor_escaped {c : Char} {piece : List Char} :
    StandsFor ['\\', c] piece ↔ piece = [c] := by
  constructor
  · rintro ⟨⟩
    rfl
  · rintro rfl
    exact .escaped c

theorem standsFor_itself {c : Char} (plain : c ∉ ['%', '_', '\\']) {piece : List Char} :
    StandsFor [c] piece ↔ piece = [c] := by
  constructor
  · intro h
    cases h with
    | itself => rfl
    | _ => exact absurd plain (by decide)
  · rintro rfl
    exact .itself plain

/-- An item and a token in front do the same if they are met by the same pieces. -/
theorem begins_cons_iff_cutBy {item : RegexItem} {items : List RegexItem} {token : List Char}
    {tokens : List (List Char)} (hitem : ∀ before piece after,
      item.Matches true before piece after ↔ StandsFor token piece)
    (ih : ∀ before rest, Begins true items before rest ↔ CutBy tokens rest)
    (before rest : List Char) :
    Begins true (item :: items) before rest ↔ CutBy (token :: tokens) rest := by
  simp only [begins_cons, cutBy_cons, hitem, ih]

theorem matches_exactly_iff {c : Char} {before piece after : List Char} :
    (RegexItem.one (.exactly c)).Matches true before piece after ↔ piece = [c] := by
  rw [RegexItem.matches_one_iff]
  simp [CharSet.has]

/-- **The items of a pattern match where a text can be cut**, up to its end. -/
theorem begins_patternItems (pattern before rest : List Char) :
    Begins true (patternItems pattern ++ [.stop]) before rest ↔ CutBy (written pattern) rest := by
  have hend (before rest : List Char) : Begins true [.stop] before rest ↔ rest = [] := by
    rw [begins_stop]
    exact and_iff_left begins_nil
  fun_induction patternItems pattern generalizing before rest with
  | case1 => rw [List.nil_append, hend, written, cutBy_nil]
  | case2 pattern ih =>
    rw [written_cons (by decide)]
    refine begins_cons_iff_cutBy (fun _ piece _ => ?_) ih before rest
    exact iff_of_true (RegexItem.matches_many_iff.mpr fun _ _ => rfl) (.anyText piece)
  | case3 pattern ih =>
    rw [written_cons (by decide)]
    refine begins_cons_iff_cutBy (fun _ _ _ => ?_) ih before rest
    rw [RegexItem.matches_one_iff, standsFor_underscore]
    exact exists_congr fun c => and_iff_left rfl
  | case4 =>
    rw [List.nil_append, hend, show written ['\\'] = [['\\']] from rfl, cutBy_cons]
    simp [standsFor_backslash, cutBy_nil, eq_comm]
  | case5 c pattern ih =>
    rw [written]
    refine begins_cons_iff_cutBy (fun _ _ _ => ?_) ih before rest
    rw [matches_exactly_iff, standsFor_escaped]
  | case6 c pattern hpercent hunderscore hlone hescaped ih =>
    have hbackslash : c ≠ '\\' := by
      rintro rfl
      cases pattern with
      | nil => exact hlone rfl rfl
      | cons d pattern => exact hescaped d pattern rfl rfl
    have hplain : c ∉ ['%', '_', '\\'] := by
      simpa using ⟨hpercent, hunderscore, hbackslash⟩
    rw [written_cons hbackslash]
    refine begins_cons_iff_cutBy (fun _ _ _ => ?_) ih before rest
    rw [matches_exactly_iff, standsFor_itself hplain]

/-- The anchors keep a match to the whole text. -/
theorem foundIn_pattern_iff (pattern text : List Char) :
    (Regex.mk true (.start :: (patternItems pattern ++ [.stop]))).FoundIn text ↔
      CutBy (written pattern) text := by
  rw [Regex.foundIn_iff]
  simp only [begins_start, begins_patternItems]
  constructor
  · rintro ⟨_, rest, rfl, rfl, hcut⟩
    exact hcut
  · intro hcut
    exact ⟨[], text, rfl, rfl, hcut⟩

/-! ## Patterns -/

/-- A faithful engine finds the regular expression of a pattern, where it accepts it, in the texts
that can be cut. -/
theorem likeBy_iff {engine : Engine} (hengine : engine.Faithful) (text pattern : String) :
    likeBy engine text pattern = true ↔ (engine (patternRegex pattern.toList)).isSome = true ∧
      CutBy (written pattern.toList) text.toList := by
  rw [likeBy]
  cases htest : engine (patternRegex pattern.toList) with
  | none => simp
  | some test =>
    rw [← foundIn_pattern_iff]
    simpa using hengine _ _ (Regex.ofText?_patternRegex pattern.toList) test htest text.toList

/-- The engine of this library accepts all patterns. -/
theorem isSome_engine_patternRegex (pattern : List Char) :
    (Regex.engine (patternRegex pattern)).isSome = true := by
  rw [Regex.engine, Regex.ofText?_patternRegex]
  rfl

/-- **A pattern matches the texts that can be cut into pieces, one for each of its tokens.**  So it
is with any engine that keeps to the meaning of regular expressions, for the patterns that it
accepts; what it refuses matches nothing. -/
theorem like_iff (text pattern : String) :
    (like text pattern = true ↔ CutBy (written pattern.toList) text.toList) ∧
      ∀ engine : Engine, engine.Faithful →
        (likeBy engine text pattern = true ↔
          (engine (patternRegex pattern.toList)).isSome = true ∧
            CutBy (written pattern.toList) text.toList) := by
  refine ⟨?_, fun engine hengine => likeBy_iff hengine text pattern⟩
  rw [like, likeBy_iff Regex.faithful_engine]
  exact and_iff_right (isSome_engine_patternRegex pattern.toList)

/-- A line break is as good as any character, a sign after a backslash is only itself, and a
backslash at the end is nothing. -/
theorem like_iff_discount : Regex.engine.Faithful ∧
    likeBy Regex.engine "a\nb 100%" "a_b%\\%\\" = true ∧
    likeBy Regex.engine "100" "100\\%" = false := by
  have hcut : CutBy (written "a_b%\\%\\".toList) "a\nb 100%".toList :=
    ⟨[['a'], ['\n'], ['b'], [' ', '1', '0', '0'], ['%'], []], rfl,
      .cons (.itself (by decide)) (.cons (.anyChar _) (.cons (.itself (by decide))
        (.cons (.anyText _) (.cons (.escaped _) (.cons .loneBackslash .nil)))))⟩
  refine ⟨Regex.faithful_engine, ?_, rfl⟩
  exact ((like_iff _ _).2 _ Regex.faithful_engine).mpr ⟨rfl, hcut⟩

end QueryPlan.Text
