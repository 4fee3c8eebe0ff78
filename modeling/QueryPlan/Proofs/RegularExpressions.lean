import Mathlib.Data.List.Basic
import QueryPlan.Text.Regex

/-!
# What regular expressions match

The meaning of a regular expression is said here without an engine.  An item matches a piece of a
text, and where it is an anchor this depends on what is before and after the piece
(`RegexItem.Matches`).  Items in a row match consecutive pieces (`ItemsMatch`).  A regular
expression is found in a text if it matches some piece of it (`Regex.FoundIn`).

An engine is faithful if it keeps to this wherever it accepts an expression that can be read
(`Engine.Faithful`).  That is what a user of an engine may rely on, whichever engine it is.

The engine of this library is faithful (`Regex.faithful_engine`).  What it keeps while it goes over
the items is one entry for each place in the text, and the invariant is that the entry says whether
the items gone over match from that place on:

* `Marks` is a list of such entries for any property of places, where a place is given by the text
  before it and the text after it;
* `Begins` is the property that the items match from there on, with one equation for each item in
  front of others (`begins_start`, `begins_stop`, `begins_one`, `begins_many_nil`,
  `begins_many_cons`);
* each of the four ways to go over an item takes entries for one property to entries for another, if
  the two are related as the equation says (`Marks.start` and so on);
* together they give the entries for all items (`marks_places`), and one of these is set if and only
  if the expression is found (`Marks.any_iff`, `Regex.isFound_iff`).
-/

set_option autoImplicit false

namespace QueryPlan.Text

/-! ## Meaning -/

/-- An item matches a piece of a text, given what is before the piece and what is after it. -/
inductive RegexItem.Matches (dotAll : Bool) :
    RegexItem → List Char → List Char → List Char → Prop where
  | start (after : List Char) : Matches dotAll .start [] [] after
  | stop (before : List Char) : Matches dotAll .stop before [] []
  | one {set : CharSet} {c : Char} (before after : List Char) (has : set.has dotAll c = true) :
    Matches dotAll (.one set) before [c] after
  | many {set : CharSet} {piece : List Char} (before after : List Char)
    (has : ∀ c ∈ piece, set.has dotAll c = true) : Matches dotAll (.many set) before piece after

theorem RegexItem.matches_one_iff {dotAll : Bool} {set : CharSet} {before piece after : List Char} :
    (RegexItem.one set).Matches dotAll before piece after ↔
      ∃ c, piece = [c] ∧ set.has dotAll c = true := by
  constructor
  · rintro ⟨⟩
    next c has => exact ⟨c, rfl, has⟩
  · rintro ⟨c, rfl, has⟩
    exact .one before after has

theorem RegexItem.matches_many_iff {dotAll : Bool} {set : CharSet}
    {before piece after : List Char} : (RegexItem.many set).Matches dotAll before piece after ↔
      ∀ c ∈ piece, set.has dotAll c = true := by
  constructor
  · rintro ⟨⟩
    next has => exact has
  · exact .many before after

/-- Items match a piece of a text if they match pieces of it one after the other. -/
inductive ItemsMatch (dotAll : Bool) :
    List RegexItem → List Char → List Char → List Char → Prop where
  | nil (before after : List Char) : ItemsMatch dotAll [] before [] after
  | cons {item : RegexItem} {items : List RegexItem} {before piece rest after : List Char}
    (first : item.Matches dotAll before piece (rest ++ after))
    (others : ItemsMatch dotAll items (before ++ piece) rest after) :
    ItemsMatch dotAll (item :: items) before (piece ++ rest) after

/-- A regular expression matches some piece of a text. -/
def Regex.FoundIn (r : Regex) (text : List Char) : Prop :=
  ∃ before piece after, before ++ piece ++ after = text ∧
    ItemsMatch r.dotAll r.items before piece after

/-- What an engine accepts and can be read, it finds exactly where it matches. -/
def Engine.Faithful (engine : Engine) : Prop :=
  ∀ source r, Regex.ofText? source = some r → ∀ test, engine source = some test →
    ∀ text, test text = true ↔ r.FoundIn text

/-! ## Matching from a place on -/

/-- Items match from a place on. -/
def Begins (dotAll : Bool) (items : List RegexItem) (before rest : List Char) : Prop :=
  ∃ piece after, piece ++ after = rest ∧ ItemsMatch dotAll items before piece after

theorem Regex.foundIn_iff {r : Regex} {text : List Char} :
    r.FoundIn text ↔
      ∃ before rest, before ++ rest = text ∧ Begins r.dotAll r.items before rest := by
  constructor
  · rintro ⟨before, piece, after, rfl, h⟩
    exact ⟨before, piece ++ after, (List.append_assoc ..).symm, piece, after, rfl, h⟩
  · rintro ⟨before, _, rfl, piece, after, rfl, h⟩
    exact ⟨before, piece, after, List.append_assoc .., h⟩

section Begins

variable {dotAll : Bool} {set : CharSet} {items : List RegexItem} {before rest : List Char}

theorem begins_nil : Begins dotAll [] before rest := ⟨[], rest, rfl, .nil before rest⟩

theorem begins_cons {item : RegexItem} : Begins dotAll (item :: items) before rest ↔
    ∃ piece later, piece ++ later = rest ∧ item.Matches dotAll before piece later ∧
      Begins dotAll items (before ++ piece) later := by
  constructor
  · rintro ⟨_, after, rfl, ⟨⟩⟩
    next piece later first others =>
      exact ⟨piece, later ++ after, (List.append_assoc ..).symm, first, later, after, rfl, others⟩
  · rintro ⟨piece, _, rfl, first, later, after, rfl, others⟩
    exact ⟨piece ++ later, after, List.append_assoc .., .cons first others⟩

theorem begins_start :
    Begins dotAll (.start :: items) before rest ↔ before = [] ∧ Begins dotAll items [] rest := by
  rw [begins_cons]
  constructor
  · rintro ⟨_, later, rfl, ⟨⟩, others⟩
    exact ⟨rfl, others⟩
  · rintro ⟨rfl, others⟩
    exact ⟨[], rest, rfl, .start rest, others⟩

theorem begins_stop :
    Begins dotAll (.stop :: items) before rest ↔ rest = [] ∧ Begins dotAll items before [] := by
  rw [begins_cons]
  constructor
  · rintro ⟨_, later, rfl, ⟨⟩, others⟩
    exact ⟨rfl, by simpa using others⟩
  · rintro ⟨rfl, others⟩
    exact ⟨[], [], rfl, .stop before, by simpa using others⟩

theorem begins_one : Begins dotAll (.one set :: items) before rest ↔
    ∃ c later, c :: later = rest ∧ set.has dotAll c = true ∧
      Begins dotAll items (before ++ [c]) later := by
  simp only [begins_cons, RegexItem.matches_one_iff]
  constructor
  · rintro ⟨_, later, rfl, ⟨c, rfl, has⟩, others⟩
    exact ⟨c, later, rfl, has, others⟩
  · rintro ⟨c, later, rfl, has, others⟩
    exact ⟨[c], later, rfl, ⟨c, rfl, has⟩, others⟩

theorem begins_many : Begins dotAll (.many set :: items) before rest ↔
    ∃ piece later, piece ++ later = rest ∧ (∀ c ∈ piece, set.has dotAll c = true) ∧
      Begins dotAll items (before ++ piece) later := by
  simp only [begins_cons, RegexItem.matches_many_iff]

theorem begins_many_nil :
    Begins dotAll (.many set :: items) before [] ↔ Begins dotAll items before [] := by
  rw [begins_many]
  constructor
  · rintro ⟨piece, later, hnil, -, others⟩
    obtain ⟨rfl, rfl⟩ := List.append_eq_nil_iff.mp hnil
    simpa using others
  · intro others
    exact ⟨[], [], rfl, nofun, by simpa using others⟩

/-- Either none of the characters is taken, or the first one is and the item goes on. -/
theorem begins_many_cons {c : Char} : Begins dotAll (.many set :: items) before (c :: rest) ↔
    Begins dotAll items before (c :: rest) ∨
      set.has dotAll c = true ∧ Begins dotAll (.many set :: items) (before ++ [c]) rest := by
  rw [begins_many, begins_many]
  constructor
  · rintro ⟨_ | ⟨d, piece⟩, later, hcons, has, others⟩
    · obtain rfl : later = c :: rest := hcons
      exact .inl (by simpa using others)
    · obtain ⟨rfl, hrest⟩ := List.cons.inj hcons
      obtain ⟨hd, hpiece⟩ := List.forall_mem_cons.mp has
      exact .inr ⟨hd, piece, later, hrest, hpiece, by simpa using others⟩
  · rintro (others | ⟨hc, piece, later, rfl, hpiece, others⟩)
    · exact ⟨[], c :: rest, rfl, nofun, by simpa using others⟩
    · exact ⟨c :: piece, later, rfl, List.forall_mem_cons.mpr ⟨hc, hpiece⟩, by simpa using others⟩

end Begins

/-! ## Entries for places -/

/-- Entries for the places of a text, of which some comes before: each says whether a property
holds, which is one of the text before the place and the text after it. -/
def Marks (P : List Char → List Char → Prop) : List Char → List Char → List Bool → Prop
  | before, [], places => ∃ here, places = [here] ∧ (here = true ↔ P before [])
  | before, c :: text, places => ∃ here later, places = here :: later ∧
      (here = true ↔ P before (c :: text)) ∧ Marks P (before ++ [c]) text later

namespace Marks

variable {P Q : List Char → List Char → Prop} {before text : List Char} {places : List Bool}

/-- The first entry is about the whole text. -/
theorem head?_iff (h : Marks P before text places) :
    places.head?.getD false = true ↔ P before text := by
  cases text with
  | nil =>
    obtain ⟨here, rfl, hhere⟩ := h
    exact hhere
  | cons c text =>
    obtain ⟨here, later, rfl, hhere, -⟩ := h
    exact hhere

/-- One of the entries is set exactly if the property holds at some place. -/
theorem any_iff (h : Marks P before text places) : places.any id = true ↔
    ∃ first rest, first ++ rest = text ∧ P (before ++ first) rest := by
  induction text generalizing before places with
  | nil =>
    obtain ⟨here, rfl, hhere⟩ := h
    constructor
    · intro hany
      exact ⟨[], [], rfl, by simpa using hhere.mp (by simpa using hany)⟩
    · rintro ⟨first, rest, hnil, hP⟩
      obtain ⟨rfl, rfl⟩ := List.append_eq_nil_iff.mp hnil
      simpa using hhere.mpr (by simpa using hP)
  | cons c text ih =>
    obtain ⟨here, later, rfl, hhere, hlater⟩ := h
    rw [List.any_cons, Bool.or_eq_true, id, hhere, ih hlater]
    constructor
    · rintro (hP | ⟨first, rest, rfl, hP⟩)
      · exact ⟨[], c :: text, rfl, by simpa using hP⟩
      · exact ⟨c :: first, rest, rfl, by simpa using hP⟩
    · rintro ⟨_ | ⟨d, first⟩, rest, hcons, hP⟩
      · obtain rfl : rest = c :: text := hcons
        exact .inl (by simpa using hP)
      · obtain ⟨rfl, hrest⟩ := List.cons.inj hcons
        exact .inr ⟨first, rest, hrest, by simpa using hP⟩

/-- The same entry everywhere. -/
theorem const {b : Bool} (h : ∀ first rest, b = true ↔ P (before ++ first) rest)
    (text : List Char) : Marks P before text (b :: text.map fun _ => b) := by
  induction text generalizing before with
  | nil => exact ⟨b, rfl, by simpa using h [] []⟩
  | cons c text ih =>
    refine ⟨b, _, rfl, by simpa using h [] (c :: text), ih fun first rest => ?_⟩
    simpa using h (c :: first) rest

theorem start (h : Marks P [] text places)
    (hQ : ∀ before rest, Q before rest ↔ before = [] ∧ P [] rest) :
    Marks Q [] text (Regex.startPlaces text places) := by
  have hfirst : places.head?.getD false = true ↔ Q [] text := by simp [h.head?_iff, hQ]
  cases text with
  | nil => exact ⟨_, rfl, hfirst⟩
  | cons c text => exact ⟨_, _, rfl, hfirst, const (fun first rest => by simp [hQ]) text⟩

theorem stop (h : Marks P before text places)
    (hQ : ∀ before rest, Q before rest ↔ rest = [] ∧ P before []) :
    Marks Q before text (Regex.stopPlaces text places) := by
  induction text generalizing before places with
  | nil =>
    obtain ⟨here, rfl, hhere⟩ := h
    exact ⟨here, rfl, by simp [hhere, hQ]⟩
  | cons c text ih =>
    obtain ⟨here, later, rfl, -, hlater⟩ := h
    exact ⟨false, _, rfl, by simp [hQ], ih hlater⟩

theorem one (h : Marks P before text places) {has : Char → Bool} (hQ : ∀ before rest,
    Q before rest ↔ ∃ c later, c :: later = rest ∧ has c = true ∧ P (before ++ [c]) later) :
    Marks Q before text (Regex.onePlaces has text places) := by
  induction text generalizing before places with
  | nil => exact ⟨false, rfl, by simp [hQ]⟩
  | cons c text ih =>
    obtain ⟨here, later, rfl, -, hlater⟩ := h
    exact ⟨_, _, rfl, by simp [hQ, hlater.head?_iff], ih hlater⟩

theorem many (h : Marks P before text places) {has : Char → Bool}
    (hnil : ∀ before, Q before [] ↔ P before []) (hcons : ∀ before c rest,
      Q before (c :: rest) ↔ P before (c :: rest) ∨ has c = true ∧ Q (before ++ [c]) rest) :
    Marks Q before text (Regex.manyPlaces has text places) := by
  induction text generalizing before places with
  | nil =>
    obtain ⟨here, rfl, hhere⟩ := h
    exact ⟨here, rfl, hhere.trans (hnil before).symm⟩
  | cons c text ih =>
    obtain ⟨here, later, rfl, hhere, hlater⟩ := h
    have hrest := ih hlater
    exact ⟨_, _, rfl, by simp [hcons, hhere, hrest.head?_iff], hrest⟩

end Marks

/-! ## The engine -/

/-- **The entries for items say where they match.** -/
theorem marks_places (dotAll : Bool) (text : List Char) (items : List RegexItem) :
    Marks (Begins dotAll items) [] text (Regex.places dotAll text items) := by
  induction items with
  | nil => exact .const (fun _ _ => iff_of_true rfl begins_nil) text
  | cons item items ih =>
    rw [Regex.places]
    cases item with
    | start => exact ih.start fun _ _ => begins_start
    | stop => exact ih.stop fun _ _ => begins_stop
    | one set => exact ih.one fun _ _ => begins_one
    | many set => exact ih.many (fun _ => begins_many_nil) fun _ _ _ => begins_many_cons

namespace Regex

theorem isFound_iff (r : Regex) (text : List Char) : r.isFound text = true ↔ r.FoundIn text := by
  rw [isFound, (marks_places r.dotAll text r.items).any_iff, foundIn_iff]
  rfl

/-- The engine of this library keeps to the meaning of regular expressions. -/
theorem faithful_engine : engine.Faithful := by
  intro source r hr test htest text
  rw [engine, hr, Option.map_some] at htest
  rw [← Option.some.inj htest]
  exact r.isFound_iff text

end Regex

end QueryPlan.Text
