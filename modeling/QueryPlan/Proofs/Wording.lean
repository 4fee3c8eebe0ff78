import QueryPlan.Proofs.ConstantText
import QueryPlan.Text.Case

/-!
# The tokens of an expression

`Expr.tokens` lists the tokens of an expression without aggregate calls, and together they are its
text (`Expr.spell_tokens`).  Where the names in it are plain, the tokens are well spelled
(`Expr.wellSpelled_tokens`), so the text of such an expression can be cut into tokens in no other
way.
-/

set_option autoImplicit false

namespace QueryPlan

/-! ## Plain names -/

/-- A name of plain ASCII characters that makes one word. -/
def Text.isPlainName (s : String) : Bool :=
  !s.isEmpty && s.toList.all fun c => isWordChar c && decide (c.toNat < 128)

/-- A column whose text is one word, and not that of a constant. -/
def Column.isPlain (c : Column) : Bool :=
  c.sql.toList.all isWordChar && !constantWords.contains c.sql &&
    c.sql.toList.head?.any fun d => !(Json.isDigit d || d == '-')

/-- Whether a node is no aggregate call and its own names are plain. -/
def Expr.isPlain : Expr → Bool
  | col c => c.isPlain
  | call name _ => Text.isPlainName name
  | named _ output => output.name.toList.all isWordChar
  | aggregate .. => false
  | _ => true

namespace Text

/-! Of the tables for capitals, only the first entry is about ASCII. -/

theorem upperRuns_eq : ∃ rest, upperRuns = (97, 122, 1, -32) :: rest ∧ ∀ run ∈ rest, 128 ≤ run.1 :=
  ⟨upperRuns.tail, rfl, by decide +kernel⟩

theorem le_of_mem_upperSequences : ∀ p ∈ upperSequences, 128 ≤ p.1 := by decide +kernel

section Ascii

variable {c : Char} (h : c.toNat < 128)
include h

/-- What holds of the first 128 characters, one by one. -/
theorem ascii {P : Char → Prop} (hall : ∀ n : Fin 128, P (Char.ofNat n)) : P c := by
  have hc := hall ⟨c.toNat, h⟩
  rwa [Char.ofNat_toNat] at hc

theorem upperChar_of_ascii : upperChar c = [c.toUpper] := by
  have hsequence : upperSequences.lookup c.toNat = none := by
    rw [List.lookup_eq_none_iff]
    intro p hp
    have := le_of_mem_upperSequences p hp
    simp
    omega
  obtain ⟨rest, hruns, hrest⟩ := upperRuns_eq
  have hnone : rest.find? (inRun c.toNat) = none := by
    rw [List.find?_eq_none]
    intro run hrun
    have := hrest run hrun
    simp [inRun]
    omega
  calc upperChar c = mapCase [(97, 122, 1, -32)] [] c := by
        rw [upperChar, mapCase, mapCase, hsequence, hruns, List.find?_cons, hnone]
        rfl
    _ = [c.toUpper] :=
        ascii h (P := fun c => mapCase [(97, 122, 1, -32)] [] c = [c.toUpper]) (by decide +kernel)

theorem toLower_toUpper : c.toUpper.toLower = c.toLower :=
  ascii h (P := fun c => c.toUpper.toLower = c.toLower) (by decide +kernel)

theorem isWordChar_toUpper : isWordChar c → isWordChar c.toUpper :=
  ascii h (P := fun c => isWordChar c → isWordChar c.toUpper) (by decide +kernel)

end Ascii

section PlainName

variable {s : String} (h : isPlainName s)
include h

theorem ascii_of_mem {c : Char} (hc : c ∈ s.toList) : isWordChar c ∧ c.toNat < 128 := by
  rw [isPlainName, Bool.and_eq_true] at h
  simpa using List.all_eq_true.mp h.2 c hc

theorem toList_upper : (upper s).toList = s.toList.map Char.toUpper := by
  rw [upper, String.toList_ofList, ← List.flatMap_singleton' (s.toList.map _), List.flatMap_map]
  exact List.flatMap_congr fun c hc => upperChar_of_ascii (ascii_of_mem h hc).2

/-- Looking up a name does not see that it was written in capitals. -/
theorem foldName_upper : foldName (upper s) = foldName s := by
  rw [foldName, foldName, ← String.toList_inj, String.toList_map, String.toList_map,
    toList_upper h, List.map_map]
  exact List.map_congr_left fun c hc => toLower_toUpper (ascii_of_mem h hc).2

theorem fits_upper : (Token.call (upper s).toList).fits := by
  rw [Token.fits, toList_upper h, Bool.and_eq_true, List.all_map]
  refine ⟨?_, List.all_eq_true.mpr fun c hc =>
    isWordChar_toUpper (ascii_of_mem h hc).2 (ascii_of_mem h hc).1⟩
  rw [isPlainName, Bool.and_eq_true] at h
  simpa using h.1

end PlainName

end Text

theorem Column.fits_of_isPlain {c : Column} (h : c.isPlain) : (Token.word c.sql.toList).fits := by
  simp only [isPlain, Bool.and_eq_true] at h
  obtain ⟨⟨hall, -⟩, hhead⟩ := h
  rw [Token.fits, hall, Bool.and_true]
  cases hs : c.sql.toList with
  | nil => simp [hs] at hhead
  | cons d rest => rfl

/-! ## The tokens -/

/-- The token of a constant. -/
def Literal.token : Literal → Token
  | str s => .quoted s.toList
  | l => .word l.sql.toList

namespace Expr

open Sql (render separated)

/-- What holds of every node holds of the expression, if it passes from the parts of a node to the
node. -/
theorem nodes_induction {Q P : Expr → Prop}
    (step : ∀ e, Q e → (∀ x ∈ e.children, P x) → P e) {e : Expr} (h : ∀ x ∈ e.subexprs, Q x) :
    P e := by
  induction e using children_induction with
  | step e ih =>
    rw [subexprs_eq, List.forall_mem_cons] at h
    exact step e h.1 fun x hx => ih x hx fun y hy => h.2 y (List.mem_flatMap.mpr ⟨x, hx, hy⟩)

/-- The tokens of an operand. -/
def groupedTokens (e : Expr) (ts : List Token) : List Token :=
  if e.isConnective then .mark .groupOpen :: (ts ++ [.mark .close]) else ts

/-- What comes after an expression under an alias. -/
def labelTokens (operand : Expr) (output : Column) : List Token :=
  match operand with
  | col c => if c.name = output.name then [] else [.label output.name.toList]
  | _ => [.label output.name.toList]

theorem labelTokens_eq (operand : Expr) (output : Column) : operand.labelTokens output = [] ∨
    operand.labelTokens output = [.label output.name.toList] := by
  cases operand with
  | col c => exact ite_eq_or_eq _ _ _
  | _ => exact .inr rfl

mutual

/-- The tokens of an expression.  An aggregate call has none. -/
def tokens : Expr → List Token
  | lit l => [l.token]
  | col c => [.word c.sql.toList]
  | call name args =>
    .call (Text.upper name).toList :: (punctuated .comma (tokensList args) ++ [.mark .close])
  | compare left op right =>
    left.groupedTokens (tokens left) ++
      .mark (.compare op) :: right.groupedTokens (tokens right)
  | and operands => punctuated .and (tokensOperands operands)
  | or operands => punctuated .or (tokensOperands operands)
  | not operand => .mark .notOpen :: (tokens operand ++ [.mark .close])
  | isNull operand negated => operand.groupedTokens (tokens operand) ++ [.mark (.isNull negated)]
  | inList operand members negated =>
    operand.groupedTokens (tokens operand) ++
      .mark (.inOpen negated) :: (punctuated .comma (tokensList members) ++ [.mark .close])
  | like operand pattern negated =>
    operand.groupedTokens (tokens operand) ++
      .mark (.like negated) :: pattern.groupedTokens (tokens pattern)
  | aggregate .. => []
  | named operand output => tokens operand ++ operand.labelTokens output

/-- The tokens of several expressions. -/
def tokensList : List Expr → List (List Token)
  | [] => []
  | e :: rest => tokens e :: tokensList rest

/-- The tokens of several operands. -/
def tokensOperands : List Expr → List (List Token)
  | [] => []
  | e :: rest => e.groupedTokens (tokens e) :: tokensOperands rest

end

theorem tokensList_eq_map (es : List Expr) : tokensList es = es.map tokens := by
  induction es with
  | nil => rfl
  | cons e es ih => rw [tokensList, ih, List.map_cons]

/-- The tokens of an expression as an operand. -/
def operandTokens (e : Expr) : List Token := e.groupedTokens e.tokens

theorem tokensOperands_eq_map (es : List Expr) : tokensOperands es = es.map operandTokens := by
  induction es with
  | nil => rfl
  | cons e es ih => rw [tokensOperands, ih, List.map_cons, operandTokens]

/-! ## Their text -/

theorem separated_cons_cons (separator : String) (ps qs : List Piece) (items : List (List Piece)) :
    separated separator (ps :: qs :: items) =
      ps ++ .text separator :: separated separator (qs :: items) := by
  rw [separated, List.intercalate_cons_cons, List.append_assoc]
  rfl

theorem spell_punctuated (m : Mark) {f : Expr → List Token} {g : Expr → List Piece} {es : List Expr}
    (h : ∀ e ∈ es, spell (f e) = (render (g e)).toList) :
    spell (punctuated m (es.map f)) = (render (separated m.text (es.map g))).toList := by
  induction es with
  | nil => rfl
  | cons e es ih =>
    obtain ⟨he, hes⟩ := List.forall_mem_cons.mp h
    cases es with
    | nil => simpa [punctuated, separated] using he
    | cons x es =>
      have hrest := ih hes
      rw [List.map_cons, List.map_cons] at hrest
      simp only [List.map_cons]
      rw [punctuated_cons_cons, separated_cons_cons, spell_append, spell_cons, hrest, he]
      simp [Token.text, Piece.sql]

theorem spell_groupedTokens {e : Expr} {ts : List Token} {ps : List Piece}
    (h : spell ts = (render ps).toList) :
    spell (e.groupedTokens ts) = (render (e.parenthesizedPieces ps)).toList := by
  rw [groupedTokens, parenthesizedPieces]
  split
  · simp [h, Token.text, Mark.text, Piece.sql]
  · exact h

theorem spell_labelTokens (operand : Expr) (output : Column) :
    spell (operand.labelTokens output) = (render (operand.aliasPieces output)).toList := by
  have hlabel : spell [.label output.name.toList] =
      (render [.text (" AS " ++ output.name)]).toList := by
    simp [Token.text, Piece.sql]
  cases operand with
  | col c =>
    rw [labelTokens, aliasPieces]
    split
    · rfl
    · exact hlabel
  | _ => exact hlabel

theorem text_token (l : Literal) : l.token.text = l.sql.toList := by
  cases l with
  | str s => exact String.toList_ofList.symm
  | _ => rfl

/-- **The tokens of an expression make its text.** -/
theorem spell_tokens {e : Expr} (h : ∀ x ∈ e.subexprs, x.isPlain) :
    spell e.tokens = (render e.pieces).toList := by
  refine nodes_induction (P := fun e => spell e.tokens = (render e.pieces).toList)
    (fun e he ih => ?_) h
  have hgroup (x : Expr) (hx : x ∈ e.children) :
      spell (x.groupedTokens x.tokens) = (render (x.parenthesizedPieces x.pieces)).toList :=
    spell_groupedTokens (ih x hx)
  have hlist (es : List Expr) (hes : ∀ x ∈ es, x ∈ e.children) :
      spell (punctuated .comma (es.map tokens)) =
        (render (separated ", " (es.map pieces))).toList :=
    spell_punctuated .comma fun x hx => ih x (hes x hx)
  cases e with
  | lit l => simp [tokens, pieces, Piece.sql, text_token]
  | col c => simp [tokens, pieces, Piece.sql, Token.text]
  | call name args =>
    simp [tokens, pieces, tokensList_eq_map, piecesList_eq_map, hlist args fun _ hx => hx,
      Token.text, Mark.text, Piece.sql]
  | compare left op right =>
    simp [tokens, pieces, hgroup left (by simp [children]), hgroup right (by simp [children]),
      Token.text, Mark.text, Piece.sql]
  | and operands =>
    rw [tokens, pieces, tokensOperands_eq_map, piecesOperands_eq_map]
    exact spell_punctuated .and hgroup
  | or operands =>
    rw [tokens, pieces, tokensOperands_eq_map, piecesOperands_eq_map]
    exact spell_punctuated .or hgroup
  | not operand =>
    simp [tokens, pieces, ih operand (by simp [children]), Token.text, Mark.text, Piece.sql]
  | isNull operand negated =>
    simp [tokens, pieces, hgroup operand (by simp [children]), Token.text, Mark.text, Piece.sql]
  | inList operand members negated =>
    simp [tokens, pieces, tokensList_eq_map, piecesList_eq_map, hgroup operand (by simp [children]),
      hlist members fun _ hx => List.mem_cons_of_mem _ hx, Token.text, Mark.text, Piece.sql]
  | like operand pattern negated =>
    simp [tokens, pieces, hgroup operand (by simp [children]),
      hgroup pattern (by simp [children]), Token.text, Mark.text, Piece.sql]
  | aggregate func args distinct => cases he
  | named operand output =>
    simp [tokens, pieces, ih operand (by simp [children]), spell_labelTokens]

/-! ## Their spelling -/

theorem wellSpelled_groupedTokens {e : Expr} {ts : List Token} (h : WellSpelled ts) :
    WellSpelled (e.groupedTokens ts) := by
  rw [groupedTokens]
  split
  · exact (h.append (.singleton rfl) rfl).cons rfl rfl
  · exact h

theorem fits_token (l : Literal) : l.token.fits := by
  cases l with
  | str s => rfl
  | _ => exact (Literal.constant (by simp)).fits

/-- **Plain names make well-spelled tokens.** -/
theorem wellSpelled_tokens {e : Expr} (h : ∀ x ∈ e.subexprs, x.isPlain) :
    WellSpelled e.tokens := by
  refine nodes_induction (P := fun e => WellSpelled e.tokens) (fun e he ih => ?_) h
  have hgroup (x : Expr) (hx : x ∈ e.children) : WellSpelled (x.groupedTokens x.tokens) :=
    wellSpelled_groupedTokens (ih x hx)
  have hlist (es : List Expr) (hes : ∀ x ∈ es, x ∈ e.children) :
      WellSpelled (punctuated .comma (tokensList es) ++ [.mark .close]) := by
    have hitems : ∀ ts ∈ es.map tokens, WellSpelled ts :=
      List.forall_mem_map.mpr fun x hx => ih x (hes x hx)
    rw [tokensList_eq_map]
    exact (wellSpelled_punctuated rfl hitems).append (.singleton rfl) rfl
  cases e with
  | lit l => exact .singleton (fits_token l)
  | col c => exact .singleton (Column.fits_of_isPlain he)
  | call name args => exact (hlist args fun _ hx => hx).cons (Text.fits_upper he) rfl
  | compare left op right =>
    exact (hgroup left (by simp [children])).append
      ((hgroup right (by simp [children])).cons rfl rfl) rfl
  | and operands =>
    rw [tokens, tokensOperands_eq_map]
    exact wellSpelled_punctuated rfl (List.forall_mem_map.mpr hgroup)
  | or operands =>
    rw [tokens, tokensOperands_eq_map]
    exact wellSpelled_punctuated rfl (List.forall_mem_map.mpr hgroup)
  | not operand =>
    exact ((ih operand (by simp [children])).append (.singleton rfl) rfl).cons rfl rfl
  | isNull operand negated =>
    exact (hgroup operand (by simp [children])).append (.singleton rfl) rfl
  | inList operand members negated =>
    exact (hgroup operand (by simp [children])).append
      ((hlist members fun _ hx => List.mem_cons_of_mem _ hx).cons rfl rfl) rfl
  | like operand pattern negated =>
    exact (hgroup operand (by simp [children])).append
      ((hgroup pattern (by simp [children])).cons rfl rfl) rfl
  | aggregate func args distinct => cases he
  | named operand output =>
    have hoperand := ih operand (by simp [children])
    rw [tokens]
    rcases labelTokens_eq operand output with h | h <;> rw [h]
    · rwa [List.append_nil]
    · exact hoperand.append (.singleton he) rfl

end Expr

end QueryPlan
