import QueryPlan.Proofs.DecimalText
import QueryPlan.Proofs.Escape
import QueryPlan.Value

/-!
# The text of a tuple tells its values apart

Groups and the arguments of distinct calls are told apart by the compact text of their values, and
that text belongs to one tuple of values only (`Value.tupleText_inj`).  The text of a value is made
so that a reader knows where it ends: strings, lists and objects bring their closing mark, and a
number ends before the first character that no number has (`Value.render_inj`).  The text of a tuple
is told from whatever follows it as well (`Value.tupleText_append_inj`).

Values can therefore be compared by comparing their texts, which makes their equality decidable.
-/

set_option autoImplicit false

namespace QueryPlan

open Decimal (isNumeric)

/-! ## Numbers -/

namespace Number

theorem fitsWord_toInt (i : Int64) : fitsWord i.toInt = true := by
  rw [fitsWord, decide_eq_true_eq]
  exact ⟨i.le_toInt, i.toInt_lt⟩

theorem toString_natCast (n : Nat) : (toString (n : Int)).toList = Nat.toDigits 10 n :=
  Nat.toList_repr

theorem toString_negSucc (n : Nat) :
    (toString (Int.negSucc n)).toList = '-' :: Nat.toDigits 10 (n + 1) := by
  show ("-" ++ Nat.repr (n + 1)).toList = _
  rw [String.toList_append, Nat.toList_repr]
  rfl

theorem mem_toString {i : Int} {c : Char} (h : c ∈ (toString i).toList) :
    Json.isDigit c ∨ c = '-' := by
  cases i with
  | ofNat n =>
    exact .inl (isDigit_of_mem_toDigits (by rwa [← toString_natCast]))
  | negSucc n =>
    rw [toString_negSucc, List.mem_cons] at h
    exact h.symm.imp_left isDigit_of_mem_toDigits

theorem toString_inj {i j : Int} (h : (toString i).toList = (toString j).toList) : i = j := by
  have hread (m n : Nat) (h : Nat.toDigits 10 m = Nat.toDigits 10 n) : m = n := by
    rw [← digitsValue_toDigits m, h, digitsValue_toDigits]
  have hminus (m n : Nat) : '-' :: Nat.toDigits 10 m ≠ Nat.toDigits 10 n := fun h =>
    absurd (isDigit_of_mem_toDigits (h ▸ List.mem_cons_self : '-' ∈ Nat.toDigits 10 n)) (by decide)
  cases i with
  | ofNat m =>
    cases j with
    | ofNat n => exact congrArg _ (hread m n (by rwa [← toString_natCast, ← toString_natCast]))
    | negSucc n =>
      rw [toString_negSucc] at h
      exact absurd h.symm (hminus (n + 1) m ∘ (·.trans (toString_natCast m)))
  | negSucc m =>
    cases j with
    | ofNat n =>
      rw [toString_negSucc] at h
      exact absurd h (hminus (m + 1) n ∘ (·.trans (toString_natCast n)))
    | negSucc n =>
      rw [toString_negSucc, toString_negSucc, List.cons.injEq] at h
      exact congrArg Int.negSucc (Nat.succ.inj (hread _ _ h.2))

theorem all_isNumeric_text (n : Number) : ∀ c ∈ n.text, isNumeric c := by
  cases n with
  | int i =>
    intro c hc
    rcases mem_toString hc with h | rfl
    · exact Decimal.isNumeric_of_isDigit h
    · decide
  | float f _ => exact Decimal.all_isNumeric_json f

/-- No two numbers have one text, be they integers or floats. -/
theorem text_inj {a b : Number} (h : a.text = b.text) : a = b := by
  have hmark (i : Int) (f : Float) : (toString i).toList ≠ Decimal.json f := fun h => by
    rcases Decimal.mark_mem_json f with hm | hm
    · rcases mem_toString (h ▸ hm) with hd | hd <;> exact absurd hd (by decide)
    · rcases mem_toString (h ▸ hm) with hd | hd <;> exact absurd hd (by decide)
  cases a with
  | int i =>
    cases b with
    | int j => exact congrArg int (toString_inj h)
    | float f _ => exact absurd h (hmark i f)
  | float f _ =>
    cases b with
    | int j => exact absurd h.symm (hmark j f)
    | float g _ =>
      obtain rfl : f = g := Decimal.json_injective h
      rfl

theorem text_ne_nil (n : Number) : n.text ≠ [] := by
  cases n with
  | int i =>
    cases i with
    | ofNat n => exact fun h => Nat.toDigits_ne_nil ((toString_natCast n).symm.trans h)
    | negSucc n => exact fun h => by rw [text, toString_negSucc] at h; cases h
  | float f _ =>
    intro h
    rcases Decimal.mark_mem_json f with hm | hm <;>
      · rw [text] at h
        rw [h] at hm
        cases hm

end Number

/-! ## Values -/

namespace Value

/-- What may follow a value: no character that could belong to a number. -/
def Delimited (rest : List Char) : Prop := ∀ c ∈ rest.head?, isNumeric c = false

/-- The kind of a value as its first character tells it: all that begin numbers count as one. -/
def leadOf (c : Char) : Nat := if isNumeric c then 0 else c.toNat

/-- What the first character of a value's text tells. -/
def lead : Value → Nat
  | null => 110
  | bool true => 116
  | bool false => 102
  | num _ => 0
  | str _ => 34
  | arr _ => 91
  | obj _ => 123

theorem render_eq_cons (v : Value) : ∃ c s, v.toJson.render = c :: s ∧ leadOf c = v.lead := by
  cases v with
  | num n =>
    obtain ⟨c, s, hcs⟩ := List.exists_cons_of_ne_nil n.text_ne_nil
    refine ⟨c, s, hcs, ?_⟩
    rw [leadOf, if_pos (n.all_isNumeric_text c (hcs ▸ List.mem_cons_self))]
    rfl
  | bool b => cases b <;> exact ⟨_, _, rfl, rfl⟩
  | _ => exact ⟨_, _, rfl, rfl⟩

theorem lead_eq {v w : Value} {r r' : List Char}
    (h : v.toJson.render ++ r = w.toJson.render ++ r') : v.lead = w.lead := by
  obtain ⟨c, s, hv, hc⟩ := v.render_eq_cons
  obtain ⟨d, t, hw, hd⟩ := w.render_eq_cons
  rw [hv, hw, List.cons_append, List.cons_append, List.cons.injEq] at h
  rw [← hc, h.1, hd]

theorem number_inj {a b : Number} {r r' : List Char} (hr : Delimited r) (hr' : Delimited r')
    (h : a.text ++ r = b.text ++ r') : a = b ∧ r = r' := by
  have htake (n : Number) (s : List Char) (hs : Delimited s) :
      (n.text ++ s).takeWhile isNumeric = n.text := by
    rw [List.takeWhile_append_of_pos n.all_isNumeric_text]
    cases s with
    | nil => simp
    | cons c s => rw [List.takeWhile_cons_of_neg (by simpa using hs c rfl), List.append_nil]
  have htext : a.text = b.text := by rw [← htake a r hr, h, htake b r' hr']
  refine ⟨Number.text_inj htext, ?_⟩
  rw [htext] at h
  exact List.append_cancel_left h

theorem renderItems_cons (x : Json) (xs : List Json) (r : List Char) :
    Json.renderItems (x :: xs) ++ ']' :: r = x.render ++
      match xs with
      | [] => ']' :: r
      | _ :: _ => ',' :: (Json.renderItems xs ++ ']' :: r) := by
  cases xs <;> simp [Json.renderItems]

theorem renderMembers_cons (name : List Char) (x : Json) (xs : List (List Char × Json))
    (r : List Char) :
    Json.renderMembers ((name, x) :: xs) ++ '\x7d' :: r = '"' :: (name ++ '"' :: ':' :: (x.render ++
      match xs with
      | [] => '\x7d' :: r
      | _ :: _ => ',' :: (Json.renderMembers xs ++ '\x7d' :: r))) := by
  cases xs <;> simp [Json.renderMembers, Json.quote]

/-- No value's text begins as a list or an object ends. -/
theorem ne_close (v : Value) {r r' : List Char} :
    v.toJson.render ++ r ≠ ']' :: r' ∧ v.toJson.render ++ r ≠ '\x7d' :: r' := by
  obtain ⟨c, s, hv, hc⟩ := v.render_eq_cons
  rw [hv, List.cons_append]
  constructor
  · intro h
    rw [(List.cons.inj h).1] at hc
    cases v with
    | bool b => cases b <;> cases hc
    | _ => cases hc
  · intro h
    rw [(List.cons.inj h).1] at hc
    cases v with
    | bool b => cases b <;> cases hc
    | _ => cases hc

theorem delimited_cons {c : Char} (h : isNumeric c = false) (r : List Char) : Delimited (c :: r) :=
  fun d hd => by
    obtain rfl : c = d := by simpa using hd
    exact h

mutual

/-- **The text of a value says where it ends, and which value it is of.** -/
theorem render_inj : ∀ (v w : Value) {r r' : List Char}, Delimited r → Delimited r' →
    v.toJson.render ++ r = w.toJson.render ++ r' → v = w ∧ r = r'
  | null, w, r, r', _, _, h => by
    have hlead := lead_eq h
    cases w with
    | null => exact ⟨rfl, List.append_cancel_left h⟩
    | bool c => cases c <;> cases hlead
    | _ => cases hlead
  | bool b, w, r, r', _, _, h => by
    have hlead := lead_eq h
    cases w with
    | bool c =>
      cases b <;> cases c <;> first | cases hlead; done | exact ⟨rfl, List.append_cancel_left h⟩
    | _ => cases b <;> cases hlead
  | num n, w, r, r', hr, hr', h => by
    have hlead := lead_eq h
    cases w with
    | num m =>
      obtain ⟨rfl, hrest⟩ := number_inj hr hr' h
      exact ⟨rfl, hrest⟩
    | bool c => cases c <;> cases hlead
    | _ => cases hlead
  | str s, w, r, r', _, _, h => by
    have hlead := lead_eq h
    cases w with
    | str t =>
      simp only [toJson, Json.ofText, Json.render, Json.quote, List.cons_append, List.append_assoc,
        List.nil_append, List.cons.injEq, true_and] at h
      obtain ⟨hst, hrest⟩ := Json.escape_append_inj h
      exact ⟨congrArg str (String.toList_inj.mp hst), hrest⟩
    | bool c => cases c <;> cases hlead
    | _ => cases hlead
  | arr vs, w, r, r', _, _, h => by
    have hlead := lead_eq h
    cases w with
    | arr ws =>
      simp only [toJson, Json.render, List.cons_append, List.append_assoc, List.nil_append,
        List.cons.injEq, true_and] at h
      obtain ⟨rfl, hrest⟩ := renderItems_inj vs ws h
      exact ⟨rfl, hrest⟩
    | bool c => cases c <;> cases hlead
    | _ => cases hlead
  | obj ms, w, r, r', _, _, h => by
    have hlead := lead_eq h
    cases w with
    | obj ns =>
      simp only [toJson, Json.render, List.cons_append, List.append_assoc, List.nil_append,
        List.cons.injEq, true_and] at h
      obtain ⟨rfl, hrest⟩ := renderMembers_inj ms ns h
      exact ⟨rfl, hrest⟩
    | bool c => cases c <;> cases hlead
    | _ => cases hlead

theorem renderItems_inj : ∀ (vs ws : List Value) {r r' : List Char},
    Json.renderItems (itemsToJson vs) ++ ']' :: r =
      Json.renderItems (itemsToJson ws) ++ ']' :: r' → vs = ws ∧ r = r'
  | [], [], _, _, h => ⟨rfl, (List.cons.inj h).2⟩
  | [], w :: ws, r, r', h => by
    rw [itemsToJson, itemsToJson, renderItems_cons] at h
    exact absurd h.symm w.ne_close.1
  | v :: vs, [], r, r', h => by
    rw [itemsToJson, itemsToJson, renderItems_cons] at h
    exact absurd h v.ne_close.1
  | v :: vs, w :: ws, r, r', h => by
    rw [itemsToJson, itemsToJson, renderItems_cons, renderItems_cons] at h
    have hdelim (xs : List Json) (r : List Char) : Delimited (match xs with
        | [] => ']' :: r
        | _ :: _ => ',' :: (Json.renderItems xs ++ ']' :: r)) := by
      cases xs <;> exact delimited_cons (by decide) _
    obtain ⟨rfl, htail⟩ := render_inj v w (hdelim _ r) (hdelim _ r') h
    cases vs with
    | nil =>
      cases ws with
      | nil => exact ⟨rfl, (List.cons.inj htail).2⟩
      | cons w' ws => exact absurd (List.cons.inj htail).1 (by decide)
    | cons v' vs =>
      cases ws with
      | nil => exact absurd (List.cons.inj htail).1 (by decide)
      | cons w' ws =>
        obtain ⟨hvs, hrest⟩ := renderItems_inj (v' :: vs) (w' :: ws) (List.cons.inj htail).2
        exact ⟨by rw [hvs], hrest⟩

theorem renderMembers_inj : ∀ (ms ns : List (String × Value)) {r r' : List Char},
    Json.renderMembers (membersToJson ms) ++ '\x7d' :: r =
      Json.renderMembers (membersToJson ns) ++ '\x7d' :: r' → ms = ns ∧ r = r'
  | [], [], _, _, h => ⟨rfl, (List.cons.inj h).2⟩
  | [], (name, w) :: ns, r, r', h => by
    rw [membersToJson, membersToJson, renderMembers_cons] at h
    exact absurd (List.cons.inj h).1 (by decide)
  | (name, v) :: ms, [], r, r', h => by
    rw [membersToJson, membersToJson, renderMembers_cons] at h
    exact absurd (List.cons.inj h).1 (by decide)
  | (name, v) :: ms, (name', w) :: ns, r, r', h => by
    rw [membersToJson, membersToJson, renderMembers_cons, renderMembers_cons] at h
    have hdelim (xs : List (List Char × Json)) (r : List Char) : Delimited (match xs with
        | [] => '\x7d' :: r
        | _ :: _ => ',' :: (Json.renderMembers xs ++ '\x7d' :: r)) := by
      cases xs <;> exact delimited_cons (by decide) _
    obtain ⟨hname, hvalue⟩ := Json.escape_append_inj (List.cons.inj h).2
    obtain rfl : name = name' := String.toList_inj.mp hname
    obtain ⟨rfl, htail⟩ := render_inj v w (hdelim _ r) (hdelim _ r') (List.cons.inj hvalue).2
    cases ms with
    | nil =>
      cases ns with
      | nil => exact ⟨rfl, (List.cons.inj htail).2⟩
      | cons n ns => exact absurd (List.cons.inj htail).1 (by decide)
    | cons m ms =>
      cases ns with
      | nil => exact absurd (List.cons.inj htail).1 (by decide)
      | cons n ns =>
        obtain ⟨hms, hrest⟩ := renderMembers_inj (m :: ms) (n :: ns) (List.cons.inj htail).2
        exact ⟨by rw [hms], hrest⟩

end

theorem text_inj {v w : Value} (h : v.text = w.text) : v = w := by
  have hrender : v.toJson.render = w.toJson.render := String.ofList_inj.mp h
  have hnil : Delimited [] := fun c hc => by cases hc
  exact (render_inj v w hnil hnil (by rw [hrender])).1

/-- **No two tuples have one text.** -/
theorem tupleText_inj {vs ws : List Value} (h : tupleText vs = tupleText ws) : vs = ws :=
  arr.inj (text_inj h)

theorem tupleText_eq_iff {vs ws : List Value} : tupleText vs = tupleText ws ↔ vs = ws :=
  ⟨tupleText_inj, congrArg tupleText⟩

/-- The text of a tuple is split off the front of a text in one way only.  The closing bracket
belongs to it, so that anything may follow. -/
theorem tupleText_append_inj {vs ws : List Value} {r r' : String}
    (h : tupleText vs ++ r = tupleText ws ++ r') : vs = ws ∧ r = r' := by
  have hchars := congrArg String.toList h
  simp only [tupleText, text, toJson, Json.text, Json.render, String.toList_append,
    String.toList_ofList, List.cons_append, List.append_assoc, List.nil_append, List.cons.injEq,
    true_and] at hchars
  obtain ⟨rfl, hrest⟩ := renderItems_inj vs ws hchars
  exact ⟨rfl, String.toList_inj.mp hrest⟩

/-- **The texts of tuples are unambiguous.**  Two tuples have one text if they are the same, so that
their lengths are too, and no other tuple's text goes on where one tuple's text ends: what follows
it is told from it. -/
theorem tupleText_unambiguous (vs ws : List Value) :
    (tupleText vs = tupleText ws ↔ vs = ws) ∧
      ∀ r r', tupleText vs ++ r = tupleText ws ++ r' ↔ vs = ws ∧ r = r' :=
  ⟨tupleText_eq_iff, fun _ _ => ⟨tupleText_append_inj, fun ⟨h, hr⟩ => by rw [h, hr]⟩⟩

instance : DecidableEq Value := fun _ _ => decidable_of_iff _ ⟨text_inj, congrArg text⟩

end Value

end QueryPlan
