import QueryPlan.Proofs.TupleText

/-!
# Written trees are read back

The reader takes from a text the tree that was written there, and stops exactly behind it
(`Json.readsBack_of_written`), so the text of a written tree is read as that tree
(`Json.parse?_text`).  The trees are those this library writes, numbers that are floats apart:
`Json.Written`.

The statement that carries the induction is `Json.ReadsBack`.  It speaks of a tree at the beginning
of a longer text, since lists and objects go on behind their items; what goes on there is a comma or
a closing bracket (`Json.Stops`), so that a number cannot run into it.
-/

set_option autoImplicit false

namespace QueryPlan.Json

/-! ## Trees that are written -/

/-- The trees that are written: numbers are integers, strings and names are escaped. -/
inductive Written : Json → Prop where
  | null : Written .null
  | bool (b : Bool) : Written (.bool b)
  | int (i : Int) : Written (.num (toString i).toList)
  | ofText (s : String) : Written (.ofText s)
  | arr {items : List Json} (each : ∀ j ∈ items, Written j) : Written (.arr items)
  | ofMembers {members : List (String × Json)} (each : ∀ m ∈ members, Written m.2) :
    Written (.ofMembers members)

/-- What may stand behind a tree in a text. -/
def Stops (rest : List Char) : Prop := ∀ c ∈ rest.head?, c = ',' ∨ c = ']' ∨ c = '\x7d'

theorem stops_nil : Stops [] := fun _ hc => by cases hc

theorem stops_cons {c : Char} (h : c = ',' ∨ c = ']' ∨ c = '\x7d') (rest : List Char) :
    Stops (c :: rest) := by
  intro d hd
  obtain rfl : c = d := by simpa using hd
  exact h

/-- A tree is taken from the beginning of a text, and what is left is what stands behind it. -/
def ReadsBack (j : Json) : Prop :=
  ∀ (calls : Nat) (rest : List Char), 2 * j.render.length ≤ calls → Stops rest →
    readValue calls (j.render ++ rest) = some (j, rest)

/-- There is a call for every tree that leaves a text at all. -/
theorem readsBack_of_call {j : Json} (hne : j.render ≠ [])
    (h : ∀ calls rest, 2 * j.render.length ≤ calls + 1 → Stops rest →
      readValue (calls + 1) (j.render ++ rest) = some (j, rest)) : ReadsBack j := by
  intro calls rest hcalls hrest
  have hpos := List.length_pos_iff.mpr hne
  obtain ⟨calls, rfl⟩ : ∃ k, calls = k + 1 := Nat.exists_eq_succ_of_ne_zero (by omega)
  exact h calls rest hcalls hrest

/-! ## Numbers -/

/-- A written number begins with a digit or a minus. -/
theorem toString_eq_cons (i : Int) :
    ∃ c s, (toString i).toList = c :: s ∧ (isDigit c ∨ c = '-') := by
  obtain ⟨c, s, hcs⟩ := List.exists_cons_of_ne_nil (Number.text_ne_nil (.int i))
  have htext : (toString i).toList = c :: s := hcs
  exact ⟨c, s, htext, Number.mem_toString (htext ▸ List.mem_cons_self)⟩

/-- No other character begins one. -/
theorem ne_of_begins {c d : Char} (hc : isDigit c ∨ c = '-') (hd : isDigit d = false ∧ d ≠ '-') :
    c ≠ d := by
  rintro rfl
  rcases hc with hc | hc
  · rw [hd.1] at hc
    cases hc
  · exact hd.2 hc

theorem isBlank_of_begins {c : Char} (hc : isDigit c ∨ c = '-') : isBlank c = false := by
  simp only [isBlank, Bool.or_eq_false_iff, beq_eq_false_iff_ne]
  exact ⟨⟨⟨ne_of_begins hc (by decide), ne_of_begins hc (by decide)⟩,
    ne_of_begins hc (by decide)⟩, ne_of_begins hc (by decide)⟩

theorem toDigits_eq_cons (n : Nat) :
    ∃ c s, Nat.toDigits 10 n = c :: s ∧ isDigit c ∧ c ≠ '-' := by
  obtain ⟨c, s, hcs⟩ := List.exists_cons_of_ne_nil (Nat.toDigits_ne_nil (n := n) (b := 10))
  have hc : isDigit c := isDigit_of_mem_toDigits (hcs ▸ List.mem_cons_self)
  refine ⟨c, s, hcs, hc, ?_⟩
  rintro rfl
  exact absurd hc (by decide)

/-- Only zero is written with a zero in front. -/
theorem head_toDigits {n : Nat} (h : 0 < n) {c : Char} {s : List Char}
    (hcs : Nat.toDigits 10 n = c :: s) : c ≠ '0' := by
  induction n using Nat.strongRecOn generalizing s with
  | ind n ih =>
    rw [Nat.toDigits_eq_if (by decide)] at hcs
    split at hcs
    · next hsmall =>
      have hdigit : ∀ k : Fin 10, 0 < k.val → Nat.digitChar k.val ≠ '0' := by decide
      exact (List.cons.inj hcs).1 ▸ hdigit ⟨n, hsmall⟩ h
    · obtain ⟨d, t, hdt, -⟩ := toDigits_eq_cons (n / 10)
      rw [hdt, List.cons_append, List.cons.injEq] at hcs
      obtain ⟨rfl, -⟩ := hcs
      exact ih (n / 10) (by omega) (by omega) hdt

theorem scanDigits_append {digits rest : List Char} (hne : digits ≠ [])
    (h : ∀ c ∈ digits, isDigit c) (hrest : Stops rest) :
    scanDigits (digits ++ rest) = some (digits, rest) := by
  have hhead : rest.head?.all fun c => !isDigit c := by
    cases rest with
    | nil => rfl
    | cons c rest => obtain rfl | rfl | rfl := hrest c rfl <;> rfl
  obtain ⟨htake, hdrop⟩ := Numeral.takeWhile_digits h rest hhead
  rw [scanDigits, htake, hdrop]
  cases digits with
  | nil => exact absurd rfl hne
  | cons c digits => rfl

/-- The whole part of a written number ends where its digits do. -/
theorem scanWhole_toDigits (n : Nat) {rest : List Char} (hrest : Stops rest) :
    scanWhole (Nat.toDigits 10 n ++ rest) = some (Nat.toDigits 10 n, rest) := by
  cases n with
  | zero => rfl
  | succ n =>
    obtain ⟨c, s, hcs, -⟩ := toDigits_eq_cons (n + 1)
    have hscan := scanDigits_append Nat.toDigits_ne_nil
      (fun _ => isDigit_of_mem_toDigits (n := n + 1)) hrest
    rw [hcs] at hscan ⊢
    rw [List.cons_append, scanWhole, ← List.cons_append, hscan]
    exact fun rest h => head_toDigits n.succ_pos hcs (List.cons.inj h).1

theorem scanUnsigned_toDigits (n : Nat) {rest : List Char} (hrest : Stops rest) :
    scanUnsigned (Nat.toDigits 10 n ++ rest) = some (Nat.toDigits 10 n, rest) := by
  have hfraction : scanFraction rest = some ([], rest) := by
    cases rest with
    | nil => rfl
    | cons c rest => obtain rfl | rfl | rfl := hrest c rfl <;> rfl
  have hexponent : scanExponent rest = some ([], rest) := by
    cases rest with
    | nil => rfl
    | cons c rest => obtain rfl | rfl | rfl := hrest c rfl <;> rfl
  simp [scanUnsigned, scanWhole_toDigits n hrest, hfraction, hexponent]

theorem scanNumber_toString (i : Int) {rest : List Char} (hrest : Stops rest) :
    scanNumber ((toString i).toList ++ rest) = some ((toString i).toList, rest) := by
  cases i with
  | ofNat n =>
    have hscan := scanUnsigned_toDigits n hrest
    obtain ⟨c, s, hcs, -, hminus⟩ := toDigits_eq_cons n
    rw [Int.ofNat_eq_natCast, Number.toString_natCast]
    rw [hcs] at hscan ⊢
    rw [List.cons_append, scanNumber, ← List.cons_append, hscan]
    exact fun rest h => hminus (List.cons.inj h).1
  | negSucc n =>
    rw [Number.toString_negSucc, List.cons_append, scanNumber, scanUnsigned_toDigits _ hrest]
    rfl

/-- What begins as a number is read as one. -/
theorem readValue_number {c : Char} (hc : isDigit c ∨ c = '-') (s : List Char) (calls : Nat) :
    readValue (calls + 1) (c :: s) = (scanNumber (c :: s)).map fun r => (.num r.1, r.2) := by
  have hskip : skipBlanks (c :: s) = c :: s :=
    List.dropWhile_cons_of_neg (by simp [isBlank_of_begins hc])
  have hlead {d : Char} {t : List Char} (h : c :: s = d :: t) : ¬(isDigit d = false ∧ d ≠ '-') :=
    fun hd => ne_of_begins hc hd (List.cons.inj h).1
  rw [readValue, hskip]
  split
  · next h => exact absurd (by decide) (hlead h)
  · next h => exact absurd (by decide) (hlead h)
  · next h => exact absurd (by decide) (hlead h)
  · next h => exact absurd (by decide) (hlead h)
  · next h => exact absurd (by decide) (hlead h)
  · next h => exact absurd (by decide) (hlead h)
  · cases scanNumber (c :: s) <;> rfl

theorem readsBack_int (i : Int) : ReadsBack (.num (toString i).toList) := by
  obtain ⟨c, s, hcs, hc⟩ := toString_eq_cons i
  refine readsBack_of_call (Number.text_ne_nil (.int i)) fun calls rest _ hrest => ?_
  have hscan := scanNumber_toString i hrest
  rw [render]
  rw [hcs] at hscan ⊢
  rw [List.cons_append, readValue_number hc, ← List.cons_append, hscan]
  rfl

/-! ## What integers stand for -/

theorem ofSpelling_toDigits (n : Nat) :
    Numeral.ofSpelling (Nat.toDigits 10 n) = ⟨false, Nat.toDigits 10 n, none, none⟩ ∧
    Numeral.ofSpelling ('-' :: Nat.toDigits 10 n) = ⟨true, Nat.toDigits 10 n, none, none⟩ := by
  obtain ⟨htake, hdrop⟩ :=
    Numeral.takeWhile_digits (fun _ => isDigit_of_mem_toDigits (n := n)) [] rfl
  rw [List.append_nil] at htake hdrop
  constructor
  · obtain ⟨c, s, hcs, -, hminus⟩ := toDigits_eq_cons n
    rw [hcs] at htake hdrop ⊢
    simp only [Numeral.ofSpelling]
    split
    · next h => exact absurd (List.cons.inj h).1 hminus
    · simp only [htake, hdrop]
  · simp only [Numeral.ofSpelling, htake, hdrop]

/-- Digits are absorbed to the last one, if their number fits. -/
theorem absorb_eq {digits : List Char} {n : Nat}
    (h : digits.foldl (fun n c => n * 10 + digitValue c) n < 2 ^ 64) :
    absorb n digits = (digits.foldl (fun n c => n * 10 + digitValue c) n, digits.length) := by
  have hmono (digits : List Char) (n : Nat) :
      n ≤ digits.foldl (fun n c => n * 10 + digitValue c) n := by
    induction digits generalizing n with
    | nil => exact le_rfl
    | cons c digits ih => exact le_trans (by omega) (ih (n * 10 + digitValue c))
  induction digits generalizing n with
  | nil => rfl
  | cons c digits ih =>
    rw [List.foldl_cons] at h ⊢
    have hnext : n * 10 + digitValue c < 2 ^ (64 : Nat) := (hmono digits _).trans_lt h
    rw [absorb, if_pos hnext, ih h]
    rfl

theorem absorb_toDigits {n : Nat} (h : n < 2 ^ 64) :
    absorb 0 (Nat.toDigits 10 n) = (n, (Nat.toDigits 10 n).length) := by
  have hvalue : (Nat.toDigits 10 n).foldl (fun n c => n * 10 + digitValue c) 0 = n :=
    digitsValue_toDigits n
  rw [absorb_eq (by rwa [hvalue]), hvalue]

/-- A written integer that fits a signed word stands for itself. -/
theorem number?_toString {i : Int} (h : Number.fitsWord i = true) :
    number? (.num (toString i).toList) = some (.int i) := by
  rw [Number.fitsWord, decide_eq_true_eq] at h
  cases i with
  | ofNat n =>
    rw [Int.ofNat_eq_natCast] at h ⊢
    rw [Number.toString_natCast, number?, (ofSpelling_toDigits n).1]
    simp [Numeral.number?, absorb_toDigits (n := n) (by omega)]
  | negSucc n =>
    rw [Int.negSucc_eq] at h
    rw [Number.toString_negSucc, number?, (ofSpelling_toDigits (n + 1)).2]
    have hsmall : ¬(n + 1 = 0 ∨ 2 ^ (63 : Nat) < n + 1) := by omega
    simp only [Numeral.number?, absorb_toDigits (n := n + 1) (by omega), Option.isNone_none,
      Nat.sub_self, and_self, if_true, Bool.not_true, Bool.false_eq_true, if_false, hsmall]
    rfl

/-! ## Strings -/

theorem readsBack_ofText (s : String) : ReadsBack (.ofText s) := by
  refine readsBack_of_call (by simp [ofText, render, quote]) fun calls rest _ _ => ?_
  have htext : (ofText s).render ++ rest = '"' :: (escape s.toList ++ '"' :: rest) := by
    simp [ofText, render, quote]
  have hskip : skipBlanks ('"' :: (escape s.toList ++ '"' :: rest)) =
      '"' :: (escape s.toList ++ '"' :: rest) := rfl
  rw [htext, readValue, hskip]
  simp [scanString_escape, ofText]

/-! ## Lists -/

/-- How a written tree begins: not with a blank, and not as a list ends. -/
theorem Written.render_eq_cons {j : Json} (h : j.Written) :
    ∃ c s, j.render = c :: s ∧ isBlank c = false ∧ c ≠ ']' := by
  cases h with
  | bool b => cases b <;> exact ⟨_, _, rfl, rfl, by decide⟩
  | int i =>
    obtain ⟨c, s, hcs, hc⟩ := toString_eq_cons i
    exact ⟨c, s, hcs, isBlank_of_begins hc, ne_of_begins hc (by decide)⟩
  | _ => exact ⟨_, _, rfl, rfl, by decide⟩

theorem readItems_render {items : List Json} (hne : items ≠ []) (h : ∀ j ∈ items, ReadsBack j)
    (calls : Nat) (rest : List Char) (hcalls : 2 * (renderItems items).length < calls) :
    readItems calls (renderItems items ++ ']' :: rest) = some (items, rest) := by
  induction items generalizing calls with
  | nil => exact absurd rfl hne
  | cons x xs ih =>
    obtain ⟨calls, rfl⟩ : ∃ k, calls = k + 1 := Nat.exists_eq_succ_of_ne_zero (by omega)
    have hx := h x List.mem_cons_self
    rw [Value.renderItems_cons, readItems]
    cases xs with
    | nil =>
      rw [renderItems] at hcalls
      have hread := hx calls (']' :: rest) (by omega) (stops_cons (by simp) rest)
      simp only [hread]
      rfl
    | cons y ys =>
      have hlength : (renderItems (x :: y :: ys)).length =
          x.render.length + ((renderItems (y :: ys)).length + 1) := by
        simp [renderItems]
      have hread := hx calls (',' :: (renderItems (y :: ys) ++ ']' :: rest)) (by omega)
        (stops_cons (by simp) _)
      have hrest := ih (List.cons_ne_nil y ys) (fun j hj => h j (List.mem_cons_of_mem _ hj))
        calls (by omega)
      have hskip : skipBlanks (',' :: (renderItems (y :: ys) ++ ']' :: rest)) =
        ',' :: (renderItems (y :: ys) ++ ']' :: rest) := rfl
      simp only [hread, hskip, hrest, Option.bind_eq_bind, Option.bind_some]
      rfl

/-- What begins as a list with an item is read as one. -/
theorem readValue_list {c : Char} (hblank : isBlank c = false) (hc : c ≠ ']') (s : List Char)
    (calls : Nat) : readValue (calls + 1) ('[' :: c :: s) =
      (readItems calls (c :: s)).map fun r => (.arr r.1, r.2) := by
  have hskip : skipBlanks (c :: s) = c :: s := List.dropWhile_cons_of_neg (by simp [hblank])
  have houter : skipBlanks ('[' :: c :: s) = '[' :: c :: s := rfl
  rw [readValue, houter]
  simp only [hskip]
  split
  · next h => exact absurd (List.cons.inj h).1 hc
  · cases readItems calls (c :: s) <;> rfl

theorem readsBack_arr {items : List Json} (hwritten : ∀ j ∈ items, Written j)
    (h : ∀ j ∈ items, ReadsBack j) : ReadsBack (.arr items) := by
  refine readsBack_of_call (by simp [render]) fun calls rest hcalls _ => ?_
  have hlength : (render (.arr items)).length = (renderItems items).length + 2 := by simp [render]
  have htext : render (.arr items) ++ rest = '[' :: (renderItems items ++ ']' :: rest) := by
    simp [render]
  rw [htext]
  cases items with
  | nil => rfl
  | cons x xs =>
    obtain ⟨c, s, hcs, hblank, hc⟩ := (hwritten x List.mem_cons_self).render_eq_cons
    have hread := readItems_render (List.cons_ne_nil x xs) h calls rest (by omega)
    have hbegins : ∃ t, renderItems (x :: xs) ++ ']' :: rest = c :: t := by
      rw [Value.renderItems_cons, hcs]
      exact ⟨_, rfl⟩
    obtain ⟨t, ht⟩ := hbegins
    rw [ht] at hread ⊢
    rw [readValue_list hblank hc, hread]
    rfl

/-! ## Objects -/

/-- Members as an object has them: their names are escaped. -/
def spelled (members : List (String × Json)) : List (List Char × Json) :=
  members.map fun m => (escape m.1.toList, m.2)

theorem readMembers_render {members : List (String × Json)} (hne : members ≠ [])
    (h : ∀ m ∈ members, ReadsBack m.2) (calls : Nat) (rest : List Char)
    (hcalls : 2 * (renderMembers (spelled members)).length < calls) :
    readMembers calls (renderMembers (spelled members) ++ '\x7d' :: rest) =
      some (spelled members, rest) := by
  induction members generalizing calls with
  | nil => exact absurd rfl hne
  | cons m ms ih =>
    obtain ⟨name, x⟩ := m
    obtain ⟨calls, rfl⟩ : ∃ k, calls = k + 1 := Nat.exists_eq_succ_of_ne_zero (by omega)
    have hx : ReadsBack x := h (name, x) List.mem_cons_self
    have hspelled : spelled ((name, x) :: ms) = (escape name.toList, x) :: spelled ms := rfl
    have hquote (s : List Char) : skipBlanks ('"' :: s) = '"' :: s := rfl
    have hcolon (s : List Char) : skipBlanks (':' :: s) = ':' :: s := rfl
    rw [hspelled] at hcalls ⊢
    rw [Value.renderMembers_cons, readMembers, hquote]
    simp only [scanString_escape, hcolon, Option.bind_eq_bind, Option.bind_some]
    cases ms with
    | nil =>
      have hlength : (renderMembers [(escape name.toList, x)]).length =
          (escape name.toList).length + x.render.length + 3 := by
        simp [renderMembers, quote]
        omega
      have hread := hx calls ('\x7d' :: rest) (by simp [spelled] at hcalls; omega)
        (stops_cons (by simp) rest)
      simp only [spelled, List.map_nil, hread]
      rfl
    | cons m' ms =>
      have hlength : (renderMembers ((escape name.toList, x) :: spelled (m' :: ms))).length =
          (escape name.toList).length + x.render.length + 4 +
            (renderMembers (spelled (m' :: ms))).length := by
        simp [spelled, renderMembers, quote]
        omega
      have hread := hx calls (',' :: (renderMembers (spelled (m' :: ms)) ++ '\x7d' :: rest))
        (by omega) (stops_cons (by simp) _)
      have hrest := ih (List.cons_ne_nil m' ms) (fun j hj => h j (List.mem_cons_of_mem _ hj))
        calls (by omega)
      have hskip : skipBlanks (',' :: (renderMembers (spelled (m' :: ms)) ++ '\x7d' :: rest)) =
        ',' :: (renderMembers (spelled (m' :: ms)) ++ '\x7d' :: rest) := rfl
      have hcons : spelled (m' :: ms) = (escape m'.1.toList, m'.2) :: spelled ms := rfl
      rw [hcons] at hread hrest hskip ⊢
      simp only [hread, hskip, hrest, Option.bind_some]
      rfl

theorem readsBack_ofMembers {members : List (String × Json)}
    (h : ∀ m ∈ members, ReadsBack m.2) : ReadsBack (.ofMembers members) := by
  refine readsBack_of_call (by simp [ofMembers, render]) fun calls rest hcalls _ => ?_
  have hlength : (render (.ofMembers members)).length =
      (renderMembers (spelled members)).length + 2 := by simp [ofMembers, spelled, render]
  have htext : render (.ofMembers members) ++ rest =
      '\x7b' :: (renderMembers (spelled members) ++ '\x7d' :: rest) := by
    simp [ofMembers, spelled, render]
  rw [htext]
  cases members with
  | nil => rfl
  | cons m ms =>
    have hread := readMembers_render (List.cons_ne_nil m ms) h calls rest (by omega)
    have hbegins : ∃ t, renderMembers (spelled (m :: ms)) ++ '\x7d' :: rest = '"' :: t :=
      ⟨_, Value.renderMembers_cons ..⟩
    obtain ⟨t, ht⟩ := hbegins
    have hskip : skipBlanks ('\x7b' :: '"' :: t) = '\x7b' :: '"' :: t := rfl
    have hinner : skipBlanks ('"' :: t) = '"' :: t := rfl
    rw [ht] at hread ⊢
    rw [readValue, hskip]
    simp only [hinner, hread]
    rfl

/-! ## Whole texts -/

/-- **A written tree is read where it stands, and no further.** -/
theorem readsBack_of_written {j : Json} (h : j.Written) : ReadsBack j := by
  induction h with
  | null => exact readsBack_of_call (by decide) fun _ _ _ _ => rfl
  | bool b => cases b <;> exact readsBack_of_call (by decide) fun _ _ _ _ => rfl
  | int i => exact readsBack_int i
  | ofText s => exact readsBack_ofText s
  | arr hwritten ih => exact readsBack_arr hwritten ih
  | ofMembers _ ih => exact readsBack_ofMembers ih

/-- The text of a written tree is read as the tree. -/
theorem parse?_text {j : Json} (h : j.Written) : parse? j.text = some j := by
  have hlength : j.text.length = j.render.length := String.length_ofList
  have htext : j.text.toList = j.render ++ [] := by rw [text, String.toList_ofList, List.append_nil]
  have hread := readsBack_of_written h (2 * j.render.length + 2) [] (by omega) stops_nil
  rw [parse?, hlength, htext, hread]
  rfl

end QueryPlan.Json
