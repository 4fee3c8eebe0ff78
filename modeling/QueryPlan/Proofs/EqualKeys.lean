import QueryPlan.Proofs.GroupRows

/-!
# Equal keys

Grouping tells values apart by their text, `=` and `IN` by `Value.equals`.  The two differ on
numbers only: the integer 2 and the float 2.0 are equal and have different texts, and so are the two
zeros, and large integers that share a nearest float (`Value.eq_iff_spelledAlike`).  So rows with
equal keys go into one row unless a number among their keys is spelled in two ways
(`groupAndFold_placed`), and then they do not (`not_groupsByEquality`).  The same goes for the
arguments that a distinct call takes in a group.
-/

set_option autoImplicit false

namespace QueryPlan

/-! ## Equal values -/

/-- Two values are not two numbers, or are one number spelled in one way. -/
def Value.SpelledAlike (v w : Value) : Prop := ∀ m n, v = .num m → w = .num n → m = n

/-- Equal values are the same, up to the spelling of numbers. -/
theorem Value.eq_iff_spelledAlike {v w : Value} (h : v.equals w = true) :
    v = w ↔ v.SpelledAlike w := by
  constructor
  · rintro rfl m n rfl hn
    exact Value.num.inj hn
  · intro halike
    cases v with
    | null => cases w <;> first | rfl | cases h
    | bool p =>
      cases w with
      | bool q => rw [eq_of_beq (show (p == q) = true from h)]
      | _ => cases h
    | num m =>
      cases w with
      | num n => rw [halike m n rfl rfl]
      | _ => cases h
    | str s =>
      cases w with
      | str t => rw [eq_of_beq (show (s == t) = true from h)]
      | _ => cases h
    | arr items => cases w <;> cases h
    | obj members => cases w <;> cases h

/-- Tuples of pairwise equal values. -/
def TupleEquals (t u : List Value) : Prop := List.Forall₂ (fun v w => v.equals w = true) t u

/-- Tuples in which no number is spelled in two ways. -/
def TupleSpelledAlike (t u : List Value) : Prop := List.Forall₂ Value.SpelledAlike t u

theorem TupleEquals.eq_iff {t u : List Value} (h : TupleEquals t u) :
    t = u ↔ TupleSpelledAlike t u := by
  induction h with
  | nil => exact ⟨fun _ => .nil, fun _ => rfl⟩
  | cons hvw htu ih =>
    rw [List.cons.injEq, TupleSpelledAlike, List.forall₂_cons, Value.eq_iff_spelledAlike hvw, ih]
    rfl

/-! ## Where rows go -/

/-- A row is made of the rows of a group, of which `r` is one: it holds the key of `r` and the value
of each call over the group. -/
def MadeOf (keys : List Expr) (ns : List NamedCall) (group : List Row) (r out : Row) : Prop :=
  ∃ vs, List.Forall₂ (fun n v => n.call.valueOn group = .ok v) ns vs ∧
    out = groupRow ((keys.filterMap Expr.output?).map Column.rowKey) ns (keyOn keys r) vs

/-- The rows that go to the same place as `r`. -/
def rowsAt (rows : List Row) (place : Row → Nat) (r : Row) : List Row :=
  rows.filter fun s => place s = place r

/-- Each row contributes to the output row at its place, which is made of the rows that go there. -/
def Places (rows : List Row) (keys : List Expr) (ns : List NamedCall) (out : List Row)
    (place : Row → Nat) : Prop :=
  ∀ r ∈ rows, ∃ o, out[place r]? = some o ∧ MadeOf keys ns (rowsAt rows place r) r o

section Placed

variable {rows out : List Row} {keys : List Expr} {ns : List NamedCall}

/-- The place of a row: that of its key among the keys of the groups. -/
def placeOf (keys : List Expr) (rows : List Row) (r : Row) : Nat :=
  (groupKeys keys rows).idxOf (keyOn keys r)

theorem placeOf_eq_iff {r s : Row} (hr : r ∈ rows) :
    placeOf keys rows r = placeOf keys rows s ↔ keyOn keys r = keyOn keys s :=
  List.idxOf_inj (keyOn_mem_groupKeys keys hr)

theorem rowsAt_placeOf (r : Row) :
    rowsAt rows (placeOf keys rows) r = rowsWith keys rows (keyOn keys r) := by
  refine List.filter_congr fun s hs => ?_
  rw [decide_eq_decide, placeOf_eq_iff hs]

theorem places_placeOf (hkeys : ∀ e ∈ keys, e.output?.isSome)
    (h : groupAndFold rows keys (ns.map NamedCall.expr) = .ok out) :
    Places rows keys ns out (placeOf keys rows) := by
  intro r hr
  obtain ⟨o, ho, hrow⟩ := exists_getElem?_of_forall₂ ((groupAndFold_eq_ok_iff hkeys ns).mp h)
    (List.getElem?_idxOf (keyOn_mem_groupKeys keys hr))
  obtain ⟨vs, hvs, rfl⟩ := hrow
  rw [← rowsAt_placeOf r] at hvs
  exact ⟨_, ho, vs, hvs, rfl⟩

end Placed

/-- The tuples that a distinct call takes are distinct. -/
theorem AggregateCall.pairwise_tuples {c : AggregateCall} (hc : c.distinct = true)
    (rows : List Row) : (c.tuples rows).Pairwise (· ≠ ·) := by
  rw [tuples, if_pos hc]
  exact nodup_eraseDups _

/-- **Rows with equal keys go into one row unless a number among them is spelled in two ways.**
Rows go where rows with the same key values go, and so rows with equal ones do exactly if no number
is spelled in two ways.  Of the argument tuples that a distinct call takes from the rows at one
place, two are equal only if a number is spelled in two ways. -/
theorem groupAndFold_placed {rows out : List Row} {keys aggregates : List Expr}
    (h : groupAndFold rows keys aggregates = .ok out) :
    ∃ ns place, aggregates = ns.map NamedCall.expr ∧ Places rows keys ns out place ∧
      (∀ r ∈ rows, ∀ s ∈ rows, place r = place s ↔ keyOn keys r = keyOn keys s) ∧
      (∀ r ∈ rows, ∀ s ∈ rows, TupleEquals (keyOn keys r) (keyOn keys s) →
        (place r = place s ↔ TupleSpelledAlike (keyOn keys r) (keyOn keys s))) ∧
      ∀ n ∈ ns, n.call.distinct = true → ∀ r ∈ rows,
        (n.call.tuples (rowsAt rows place r)).Pairwise fun t u =>
          TupleEquals t u → ¬TupleSpelledAlike t u := by
  obtain ⟨hnamed, hkeys⟩ := named_of_groupAndFold h
  obtain ⟨ns, rfl⟩ := NamedCall.exists_of_isNamedAggregate hnamed
  refine ⟨ns, placeOf keys rows, rfl, places_placeOf hkeys h, fun r hr s _ => placeOf_eq_iff hr,
    fun r hr s _ heq => (placeOf_eq_iff hr).trans heq.eq_iff, fun n _ hdistinct r _ => ?_⟩
  refine (AggregateCall.pairwise_tuples hdistinct _).imp fun hne heq halike => ?_
  exact hne (heq.eq_iff.mpr halike)

/-- What it would be to group by equality: all rows with equal keys contribute to one output row,
and no two of the argument tuples that a distinct call takes from the rows at one place are
equal. -/
def GroupsByEquality : Prop :=
  ∀ (rows out : List Row) (keys : List Expr) (ns : List NamedCall),
    groupAndFold rows keys (ns.map NamedCall.expr) = .ok out →
    ∃ place, Places rows keys ns out place ∧
      (∀ r ∈ rows, ∀ s ∈ rows, TupleEquals (keyOn keys r) (keyOn keys s) → place r = place s) ∧
      ∀ n ∈ ns, n.call.distinct = true → ∀ r ∈ rows,
        (n.call.tuples (rowsAt rows place r)).Pairwise fun t u => ¬TupleEquals t u

/-! ## One key in two spellings -/

/-- Rows with the integer 2 and the float 2.0. -/
def twoInt : Row := .ofCells [("k#1", .int 2)]

@[inherit_doc twoInt]
def twoFloat : Row := .ofCells [("k#1", .num (.float (Float.ofBits 0x4000000000000000) rfl))]

/-- The number of rows. -/
def countRows : NamedCall := ⟨⟨.count, [], false⟩, .plain 2 "n"⟩

/-- What comes out when both are counted by their value. -/
def twoCounted : List Row :=
  [.ofCells [("k#1", .int 2), ("n#2", .int 1)],
    .ofCells [("k#1", .num (.float (Float.ofBits 0x4000000000000000) rfl)), ("n#2", .int 1)]]

section Two

/-- The key by which they are counted. -/
def byValue : List Expr := [.col (.plain 1 "k")]

theorem keyOn_twoInt_ne : keyOn byValue twoInt ≠ keyOn byValue twoFloat := by
  intro h
  have hnum : Number.int 2 = .float (Float.ofBits 0x4000000000000000) rfl :=
    Value.num.inj (List.head_eq_of_cons_eq h)
  cases hnum

theorem tupleEquals_two : TupleEquals (keyOn byValue twoInt) (keyOn byValue twoFloat) :=
  .cons rfl .nil

theorem groupAndFold_two :
    groupAndFold [twoInt, twoFloat] byValue [countRows.expr] = .ok twoCounted := by
  have hne := keyOn_twoInt_ne
  have hkeys : groupKeys byValue [twoInt, twoFloat]
      = [keyOn byValue twoInt, keyOn byValue twoFloat] := by
    rw [groupKeys_eq_eraseDups (.inr (List.cons_ne_nil _ _))]
    exact eraseDups_of_nodup (by simpa using hne)
  have hint : rowsWith byValue [twoInt, twoFloat] (keyOn byValue twoInt) = [twoInt] := by
    simp [rowsWith, hne.symm]
  have hfloat : rowsWith byValue [twoInt, twoFloat] (keyOn byValue twoFloat) = [twoFloat] := by
    simp [rowsWith, hne]
  refine (groupAndFold_eq_ok_iff (by simp [byValue, Expr.output?]) [countRows]).mpr ?_
  rw [hkeys]
  refine .cons ⟨[.int 1], .cons ?_ .nil, rfl⟩ (.cons ⟨[.int 1], .cons ?_ .nil, rfl⟩ .nil)
  · rw [hint]
    rfl
  · rw [hfloat]
    rfl

/-- **Grouping does not agree with equality.**  Rows with the integer 2 and with the float 2.0 have
equal keys, and yet no placement of both in one row makes the rows that come out. -/
theorem not_groupsByEquality : ¬GroupsByEquality := by
  intro h
  obtain ⟨place, hplaces, hequal, -⟩ := h _ _ _ [countRows] groupAndFold_two
  have hsame : place twoInt = place twoFloat :=
    hequal twoInt (by simp) twoFloat (by simp) tupleEquals_two
  have hrows : rowsAt [twoInt, twoFloat] place twoInt = [twoInt, twoFloat] := by
    simp [rowsAt, hsame]
  obtain ⟨o, ho, vs, hvs, rfl⟩ := hplaces twoInt (by simp)
  rw [hrows] at hvs
  -- two rows at one place count 2, and no row that comes out has this count
  obtain ⟨v, _, hv, hnil, rfl⟩ := List.forall₂_cons_left_iff.mp hvs
  obtain rfl := List.forall₂_nil_left_iff.mp hnil
  obtain rfl : Value.int 2 = v := Except.ok.inj hv
  have hcounts : ∀ o ∈ twoCounted, o.cell "n#2" = .int 1 := by
    simp [twoCounted]
    exact ⟨rfl, rfl⟩
  have hcount := hcounts _ (List.mem_of_getElem? ho)
  have hnum : Number.int 2 = .int 1 := Value.num.inj hcount
  cases hnum

theorem groupAndFold_placed_two : ∃ place : Row → Nat, place twoInt ≠ place twoFloat ∧
    ∀ r ∈ [twoInt, twoFloat], twoCounted[place r]?.isSome := by
  obtain ⟨ns, place, -, hplaces, hkeys, -⟩ := groupAndFold_placed groupAndFold_two
  refine ⟨place, fun hsame => ?_, fun r hr => ?_⟩
  · exact keyOn_twoInt_ne ((hkeys twoInt (by simp) twoFloat (by simp)).mp hsame)
  · obtain ⟨o, ho, -⟩ := hplaces r hr
    rw [ho, Option.isSome_some]

end Two

end QueryPlan
