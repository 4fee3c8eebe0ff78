import QueryPlan.Aggregate.Rows
import QueryPlan.Proofs.Lists
import QueryPlan.Proofs.Projection
import QueryPlan.Proofs.TupleText

/-!
# What grouping computes

`groupAndFold` goes through its rows once and keeps the state of every call in every group.  What
comes out is said here without that state: there is one row for each key among the rows, in the
order of first appearance, and it holds the value of each call over the rows with that key
(`groupAndFold_eq_ok_iff`).

* **One call.**  `AggregateCall.valueOn` is the value of a call over rows: its argument tuples, each
  once if the call is a distinct one, folded by its function.  A call that is fed rows one by one
  keeps this up (`foldlM_feed`); a distinct call knows by their texts which tuples it has met, and
  texts of tuples are told apart (`tupleText_mem_metOn`).
* **One group.**  `Group.IsOf` says that a group is that of some rows: each of its calls has folded
  them.  Feeding it a row makes it the group of one row more (`isOf_concat_iff`).
* **All groups.**  `AreGroups` says that groups are those of some rows, one for each key in the
  order in which the keys appear.  It is the invariant of going through the rows.  A row with an old
  key goes to the group with that key (`areGroups_concat_of_mem`), and a row with a new one begins a
  group at the end (`areGroups_concat_of_notMem`); so it holds after all of them
  (`groupRows_eq_ok_iff`).
* **The rows for the groups.**  Without keys there is one group come what may, which has to be added
  if there are no rows (`areGroups_groupKeys`).  The row of a group has the cells of its key and of
  its calls (`IsGroupRow`).

Every step is stated as an equivalence with success, so the theorem also says when grouping fails.
Rows and calls enter only through the values of the keys and of the arguments, so runs in which
these values agree have one outcome, whether it is rows or a failure (`groupAndFold_congr`).
-/

set_option autoImplicit false

namespace QueryPlan

/-! ## One call over rows -/

namespace AggregateCall

/-- The arguments of a call on a row. -/
def argsOn (c : AggregateCall) (row : Row) : List Value := c.args.map (Expr.eval row)

/-- The argument tuples that a call takes from rows; a distinct call takes each once. -/
def tuples (c : AggregateCall) (rows : List Row) : List (List Value) :=
  if c.distinct then (rows.map c.argsOn).eraseDups else rows.map c.argsOn

/-- The state of a call after some rows. -/
def stateOn (c : AggregateCall) (rows : List Row) : Except PlanError Accumulator :=
  (c.tuples rows).foldlM Accumulator.update (.fresh c.func)

/-- The value of a call over rows. -/
def valueOn (c : AggregateCall) (rows : List Row) : Except PlanError Value :=
  (c.stateOn rows).map Accumulator.result

/-- What a distinct call has met after some rows. -/
def metOn (c : AggregateCall) (rows : List Row) : List String :=
  if c.distinct then (c.tuples rows).reverse.map Value.tupleText else []

theorem tuples_concat (c : AggregateCall) (rows : List Row) (row : Row) :
    c.tuples (rows ++ [row]) =
      if c.distinct ∧ c.argsOn row ∈ rows.map c.argsOn then c.tuples rows
      else c.tuples rows ++ [c.argsOn row] := by
  rw [tuples, tuples, List.map_append, List.map_singleton]
  cases c.distinct
  · simp
  · simp only [if_true, true_and]
    exact eraseDups_concat ..

theorem tupleText_mem_metOn {c : AggregateCall} (h : c.distinct = true) (rows : List Row)
    (row : Row) :
    Value.tupleText (c.argsOn row) ∈ c.metOn rows ↔ c.argsOn row ∈ rows.map c.argsOn := by
  rw [metOn, if_pos h, List.mem_map, tuples, if_pos h]
  constructor
  · rintro ⟨vs, hvs, htext⟩
    rw [List.mem_reverse, List.mem_eraseDups] at hvs
    exact Value.tupleText_inj htext ▸ hvs
  · intro hm
    exact ⟨_, List.mem_reverse.mpr (List.mem_eraseDups.mpr hm), rfl⟩

end AggregateCall

namespace CallState

/-- What one more row does to a call. -/
theorem feed_metOn (c : AggregateCall) (rows : List Row) (row : Row) (state : Accumulator) :
    feed ⟨c, state, c.metOn rows⟩ row =
      if c.distinct ∧ c.argsOn row ∈ rows.map c.argsOn then
        .ok ⟨c, state, c.metOn (rows ++ [row])⟩
      else (state.update (c.argsOn row)).map fun state =>
        ⟨c, state, c.metOn (rows ++ [row])⟩ := by
  have hmet : c.metOn (rows ++ [row]) =
      if c.distinct then
        if c.argsOn row ∈ rows.map c.argsOn then c.metOn rows
        else Value.tupleText (c.argsOn row) :: c.metOn rows
      else [] := by
    rw [AggregateCall.metOn, AggregateCall.metOn, AggregateCall.tuples_concat]
    cases c.distinct
    · rfl
    · simp only [if_true, true_and]
      split <;> simp
  rw [feed, ← AggregateCall.argsOn, hmet]
  cases hd : c.distinct with
  | false =>
    have hnone : c.metOn rows = [] := by simp [AggregateCall.metOn, hd]
    simp only [Bool.false_eq_true, if_false, false_and, hnone]
    cases state.update (c.argsOn row) <;> rfl
  | true =>
    simp only [if_true, true_and, AggregateCall.tupleText_mem_metOn hd]
    split
    · rfl
    · cases state.update (c.argsOn row) <;> rfl

/-- **A call that is fed rows one by one has folded its argument tuples.** -/
theorem foldlM_feed (c : AggregateCall) (rows : List Row) :
    rows.foldlM feed (fresh c) =
      (c.stateOn rows).map fun state => ⟨c, state, c.metOn rows⟩ := by
  induction rows using List.reverseRecOn with
  | nil =>
    have htuples : c.tuples [] = [] := by simp [AggregateCall.tuples]
    have hmet : c.metOn [] = [] := by simp [AggregateCall.metOn, htuples]
    rw [AggregateCall.stateOn, htuples, hmet]
    rfl
  | append_singleton rows row ih =>
    rw [List.foldlM_append, ih, AggregateCall.stateOn, AggregateCall.stateOn,
      AggregateCall.tuples_concat]
    cases hstate : (c.tuples rows).foldlM Accumulator.update (.fresh c.func) with
    | error e =>
      split
      · rw [hstate]; rfl
      · rw [List.foldlM_append, hstate]; rfl
    | ok state =>
      show ([row].foldlM feed ⟨c, state, c.metOn rows⟩) = _
      rw [List.foldlM_cons, feed_metOn]
      split
      · rw [hstate]; rfl
      · rw [List.foldlM_append, hstate]
        show _ = Except.map _ ([c.argsOn row].foldlM Accumulator.update state)
        rw [List.foldlM_cons]
        cases state.update (c.argsOn row) <;> rfl

end CallState

/-! ## Groups of rows -/

/-- The values of the keys on a row. -/
def keyOn (keys : List Expr) (row : Row) : List Value := keys.map (Expr.eval row)

/-- The rows with a key. -/
def rowsWith (keys : List Expr) (rows : List Row) (key : List Value) : List Row :=
  rows.filter fun row => keyOn keys row = key

namespace Group

/-- A group is that of some rows with a key: every call has folded these rows. -/
structure IsOf (calls : List AggregateCall) (key : List Value) (rows : List Row) (g : Group) :
    Prop where
  key : g.key = key
  calls : List.Forall₂ (fun c s => rows.foldlM CallState.feed (.fresh c) = .ok s) calls g.calls

theorem feed_eq_ok_iff {g g' : Group} {row : Row} : g.feed row = .ok g' ↔
    g'.key = g.key ∧ List.Forall₂ (fun s s' => s.feed row = .ok s') g.calls g'.calls := by
  obtain ⟨key', calls'⟩ := g'
  simp only [feed, bind_eq_ok_iff, pure_eq_ok_iff, mapM_eq_ok_iff, Group.mk.injEq]
  constructor
  · rintro ⟨calls, hcalls, hkey, rfl⟩
    exact ⟨hkey.symm, hcalls⟩
  · rintro ⟨hkey, hcalls⟩
    exact ⟨calls', hcalls, hkey.symm, rfl⟩

theorem isOf_fresh (calls : List AggregateCall) (key : List Value) :
    IsOf calls key [] (fresh calls key) :=
  ⟨rfl, List.forall₂_map_right_iff.mpr (List.forall₂_same.mpr fun _ _ => rfl)⟩

theorem eq_fresh {calls : List AggregateCall} {key : List Value} {g : Group}
    (h : IsOf calls key [] g) : g = fresh calls key := by
  obtain ⟨key', states⟩ := g
  obtain ⟨rfl, hcalls⟩ := h
  have hunique : Relator.RightUnique fun (c : AggregateCall) (s : CallState) =>
      ([] : List Row).foldlM CallState.feed (.fresh c) = Except.ok (ε := PlanError) s :=
    fun _ _ _ hs ht => Except.ok.inj (hs.symm.trans ht)
  exact congrArg (Group.mk key')
    (List.right_unique_forall₂' hunique hcalls (isOf_fresh calls key').calls)

/-- A group is that of some rows and one more, when it comes from that of the rows by feeding it
the one. -/
theorem isOf_concat_iff {calls : List AggregateCall} {key : List Value} {rows : List Row}
    {row : Row} {g' : Group} : IsOf calls key (rows ++ [row]) g' ↔
      ∃ g, IsOf calls key rows g ∧ g.feed row = .ok g' := by
  have hstep (c : AggregateCall) (s' : CallState) :
      (rows ++ [row]).foldlM CallState.feed (.fresh c) = .ok s' ↔
        ∃ s, rows.foldlM CallState.feed (.fresh c) = .ok s ∧ s.feed row = .ok s' := by
    simp only [List.foldlM_append, List.foldlM_cons, List.foldlM_nil, bind_pure, bind_eq_ok_iff]
  constructor
  · rintro ⟨hkey, hcalls⟩
    obtain ⟨states, hstates, hfeed⟩ :=
      forall₂_comp_iff.mpr (hcalls.imp fun c s' h => (hstep c s').mp h)
    exact ⟨⟨key, states⟩, ⟨rfl, hstates⟩, feed_eq_ok_iff.mpr ⟨hkey, hfeed⟩⟩
  · rintro ⟨g, ⟨hkey, hcalls⟩, hfeed⟩
    obtain ⟨hkey', hfeed⟩ := feed_eq_ok_iff.mp hfeed
    exact ⟨hkey'.trans hkey,
      (forall₂_comp_iff.mp ⟨_, hcalls, hfeed⟩).imp fun c s' h => (hstep c s').mpr h⟩

end Group

/-- Feeding a row to groups: the group with its key takes it, or a new one does. -/
theorem feedGroups_eq_ok_iff {calls : List AggregateCall} {key : List Value} {row : Row}
    {gs gs' : List Group} (hkeys : (gs.map Group.key).Nodup) :
    feedGroups calls key row gs = .ok gs' ↔
      (key ∈ gs.map Group.key ∧
        List.Forall₂ (fun g g' => if g.key = key then g.feed row = .ok g' else g' = g) gs gs') ∨
      (key ∉ gs.map Group.key ∧
        ∃ g', (Group.fresh calls key).feed row = .ok g' ∧ gs' = gs ++ [g']) := by
  induction gs generalizing gs' with
  | nil =>
    rw [feedGroups]
    cases (Group.fresh calls key).feed row <;>
      simp [bind, Except.bind, pure, Except.pure, eq_comm]
  | cons g gs ih =>
    rw [List.map_cons, List.nodup_cons] at hkeys
    rw [feedGroups, Group.text]
    simp only [Value.tupleText_eq_iff]
    by_cases hg : g.key = key
    · subst hg
      -- no other group has this key, so the others stay
      have hrest : ∀ gs'', List.Forall₂
          (fun h h' => if h.key = g.key then h.feed row = .ok h' else h' = h) gs gs'' ↔
            gs'' = gs := by
        intro gs''
        refine forall₂_iff_eq fun h hh h' => ?_
        rw [if_neg fun heq : h.key = g.key => hkeys.1 (heq ▸ List.mem_map_of_mem hh)]
      simp only [if_true, bind_eq_ok_iff, pure_eq_ok_iff, List.map_cons, List.mem_cons, true_or,
        true_and, not_true_eq_false, false_and, or_false, List.forall₂_cons_left_iff, hrest]
      constructor
      · rintro ⟨g', hg', rfl⟩
        exact ⟨g', gs, hg', rfl, rfl⟩
      · rintro ⟨g', _, hg', rfl, rfl⟩
        exact ⟨g', hg', rfl⟩
    · simp only [hg, if_false, bind_eq_ok_iff, pure_eq_ok_iff, List.map_cons, List.mem_cons,
        Ne.symm hg, false_or, List.forall₂_cons_left_iff, ih hkeys.2]
      constructor
      · rintro ⟨gs'', ⟨hmem, hgs⟩ | ⟨hmem, g', hg', rfl⟩, rfl⟩
        · exact .inl ⟨hmem, g, gs'', rfl, hgs, rfl⟩
        · exact .inr ⟨hmem, g', hg', rfl⟩
      · rintro (⟨hmem, _, gs'', rfl, hgs, rfl⟩ | ⟨hmem, g', hg', rfl⟩)
        · exact ⟨gs'', .inl ⟨hmem, hgs⟩, rfl⟩
        · exact ⟨gs ++ [g'], .inr ⟨hmem, g', hg', rfl⟩, rfl⟩

theorem rowsWith_concat (keys : List Expr) (rows : List Row) (row : Row) (key : List Value) :
    rowsWith keys (rows ++ [row]) key =
      if keyOn keys row = key then rowsWith keys rows key ++ [row] else rowsWith keys rows key := by
  rw [rowsWith, List.filter_append]
  split <;> simp_all [rowsWith]

/-- The groups of rows: one for each key, in the order in which the keys appear. -/
def AreGroups (keys : List Expr) (calls : List AggregateCall) (rows : List Row)
    (gs : List Group) : Prop :=
  List.Forall₂ (fun key g => Group.IsOf calls key (rowsWith keys rows key) g)
    (rows.map (keyOn keys)).eraseDups gs

section Step

variable {keys : List Expr} {calls : List AggregateCall} {rows : List Row} {row : Row}
  {gs gs' : List Group}

theorem AreGroups.keys_eq (h : AreGroups keys calls rows gs) :
    gs.map Group.key = (rows.map (keyOn keys)).eraseDups := by
  rw [← forall₂_iff_eq (R := fun a b => b = a) fun _ _ _ => Iff.rfl, List.forall₂_map_right_iff]
  exact h.imp fun _ _ hg => hg.key

theorem AreGroups.keys_nodup (h : AreGroups keys calls rows gs) : (gs.map Group.key).Nodup :=
  h.keys_eq ▸ nodup_eraseDups _

/-- A row with an old key goes to the group with that key. -/
theorem areGroups_concat_of_mem (hmem : keyOn keys row ∈ rows.map (keyOn keys)) :
    AreGroups keys calls (rows ++ [row]) gs' ↔
      ∃ gs, AreGroups keys calls rows gs ∧ feedGroups calls (keyOn keys row) row gs = .ok gs' := by
  have hfeed : (∃ gs, AreGroups keys calls rows gs ∧
      feedGroups calls (keyOn keys row) row gs = .ok gs') ↔ ∃ gs, AreGroups keys calls rows gs ∧
      List.Forall₂ (fun g g' => if g.key = keyOn keys row then g.feed row = .ok g' else g' = g)
        gs gs' := by
    refine exists_congr fun gs => and_congr_right fun h => ?_
    rw [feedGroups_eq_ok_iff h.keys_nodup, h.keys_eq]
    simp [hmem]
  rw [hfeed, AreGroups, List.map_append, List.map_singleton, eraseDups_concat, if_pos hmem]
  simp only [AreGroups, forall₂_comp_iff]
  refine forall₂_congr_of_mem fun key _ g' => ?_
  rw [rowsWith_concat]
  split
  · next hkey =>
    rw [Group.isOf_concat_iff]
    refine exists_congr fun g => and_congr_right fun hg => ?_
    rw [if_pos (hg.key.trans hkey.symm)]
  · next hkey =>
    constructor
    · intro hg
      exact ⟨g', hg, by rw [if_neg fun h => hkey (h.symm.trans hg.key)]⟩
    · rintro ⟨g, hg, hgg'⟩
      rw [if_neg fun h => hkey (h.symm.trans hg.key)] at hgg'
      exact hgg' ▸ hg

/-- A row with a new key begins a group. -/
theorem areGroups_concat_of_notMem (hmem : keyOn keys row ∉ rows.map (keyOn keys)) :
    AreGroups keys calls (rows ++ [row]) gs' ↔
      ∃ gs, AreGroups keys calls rows gs ∧ feedGroups calls (keyOn keys row) row gs = .ok gs' := by
  have hfeed : (∃ gs, AreGroups keys calls rows gs ∧
      feedGroups calls (keyOn keys row) row gs = .ok gs') ↔ ∃ gs g', AreGroups keys calls rows gs ∧
      (Group.fresh calls (keyOn keys row)).feed row = .ok g' ∧ gs' = gs ++ [g'] := by
    refine exists_congr fun gs => ?_
    rw [exists_and_left]
    refine and_congr_right fun h => ?_
    rw [feedGroups_eq_ok_iff h.keys_nodup, h.keys_eq]
    simp [hmem]
  have hnone : rowsWith keys rows (keyOn keys row) = [] := by
    refine List.filter_eq_nil_iff.mpr fun r hr => ?_
    simpa using fun h => hmem (List.mem_map.mpr ⟨r, hr, h⟩)
  have hold (gs : List Group) : List.Forall₂ (fun key g => Group.IsOf calls key
      (rowsWith keys (rows ++ [row]) key) g) (rows.map (keyOn keys)).eraseDups gs ↔
      AreGroups keys calls rows gs := by
    refine forall₂_congr_of_mem fun key hkey g => ?_
    rw [rowsWith_concat, if_neg fun h : keyOn keys row = key =>
      hmem (h ▸ List.mem_eraseDups.mp hkey)]
  rw [hfeed, AreGroups, List.map_append, List.map_singleton, eraseDups_concat, if_neg hmem,
    forall₂_concat_iff]
  refine exists_congr fun gs => exists_congr fun g' => ?_
  rw [hold, rowsWith_concat, if_pos rfl, hnone, Group.isOf_concat_iff]
  refine and_congr_right fun _ => and_congr_left fun _ => ?_
  constructor
  · rintro ⟨g, hg, h⟩
    exact Group.eq_fresh hg ▸ h
  · intro h
    exact ⟨_, Group.isOf_fresh calls _, h⟩

end Step

/-- **Grouping gives the groups of the rows, or fails when there are none.** -/
theorem groupRows_eq_ok_iff {keys : List Expr} {calls : List AggregateCall} {rows : List Row}
    {gs : List Group} : groupRows keys calls rows = .ok gs ↔ AreGroups keys calls rows gs := by
  induction rows using List.reverseRecOn generalizing gs with
  | nil =>
    show Except.ok [] = Except.ok gs ↔ List.Forall₂ _ [] gs
    rw [List.forall₂_nil_left_iff, Except.ok.injEq, eq_comm]
  | append_singleton rows row ih =>
    have hrun : groupRows keys calls (rows ++ [row]) = .ok gs ↔
        ∃ gs₀, AreGroups keys calls rows gs₀ ∧
          feedGroups calls (keyOn keys row) row gs₀ = .ok gs := by
      simp only [← ih, groupRows, List.foldlM_append, List.foldlM_cons, List.foldlM_nil, bind_pure,
        bind_eq_ok_iff]
      rfl
    rw [hrun]
    by_cases hmem : keyOn keys row ∈ rows.map (keyOn keys)
    · exact (areGroups_concat_of_mem hmem).symm
    · exact (areGroups_concat_of_notMem hmem).symm

/-! ## The rows for the groups -/

/-- An aggregate call under a name. -/
structure NamedCall where
  call : AggregateCall
  output : Column

namespace NamedCall

/-- The call as an expression. -/
def expr (n : NamedCall) : Expr := .named n.call.expr n.output

theorem mapM_aggregateCall (ns : List NamedCall) :
    (ns.map expr).mapM Expr.aggregateCall = .ok (ns.map call) := by
  induction ns with
  | nil => rfl
  | cons n ns ih => rw [List.map_cons, List.mapM_cons, ih]; rfl

theorem mapM_outputKey (ns : List NamedCall) :
    (ns.map expr).mapM Expr.outputKey = .ok (ns.map fun n => n.output.rowKey) := by
  induction ns with
  | nil => rfl
  | cons n ns ih => rw [List.map_cons, List.mapM_cons, ih]; rfl

/-- What the arguments of a call read, the call reads. -/
theorem mem_columns_of_mem_args {n : NamedCall} {a : Expr} (ha : a ∈ n.call.args) {c : Column}
    (hc : c ∈ a.columns) : c ∈ n.expr.columns :=
  Expr.mem_columns_named.mpr (Expr.mem_columns_of_mem_children (e := n.call.expr) ha hc)

/-- Named aggregates are calls under names. -/
theorem exists_of_isNamedAggregate {aggregates : List Expr}
    (h : ∀ e ∈ aggregates, (e.aggregateCall?.isSome && e.output?.isSome) = true) :
    ∃ ns : List NamedCall, aggregates = ns.map expr := by
  induction aggregates with
  | nil => exact ⟨[], rfl⟩
  | cons e rest ih =>
    obtain ⟨ns, rfl⟩ := ih fun x hx => h x (List.mem_cons_of_mem _ hx)
    have he := h e List.mem_cons_self
    cases e with
    | named operand output =>
      cases operand with
      | aggregate func args distinct => exact ⟨⟨⟨func, args, distinct⟩, output⟩ :: ns, rfl⟩
      | _ => simp [Expr.aggregateCall?, Expr.unalias] at he
    | _ => simp [Expr.aggregateCall?, Expr.unalias, Expr.output?] at he

end NamedCall

/-- The keys of the groups of rows.  Without key expressions there is one group, come what may. -/
def groupKeys (keys : List Expr) (rows : List Row) : List (List Value) :=
  if keys.isEmpty then [[]] else (rows.map (keyOn keys)).eraseDups

/-- Where there are keys or rows, every group has rows. -/
theorem groupKeys_eq_eraseDups {keys : List Expr} {rows : List Row} (h : keys ≠ [] ∨ rows ≠ []) :
    groupKeys keys rows = (rows.map (keyOn keys)).eraseDups := by
  cases keys with
  | cons e keys => rfl
  | nil =>
    obtain ⟨row, rows, rfl⟩ := List.exists_cons_of_ne_nil (h.resolve_left fun hne => hne rfl)
    have hrest : (rows.map (keyOn [])).filter (fun b => !b == keyOn [] row) = [] := by
      refine List.filter_eq_nil_iff.mpr fun k hk => ?_
      obtain ⟨r, -, rfl⟩ := List.mem_map.mp hk
      simp [keyOn]
    rw [List.map_cons, List.eraseDups_cons, hrest]
    rfl

/-- The row for a group with a key, given the values of the calls. -/
def groupRow (keyNames : List String) (ns : List NamedCall) (key vs : List Value) : Row :=
  .ofCells (keyNames.zip key ++ (ns.map fun n => n.output.rowKey).zip vs)

/-- A row is that of the group with a key. -/
def IsGroupRow (keys : List Expr) (ns : List NamedCall) (rows : List Row) (key : List Value)
    (out : Row) : Prop :=
  ∃ vs, List.Forall₂ (fun n v => n.call.valueOn (rowsWith keys rows key) = .ok v) ns vs ∧
    out = groupRow ((keys.filterMap Expr.output?).map Column.rowKey) ns key vs

theorem isGroupRow_iff {keys : List Expr} {ns : List NamedCall} {rows : List Row}
    {key : List Value} {out : Row} : IsGroupRow keys ns rows key out ↔
      ∃ g, Group.IsOf (ns.map NamedCall.call) key (rowsWith keys rows key) g ∧
        g.row ((keys.filterMap Expr.output?).map Column.rowKey) (ns.map fun n => n.output.rowKey) =
          out := by
  have hvalue (n : NamedCall) (v : Value) : n.call.valueOn (rowsWith keys rows key) = .ok v ↔
      ∃ s : CallState, (rowsWith keys rows key).foldlM CallState.feed (.fresh n.call) = .ok s ∧
        s.state.result = v := by
    simp only [CallState.foldlM_feed, AggregateCall.valueOn, map_eq_ok_iff]
    constructor
    · rintro ⟨state, hstate, rfl⟩
      exact ⟨_, ⟨state, hstate, rfl⟩, rfl⟩
    · rintro ⟨_, ⟨state, hstate, rfl⟩, rfl⟩
      exact ⟨state, hstate, rfl⟩
  constructor
  · rintro ⟨vs, hvs, rfl⟩
    obtain ⟨states, hstates, hresults⟩ :=
      forall₂_comp_iff.mpr (hvs.imp fun n v h => (hvalue n v).mp h)
    refine ⟨⟨key, states⟩, ⟨rfl, List.forall₂_map_left_iff.mpr hstates⟩, ?_⟩
    have : states.map (·.state.result) = vs := by
      rw [← List.forall₂_eq_eq_eq, List.forall₂_map_left_iff]
      exact hresults
    rw [Group.row, groupRow, this]
  · rintro ⟨⟨key', states⟩, ⟨rfl, hstates⟩, rfl⟩
    refine ⟨states.map (·.state.result), ?_, rfl⟩
    rw [List.forall₂_map_right_iff]
    exact (List.forall₂_map_left_iff.mp hstates).imp fun n s h => (hvalue n _).mpr ⟨s, h, rfl⟩

/-- The groups once the one that is always there has been added. -/
theorem areGroups_groupKeys {keys : List Expr} {calls : List AggregateCall} {rows : List Row}
    {gs' : List Group} : (∃ gs, AreGroups keys calls rows gs ∧
        (if gs.isEmpty && keys.isEmpty then [Group.fresh calls []] else gs) = gs') ↔
      List.Forall₂ (fun key g => Group.IsOf calls key (rowsWith keys rows key) g)
        (groupKeys keys rows) gs' := by
  cases keys with
  | cons e keys =>
    simp only [List.isEmpty_cons, Bool.and_false, Bool.false_eq_true, if_false, exists_eq_right,
      groupKeys]
    rfl
  | nil =>
    cases rows with
    | nil =>
      have hgroups (gs : List Group) : AreGroups [] calls [] gs ↔ gs = [] :=
        List.forall₂_nil_left_iff
      simp only [hgroups, exists_eq_left, groupKeys, List.isEmpty_nil, Bool.and_self, if_true]
      rw [List.forall₂_cons_left_iff]
      simp only [List.forall₂_nil_left_iff]
      constructor
      · rintro rfl
        exact ⟨_, [], Group.isOf_fresh calls [], rfl, rfl⟩
      · rintro ⟨g, _, hg, rfl, rfl⟩
        rw [Group.eq_fresh hg]
    | cons row rows =>
      have hone : ((row :: rows).map (keyOn [])).eraseDups = [[]] :=
        (groupKeys_eq_eraseDups (.inr (List.cons_ne_nil row rows))).symm
      simp only [groupKeys, List.isEmpty_nil, Bool.and_true, if_true, AreGroups, hone]
      constructor
      · rintro ⟨gs, hgs, rfl⟩
        obtain ⟨g, _, -, -, rfl⟩ := List.forall₂_cons_left_iff.mp hgs
        exact hgs
      · intro hgs
        obtain ⟨g, _, -, -, rfl⟩ := List.forall₂_cons_left_iff.mp hgs
        exact ⟨_, hgs, rfl⟩

/-- **What comes out of grouping and folding**: a row for each group, in the order in which the
groups' keys appear, with the value of each call over the rows of the group. -/
theorem groupAndFold_eq_ok_iff {rows : List Row} {keys : List Expr}
    (hkeys : ∀ e ∈ keys, e.output?.isSome) (ns : List NamedCall) {out : List Row} :
    groupAndFold rows keys (ns.map NamedCall.expr) = .ok out ↔
      List.Forall₂ (IsGroupRow keys ns rows) (groupKeys keys rows) out := by
  have hrun : groupAndFold rows keys (ns.map NamedCall.expr) = .ok out ↔
      ∃ gs, AreGroups keys (ns.map NamedCall.call) rows gs ∧
        (if gs.isEmpty && keys.isEmpty then [Group.fresh (ns.map NamedCall.call) []] else gs).map
          (Group.row ((keys.filterMap Expr.output?).map Column.rowKey)
            (ns.map fun n => n.output.rowKey)) = out := by
    simp only [groupAndFold, NamedCall.mapM_aggregateCall, Expr.mapM_outputKey hkeys,
      NamedCall.mapM_outputKey, bind_eq_ok_iff, pure_eq_ok_iff, Except.ok.injEq, exists_eq_left',
      groupRows_eq_ok_iff]
  rw [hrun, forall₂_congr_of_mem fun _ _ _ => isGroupRow_iff, ← forall₂_comp_iff]
  simp only [← areGroups_groupKeys]
  constructor
  · rintro ⟨gs, hgs, rfl⟩
    refine ⟨_, ⟨gs, hgs, rfl⟩, ?_⟩
    exact List.forall₂_map_right_iff.mpr (List.forall₂_same.mpr fun _ _ => rfl)
  · rintro ⟨_, ⟨gs, hgs, rfl⟩, hrows⟩
    refine ⟨gs, hgs, ?_⟩
    rw [← List.forall₂_eq_eq_eq, List.forall₂_map_left_iff]
    exact hrows

end QueryPlan
