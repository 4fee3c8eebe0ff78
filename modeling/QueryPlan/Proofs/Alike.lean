import QueryPlan.Proofs.Grouping

/-!
# Groupings that agree on what they read

Two groupings of matching rows, in which matching keys and arguments have the same values, have one
outcome: the same rows or the same failure (`groupAndFold_congr`).  The proof follows the one run
beside the other, state for state.
-/

set_option autoImplicit false

namespace QueryPlan

/-! ## Two runs side by side -/

/-- Two outcomes that are the same failure, or two related results. -/
inductive Matches {ε α β : Type} (R : α → β → Prop) : Except ε α → Except ε β → Prop where
  | ok {a : α} {b : β} (h : R a b) : Matches R (.ok a) (.ok b)
  | error (e : ε) : Matches R (.error e) (.error e)

namespace Matches

variable {ε α β γ δ : Type} {R : α → β → Prop} {S : γ → δ → Prop}

theorem eq {x y : Except ε α} (h : Matches (fun a b => a = b) x y) : x = y := by
  cases h with
  | ok h => rw [h]
  | error e => rfl

theorem bind {x : Except ε α} {y : Except ε β} (h : Matches R x y) {f : α → Except ε γ}
    {g : β → Except ε δ} (hfg : ∀ a b, R a b → Matches S (f a) (g b)) :
    Matches S (x >>= f) (y >>= g) := by
  cases h with
  | ok h => exact hfg _ _ h
  | error e => exact .error e

theorem mapM {l : List α} {l' : List β} (h : List.Forall₂ R l l') {f : α → Except ε γ}
    {g : β → Except ε δ} (hfg : ∀ a b, R a b → Matches S (f a) (g b)) :
    Matches (List.Forall₂ S) (l.mapM f) (l'.mapM g) := by
  induction h with
  | nil => exact .ok .nil
  | cons hab _ ih =>
    rw [List.mapM_cons, List.mapM_cons]
    exact (hfg _ _ hab).bind fun c d hcd => ih.bind fun cs ds hcsds => .ok (.cons hcd hcsds)

theorem foldlM {l : List α} {l' : List β} (h : List.Forall₂ R l l') {f : γ → α → Except ε γ}
    {g : δ → β → Except ε δ}
    (hfg : ∀ c d a b, S c d → R a b → Matches S (f c a) (g d b)) {c : γ} {d : δ} (hcd : S c d) :
    Matches S (l.foldlM f c) (l'.foldlM g d) := by
  induction h generalizing c d with
  | nil => exact .ok hcd
  | cons hab _ ih =>
    rw [List.foldlM_cons, List.foldlM_cons]
    exact (hfg _ _ _ _ hcd hab).bind fun c' d' h' => ih h'

end Matches

/-! ## Calls and groups side by side -/

section Alike

variable (Q : Row → Row → Prop)

/-- Two expressions have the same value on matching rows. -/
def Expr.Alike (e e' : Expr) : Prop := ∀ row row', Q row row' → e.eval row = e'.eval row'

/-- Two calls that differ in their arguments at most, and have the same arguments on matching
rows. -/
structure AggregateCall.Alike (c c' : AggregateCall) : Prop where
  func : c.func = c'.func
  distinct : c.distinct = c'.distinct
  args : ∀ row row', Q row row' → c.argsOn row = c'.argsOn row'

/-- Two calls in one state. -/
structure CallState.Alike (s s' : CallState) : Prop where
  call : s.call.Alike Q s'.call
  state : s.state = s'.state
  met : s.met = s'.met

/-- Two groups in one state. -/
structure Group.Alike (g g' : Group) : Prop where
  key : g.key = g'.key
  calls : List.Forall₂ (CallState.Alike Q) g.calls g'.calls

variable {Q}

theorem AggregateCall.Alike.of_args {c c' : AggregateCall} (hfunc : c.func = c'.func)
    (hdistinct : c.distinct = c'.distinct)
    (hargs : List.Forall₂ (Expr.Alike Q) c.args c'.args) : c.Alike Q c' := by
  refine ⟨hfunc, hdistinct, fun row row' h => ?_⟩
  rw [argsOn, argsOn, ← List.forall₂_eq_eq_eq, List.forall₂_map_left_iff,
    List.forall₂_map_right_iff]
  exact hargs.imp fun e e' he => he row row' h

theorem CallState.Alike.fresh {c c' : AggregateCall} (h : c.Alike Q c') :
    (CallState.fresh c).Alike Q (.fresh c') :=
  ⟨h, by rw [CallState.fresh, CallState.fresh, h.func], rfl⟩

theorem CallState.Alike.feed {s s' : CallState} (h : s.Alike Q s') {row row' : Row}
    (hrow : Q row row') : Matches (CallState.Alike Q) (s.feed row) (s'.feed row') := by
  obtain ⟨hcall, hstate, hmet⟩ := h
  have hupdate (args : List Value) (met : List String) : Matches (CallState.Alike Q)
      (do return { s with state := ← s.state.update args, met := met })
      (do return { s' with state := ← s'.state.update args, met := met }) := by
    rw [hstate]
    cases s'.state.update args with
    | ok state => exact .ok ⟨hcall, rfl, rfl⟩
    | error e => exact .error e
  rw [CallState.feed, CallState.feed, ← AggregateCall.argsOn, ← AggregateCall.argsOn,
    ← hcall.distinct]
  simp only [← hcall.args row row' hrow, ← hmet]
  split
  · split
    · exact .ok ⟨hcall, hstate, hmet⟩
    · exact hupdate ..
  · exact hupdate ..

theorem Group.Alike.feed {g g' : Group} (h : g.Alike Q g') {row row' : Row} (hrow : Q row row') :
    Matches (Group.Alike Q) (g.feed row) (g'.feed row') :=
  (Matches.mapM h.calls fun _ _ hs => hs.feed hrow).bind fun _ _ hcalls => .ok ⟨h.key, hcalls⟩

theorem Group.Alike.fresh {calls calls' : List AggregateCall}
    (h : List.Forall₂ (AggregateCall.Alike Q) calls calls') (key : List Value) :
    (Group.fresh calls key).Alike Q (.fresh calls' key) := by
  refine ⟨rfl, ?_⟩
  rw [Group.fresh, Group.fresh, List.forall₂_map_left_iff, List.forall₂_map_right_iff]
  exact h.imp fun _ _ hc => .fresh hc

theorem feedGroups_alike {calls calls' : List AggregateCall}
    (hcalls : List.Forall₂ (AggregateCall.Alike Q) calls calls') (key : List Value)
    {row row' : Row} (hrow : Q row row') {gs gs' : List Group}
    (h : List.Forall₂ (Group.Alike Q) gs gs') :
    Matches (List.Forall₂ (Group.Alike Q)) (feedGroups calls key row gs)
      (feedGroups calls' key row' gs') := by
  induction h with
  | nil => exact ((Group.Alike.fresh hcalls key).feed hrow).bind fun _ _ hg => .ok (.cons hg .nil)
  | cons hg hgs ih =>
    rw [feedGroups, feedGroups, Group.text, Group.text, hg.key]
    split
    · exact (hg.feed hrow).bind fun _ _ hg' => .ok (.cons hg' hgs)
    · exact ih.bind fun _ _ hgs' => .ok (.cons hg hgs')

theorem Group.Alike.row {g g' : Group} (h : g.Alike Q g') (keyNames resultNames : List String) :
    g.row keyNames resultNames = g'.row keyNames resultNames := by
  have hresults : g.calls.map (·.state.result) = g'.calls.map (·.state.result) := by
    rw [← List.forall₂_eq_eq_eq, List.forall₂_map_left_iff, List.forall₂_map_right_iff]
    exact h.calls.imp fun s s' hs => congrArg Accumulator.result hs.state
  rw [Group.row, Group.row, h.key, hresults]

theorem mapM_outputKey_congr {keys keys' : List Expr}
    (h : List.Forall₂ (fun e e' => e.output? = e'.output? ∧ e.Alike Q e') keys keys')
    (hnamed : ∀ e ∈ keys, e.output?.isSome) :
    keys.mapM Expr.outputKey = keys'.mapM Expr.outputKey := by
  induction h with
  | nil => rfl
  | cons he _ ih =>
    obtain ⟨c, hc⟩ := Option.isSome_iff_exists.mp (hnamed _ List.mem_cons_self)
    rw [List.mapM_cons, List.mapM_cons, ih fun e he => hnamed e (List.mem_cons_of_mem _ he),
      Expr.outputKey, Expr.outputKey, ← he.1, hc]

/-- **Groupings that agree on keys and arguments have one outcome.** -/
theorem groupAndFold_congr {rows rows' : List Row} (hrows : List.Forall₂ Q rows rows')
    {keys keys' : List Expr}
    (hkeys : List.Forall₂ (fun e e' => e.output? = e'.output? ∧ e.Alike Q e') keys keys')
    (hnamed : ∀ e ∈ keys, e.output?.isSome) {ns ns' : List NamedCall}
    (hns : List.Forall₂ (fun n n' => n.output = n'.output ∧ n.call.Alike Q n'.call) ns ns') :
    groupAndFold rows keys (ns.map NamedCall.expr) =
      groupAndFold rows' keys' (ns'.map NamedCall.expr) := by
  have hresultNames : ns.map (fun n => n.output.rowKey) = ns'.map fun n => n.output.rowKey := by
    rw [← List.forall₂_eq_eq_eq, List.forall₂_map_left_iff, List.forall₂_map_right_iff]
    exact hns.imp fun n n' h => by rw [h.1]
  have hcalls : List.Forall₂ (AggregateCall.Alike Q) (ns.map NamedCall.call)
      (ns'.map NamedCall.call) := by
    rw [List.forall₂_map_left_iff, List.forall₂_map_right_iff]
    exact hns.imp fun n n' h => h.2
  have hempty : keys.isEmpty = keys'.isEmpty := by
    cases hkeys <;> rfl
  have hkeyOn : ∀ row row', Q row row' → keyOn keys row = keyOn keys' row' := fun row row' h => by
    rw [keyOn, keyOn, ← List.forall₂_eq_eq_eq, List.forall₂_map_left_iff,
      List.forall₂_map_right_iff]
    exact hkeys.imp fun e e' he => he.2 row row' h
  have hgroups : Matches (List.Forall₂ (Group.Alike Q))
      (groupRows keys (ns.map NamedCall.call) rows)
      (groupRows keys' (ns'.map NamedCall.call) rows') := by
    refine Matches.foldlM hrows (fun gs gs' row row' hgs hrow => ?_) .nil
    show Matches _ (feedGroups _ (keyOn keys row) row gs) (feedGroups _ (keyOn keys' row') row' gs')
    rw [← hkeyOn row row' hrow]
    exact feedGroups_alike hcalls _ hrow hgs
  rw [groupAndFold, groupAndFold, NamedCall.mapM_aggregateCall, NamedCall.mapM_aggregateCall,
    NamedCall.mapM_outputKey, NamedCall.mapM_outputKey, ← mapM_outputKey_congr hkeys hnamed,
    ← hresultNames, Expr.mapM_outputKey hnamed]
  refine (hgroups.bind fun gs gs' hgs => .ok ?_).eq
  rw [← List.forall₂_eq_eq_eq, List.forall₂_map_left_iff, List.forall₂_map_right_iff, ← hempty]
  have hgsempty : gs.isEmpty = gs'.isEmpty := by cases hgs <;> rfl
  rw [← hgsempty]
  split
  · exact .cons (Group.Alike.row (.fresh hcalls []) _ _) .nil
  · exact hgs.imp fun g g' hg => hg.row _ _

end Alike

end QueryPlan
