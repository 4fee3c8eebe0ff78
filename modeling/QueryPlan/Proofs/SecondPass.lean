import QueryPlan.Proofs.Nearest

/-!
# Qualifying a qualified plan

What comes out of the pass may be given to it again.  The second pass always succeeds, but it need
not return the plan that it was given.  This file says exactly when it does
(`Plan.qualify_again`), and that a plan without walks always comes back
(`Plan.qualify_again_of_no_walk`).

## What the pass leaves

A plan that comes out of the pass is `Tidy` (`Passes.tidy`):

* **Relations have aliases.**  Each generated alias has found its place, above its relation or above
  the walks over that.  Only relations that get no alias have none.
* **References are qualified.**  At every node but the walks a reference is under the alias nearest
  to it, so qualifying it once more changes nothing.  The sides of a join show their aliases.
* **No reference has several qualifiers**, so the second pass does not fail.

Of the clauses of a walk less is known, since the alias that qualified them has moved above it.
Only if nothing but walks stands between an alias and a relation, the references of the outermost
walk to what is walked are under that alias (`TidyWalk`).

## What a second pass does

Every relation that gets an alias has one above it now.  Each alias that the second pass generates
is therefore the first one, and is taken back at once: `Tidy.again` says that the count starts and
ends at zero.  What it changes are walks.

* **Walks over a relation.**  Their references to what is walked go to the first generated alias
  (`walkUnder`, `passes_walkUnder`).  Those of the outermost walk come back to the alias above when
  the generated one is taken back, and those of the walks inside do not (`TidyWalk.again`).
* **Walks over anything else.**  An alias right below a walk would move above it.  If there is none,
  the references go to the aliases that are seen from below the walk, which need not be the alias
  above it that they were under.  That is what becomes of `localLine`.

`Plan.SettledAt` says node by node where nothing of this makes a difference.  The plan comes back
exactly if every node is settled: a node over one input is given back when its input is and its
references are (`mapColumns_eq_iff`), so the induction takes the nodes one at a time.
-/

set_option autoImplicit false

namespace QueryPlan

theorem Column.qualifier?_eq_some_iff (c : Column) (label : String) :
    c.qualifier? = some label ↔ c.qualifiers = [label] := by
  rw [qualifier?]
  split <;> simp_all

namespace Plan

/-! ## References with one qualifier at most -/

theorem ambiguous?_mapColumns {g : Column → Column} {p : Plan}
    (hg : ∀ c, c.qualifiers.length ≤ 1 → (g c).qualifiers.length ≤ 1)
    (h : p.ambiguous? = none) : (p.mapColumns g).ambiguous? = none := by
  rw [ambiguous?_eq_none_iff] at h ⊢
  rw [ownReferences_mapColumns]
  intro c hc
  obtain ⟨d, hd, rfl⟩ := List.mem_map.mp hc
  exact hg d (h d hd)

theorem ambiguous?_seenFrom {p : Plan} (y : Plan) (h : p.ambiguous? = none) :
    (p.seenFrom y).ambiguous? = none := by
  refine ambiguous?_mapColumns (fun c hc => ?_) h
  cases y.nearestAlias? c.id with
  | some label => exact Nat.le_refl 1
  | none => exact hc

theorem ambiguous?_moveQualifiers {p : Plan} (old new : String) (h : p.ambiguous? = none) :
    (p.moveQualifiers old new).ambiguous? = none := by
  refine ambiguous?_mapColumns (fun c hc => ?_) h
  rw [renameQualifier]
  split
  · exact Nat.le_refl 1
  · exact hc

theorem id_renameQualifier (old new : String) (c : Column) :
    (renameQualifier old new c).id = c.id := by
  rw [renameQualifier]
  split <;> rfl

theorem qualifiers_renameQualifier {old : String} (new : String) {c : Column}
    (h : c.qualifiers = [old]) : (renameQualifier old new c).qualifiers = [new] := by
  rw [renameQualifier, if_pos ((c.qualifier?_eq_some_iff old).mpr h)]
  rfl

theorem seenFrom_seenFrom (p : Plan) {y z : Plan}
    (h : ∀ id, z.nearestAlias? id = y.nearestAlias? id) :
    (p.seenFrom y).seenFrom z = p.seenFrom y := by
  have hagain (c : Column) (label : Option String) :
      (c.under label).under label = c.under label := by
    cases label <;> rfl
  simp only [seenFrom, mapColumns_mapColumns, Column.id_under, h, hagain]

theorem seenFrom_self (p : Plan) : (p.seenFrom p).seenFrom (p.seenFrom p) = p.seenFrom p :=
  seenFrom_seenFrom p fun id => nearestAlias?_mapColumns _ p id

theorem raiseAlias_eq_or (p : Plan) :
    p.raiseAlias = p ∨ ∃ label x, p.raiseAlias = aliased label x := by
  unfold raiseAlias
  split
  · exact .inr ⟨_, _, rfl⟩
  · exact .inl rfl

theorem raiseAlias_raiseAlias (p : Plan) : p.raiseAlias.raiseAlias = p.raiseAlias := by
  rcases p.raiseAlias_eq_or with h | ⟨label, x, h⟩
  · rw [h, h]
  · rw [h]
    rfl

/-! ## Plans that have been gone through -/

/-- A chain of walks over a relation that gets an alias, as the pass leaves it under the alias
`label`. -/
structure TidyWalk (config : Config) (label : String) (w : Plan) : Prop where
  isTableWalk : w.isTableWalk config = true
  /-- The outermost walk has its references under the alias above it. -/
  covered : ∀ c ∈ w.ownReferences, w.produces c.id = true → c.qualifiers = [label]
  /-- No reference comes with several qualifiers. -/
  single : ∀ n ∈ w.nodes, n.ambiguous? = none

/-- A plan as the pass leaves it. -/
inductive Tidy (config : Config) : Plan → Prop where
  | leaf {p : Plan} (hleaf : p.isLeaf) (hbare : p.getsAlias config = false) : Tidy config p
  | tableWalk {w : Plan} (label : String) (hwalk : TidyWalk config label w) :
    Tidy config (aliased label w)
  | aliased {x : Plan} (label : String) (hx : Tidy config x) : Tidy config (aliased label x)
  /-- Nothing is known of the references of a walk: their alias may have moved. -/
  | walk {x : Plan} (startWith : Option Expr) (connectBy : Expr) (noCycle : Bool)
    (hx : Tidy config x)
    (hsingle : (hierarchical x startWith connectBy noCycle).ambiguous? = none) :
    Tidy config (hierarchical x startWith connectBy noCycle)
  | join {x y : Plan} (kind : JoinKind) (condition : Option Expr) (hx : Tidy config x)
    (hy : Tidy config y) (hxraise : x.raiseAlias = x) (hyraise : y.raiseAlias = y)
    (hseen : (join kind x y condition).seenFrom (join kind x y condition) = join kind x y condition)
    (hsingle : (join kind x y condition).ambiguous? = none) : Tidy config (join kind x y condition)
  | unary {op : Plan → Plan} {x : Plan} (hop : Unary op) (hx : Tidy config x)
    (hseen : (op x).seenFrom x = op x) (hsingle : (op x).ambiguous? = none) : Tidy config (op x)

namespace Tidy

variable {config : Config} {p x : Plan} {label : String}

/-- What has been gone through is under its alias, so it is no chain of walks over a relation
without one. -/
theorem isTableWalk_eq_false (h : Tidy config p) : p.isTableWalk config = false := by
  induction h with
  | @leaf p hleaf hbare =>
    cases p with
    | relation name columns tableLike => exact hbare
    | scan table columns source => rfl
    | _ => cases hleaf
  | walk startWith connectBy noCycle hx hsingle ih => exact ih
  | unary hop hx hseen hsingle ih => cases hop <;> rfl
  | _ => rfl

theorem raiseAlias (h : Tidy config p) : Tidy config p.raiseAlias := by
  unfold Plan.raiseAlias
  split
  · exact .aliased _ h
  · exact h

theorem of_aliased (h : Tidy config (Plan.aliased label x)) :
    TidyWalk config label x ∨ Tidy config x := by
  generalize hq : Plan.aliased label x = q at h
  cases h with
  | leaf hleaf hbare =>
    subst hq
    cases hleaf
  | tableWalk label hwalk =>
    cases hq
    exact .inl hwalk
  | aliased label hx =>
    cases hq
    exact .inr hx
  | unary hop hx hseen hsingle => exact absurd hq.symm (hop.ne_aliased label x)
  | _ => cases hq

theorem tidyWalk (h : Tidy config (Plan.aliased label x)) (hx : x.isTableWalk config = true) :
    TidyWalk config label x := by
  rcases h.of_aliased with hwalk | hx'
  · exact hwalk
  · simp [hx'.isTableWalk_eq_false] at hx

theorem under (h : Tidy config (Plan.aliased label x)) (hx : x.isTableWalk config = false) :
    Tidy config x := by
  rcases h.of_aliased with hwalk | hx'
  · simp [hwalk.isTableWalk] at hx
  · exact hx'

end Tidy

namespace TidyWalk

variable {config : Config} {label : String} {w : Plan}

theorem of_getsAlias (label : String) {p : Plan} (h : p.getsAlias config) :
    TidyWalk config label p := by
  cases p with
  | relation name columns tableLike => exact ⟨h, nofun, by simp [nodes]; rfl⟩
  | _ => cases h

/-- Renaming moves the references of the outermost walk to the new alias. -/
theorem moveQualifiers {old : String} (h : TidyWalk config old w) (label : String) :
    TidyWalk config label (w.moveQualifiers old label) := by
  cases w with
  | relation name columns tableLike => exact .of_getsAlias label h.isTableWalk
  | hierarchical input startWith connectBy noCycle =>
    refine ⟨h.isTableWalk, fun c hc hproduced => ?_, fun n hn => ?_⟩
    · rw [Plan.moveQualifiers, ownReferences_mapColumns] at hc
      obtain ⟨d, hd, rfl⟩ := List.mem_map.mp hc
      rw [id_renameQualifier] at hproduced
      exact qualifiers_renameQualifier label (h.covered d hd hproduced)
    · rw [Plan.moveQualifiers, nodes_mapColumns] at hn
      rcases List.mem_cons.mp hn with rfl | hn
      · exact ambiguous?_moveQualifiers old label (h.single _ List.mem_cons_self)
      · exact h.single n (nodes_eq _ ▸ List.mem_cons_of_mem _ hn)
  | _ => cases h.isTableWalk

theorem walk (h : TidyWalk config label w) {startWith : Option Expr} {connectBy : Expr}
    {noCycle : Bool} (hsingle : (hierarchical w startWith connectBy noCycle).ambiguous? = none) :
    TidyWalk config label
      ((hierarchical w startWith connectBy noCycle).seenFrom (aliased label w)) where
  isTableWalk := h.isTableWalk
  covered c hc hproduced := by
    rw [seenFrom, ownReferences_mapColumns] at hc
    obtain ⟨d, hd, rfl⟩ := List.mem_map.mp hc
    have hd' : w.produces d.id = true := by rwa [Column.id_under] at hproduced
    rw [nearestAlias?_aliased, if_pos hd']
    rfl
  single n hn := by
    rw [seenFrom, nodes_mapColumns] at hn
    rcases List.mem_cons.mp hn with rfl | hn
    · exact ambiguous?_seenFrom _ hsingle
    · exact h.single n (by simpa [children] using hn)

end TidyWalk

theorem Passes.tidy {config : Config} {k : Nat} {p : Plan} {r : Pass}
    (h : Passes config k p r) : Tidy config r.plan := by
  induction h with
  | leaf hleaf hbare => exact .leaf hleaf hbare
  | table htable => exact .tableWalk _ (.of_getsAlias _ htable)
  | @renamed k n p x us old label below ih =>
    obtain ⟨_, _, hx, hwalk⟩ := below.tableWalk_of_generated rfl
    obtain ⟨-, rfl⟩ := aliased.inj hx
    exact .tableWalk label ((ih.tidyWalk hwalk).moveQualifiers label)
  | aliased label below ih => exact .aliased label ih
  | @raised k n p x generated us label startWith connectBy noCycle below hsingle ih =>
    cases hx : x.isTableWalk config with
    | true => exact .tableWalk label ((ih.tidyWalk hx).walk hsingle)
    | false => exact .aliased label (.walk _ _ _ (ih.under hx) (ambiguous?_seenFrom _ hsingle))
  | @walk k n p x generated us startWith connectBy noCycle below hbare hsingle ih =>
    exact .walk _ _ _ ih (ambiguous?_seenFrom x hsingle)
  | @join k m n p q x y generated generated' us us' kind condition left right hsingle ihp ihq =>
    have hsingle' : (Plan.join kind x.raiseAlias y.raiseAlias condition).ambiguous? = none :=
      hsingle
    exact .join kind _ ihp.raiseAlias ihq.raiseAlias (raiseAlias_raiseAlias x)
      (raiseAlias_raiseAlias y) (seenFrom_self (Plan.join kind x.raiseAlias y.raiseAlias condition))
      (ambiguous?_seenFrom _ hsingle')
  | @unary k n p x generated us op hop below hsingle ih =>
    obtain ⟨op', hop', hop_eq⟩ := hop.mapColumns fun c => c.under (x.nearestAlias? c.id)
    have hnode : (op x).seenFrom x = op' x := hop_eq x
    have hsingle' : (op x).ambiguous? = none :=
      (ambiguous?_congr (hop.ownReferences x p)).trans hsingle
    rw [hnode]
    refine .unary hop' ih ?_ ?_
    · rw [← hnode, seenFrom_seenFrom _ fun _ => rfl]
    · rw [← hnode]
      exact ambiguous?_seenFrom x hsingle'

/-! ## What a second pass changes -/

/-- Whether a second pass leaves a node of a qualified plan as it is.

A walk that stands over another walk over a relation is gone through under the first generated
alias, so the walk below it must have its references under that one already.  Any other walk must
find no alias right below it, since that alias would move, and its references must be under the
aliases that are seen from below it.  An alias over walks over a relation takes back the first
generated alias, and with it what happens to be qualified by it. -/
def SettledAt (config : Config) : Plan → Prop
  | hierarchical input startWith connectBy noCycle =>
    if input.isTableWalk config then
      ∀ c ∈ input.ownReferences, input.produces c.id = true →
        c.qualifiers = [config.generatedAlias 1]
    else
      (∀ label x, input ≠ aliased label x) ∧
        ∀ c ∈ (hierarchical input startWith connectBy noCycle).ownReferences, ∀ label,
          input.nearestAlias? c.id = some label → c.qualifiers = [label]
  | aliased label input =>
    input.isTableWalk config = true → ∀ c ∈ input.ownReferences, input.produces c.id = false →
      c.qualifiers = [config.generatedAlias 1] → config.generatedAlias 1 = label
  | _ => True

/-- A chain of walks with every reference that its relation covers under one alias. -/
def walkUnder (label : String) : Plan → Plan
  | hierarchical input startWith connectBy noCycle =>
    (hierarchical (walkUnder label input) startWith connectBy noCycle).mapColumns fun c =>
      if input.produces c.id then c.qualify [label] else c
  | p => p

/-- A node over one input is given back when its input is and its references are. -/
theorem mapColumns_eq_iff {f : Plan → Plan} (hf : ∀ x, (f x).children = [x]) {x y : Plan}
    {g : Column → Column} :
    (f x).mapColumns g = f y ↔ x = y ∧ ∀ c ∈ (f y).ownReferences, g c = c := by
  constructor
  · intro h
    have hchildren := congrArg children h
    rw [children_mapColumns, hf, hf] at hchildren
    obtain rfl : x = y := by simpa using hchildren
    exact ⟨rfl, mapColumns_eq_self_iff.mp h⟩
  · rintro ⟨rfl, h⟩
    exact mapColumns_eq_self_iff.mpr h

theorem mapColumns_walk_eq_iff {x y : Plan} {startWith : Option Expr} {connectBy : Expr}
    {noCycle : Bool} {g : Column → Column} :
    (hierarchical x startWith connectBy noCycle).mapColumns g
        = hierarchical y startWith connectBy noCycle ↔
      x = y ∧ ∀ c ∈ (hierarchical y startWith connectBy noCycle).ownReferences, g c = c :=
  mapColumns_eq_iff (f := (hierarchical · startWith connectBy noCycle)) fun _ => rfl

section TableWalks

variable {config : Config} {w : Plan}

theorem nearestAlias?_of_isTableWalk (h : w.isTableWalk config = true) (id : ColumnId) :
    w.nearestAlias? id = none := by
  induction w, h using tableWalkInduction with
  | table name columns tableLike h => rfl
  | walk w startWith connectBy noCycle h ih => rw [nearestAlias?_hierarchical, ih]

theorem isTableWalk_walkUnder (label : String) (h : w.isTableWalk config = true) :
    (w.walkUnder label).isTableWalk config = true := by
  induction w, h using tableWalkInduction with
  | table name columns tableLike h => exact h
  | walk w startWith connectBy noCycle h ih => exact ih

theorem produces_walkUnder (label : String) (h : w.isTableWalk config = true) (id : ColumnId) :
    (w.walkUnder label).produces id = w.produces id := by
  induction w, h using tableWalkInduction with
  | table name columns tableLike h => rfl
  | walk w startWith connectBy noCycle h ih => exact ih

/-- Going through a chain of walks over a relation that gets an alias. -/
theorem passes_walkUnder (k : Nat) (h : w.isTableWalk config = true)
    (hsingle : ∀ n ∈ w.nodes, n.ambiguous? = none) :
    ∃ us, Passes config k w ⟨aliased (config.generatedAlias (k + 1))
      (w.walkUnder (config.generatedAlias (k + 1))), true, k + 1, us⟩ := by
  induction w, h using tableWalkInduction with
  | table name columns tableLike h => exact ⟨[], .table h⟩
  | walk w startWith connectBy noCycle h ih =>
    rw [nodes, List.forall_mem_cons] at hsingle
    obtain ⟨us, hpass⟩ := ih hsingle.2
    have hseen : (hierarchical (w.walkUnder (config.generatedAlias (k + 1))) startWith connectBy
          noCycle).seenFrom (aliased (config.generatedAlias (k + 1))
            (w.walkUnder (config.generatedAlias (k + 1))))
        = (hierarchical w startWith connectBy noCycle).walkUnder
            (config.generatedAlias (k + 1)) := by
      refine mapColumns_congr fun c _ => ?_
      rw [nearestAlias?_aliased, produces_walkUnder _ h,
        nearestAlias?_of_isTableWalk (isTableWalk_walkUnder _ h)]
      split <;> rfl
    rw [← hseen]
    exact ⟨_, .raised hpass hsingle.1⟩

theorem walkUnder_eq_self_iff (h : w.isTableWalk config = true) :
    w.walkUnder (config.generatedAlias 1) = w ↔
      (∀ c ∈ w.ownReferences, w.produces c.id = true →
        c.qualifiers = [config.generatedAlias 1]) ∧
      ∀ n ∈ w.nodes, n.SettledAt config := by
  induction w, h using tableWalkInduction with
  | table name columns tableLike h =>
    refine iff_of_true rfl ⟨fun c hc => ?_, fun n hn => ?_⟩
    · cases hc
    · obtain rfl := List.mem_singleton.mp hn
      trivial
  | walk w startWith connectBy noCycle h ih =>
    have hown : (∀ c ∈ (hierarchical w startWith connectBy noCycle).ownReferences,
          (if w.produces c.id then c.qualify [config.generatedAlias 1] else c) = c) ↔
        ∀ c ∈ (hierarchical w startWith connectBy noCycle).ownReferences,
          w.produces c.id = true → c.qualifiers = [config.generatedAlias 1] := by
      refine forall₂_congr fun c _ => ?_
      cases w.produces c.id <;> simp [Column.qualify_eq_self_iff]
    rw [walkUnder, mapColumns_walk_eq_iff, ih, hown, nodes, List.forall_mem_cons, SettledAt,
      if_pos h]
    exact and_comm

end TableWalks

theorem renameQualifier_eq_self_iff (old new : String) (c : Column) :
    renameQualifier old new c = c ↔ (c.qualifiers = [old] → old = new) := by
  rw [renameQualifier]
  split
  · next h =>
    rw [Column.qualifier?_eq_some_iff] at h
    simp [Column.qualify_eq_self_iff, h]
  · next h =>
    rw [Column.qualifier?_eq_some_iff] at h
    simp [h]

/-- An alias over a chain of walks, gone through again. -/
theorem TidyWalk.again {config : Config} {label : String} {w : Plan}
    (h : TidyWalk config label w) :
    ∃ y us, Passes config 0 (aliased label w) ⟨y, false, 0, us⟩ ∧
      (y = aliased label w ↔ ∀ n ∈ (aliased label w).nodes, n.SettledAt config) := by
  obtain ⟨us, hpass⟩ := passes_walkUnder 0 h.isTableWalk h.single
  refine ⟨_, us, .renamed label hpass, ?_⟩
  rw [nodes, List.forall_mem_cons, aliased.injEq, eq_self, true_and]
  cases w with
  | relation name columns tableLike =>
    refine iff_of_true rfl ⟨fun _ c hc => ?_, fun n hn => ?_⟩
    · cases hc
    · obtain rfl := List.mem_singleton.mp hn
      trivial
  | hierarchical v startWith connectBy noCycle =>
    have hwalk : v.isTableWalk config = true := h.isTableWalk
    have hown : (∀ c ∈ (hierarchical v startWith connectBy noCycle).ownReferences,
          renameQualifier (config.generatedAlias 1) label
            (if v.produces c.id then c.qualify [config.generatedAlias 1] else c) = c) ↔
        (aliased label (hierarchical v startWith connectBy noCycle)).SettledAt config := by
      rw [SettledAt, forall_prop_of_true h.isTableWalk]
      refine forall₂_congr fun c hc => ?_
      have hproduces : (hierarchical v startWith connectBy noCycle).produces c.id
          = v.produces c.id := rfl
      -- a covered reference goes to the generated alias and back; any other may only be renamed
      cases hv : v.produces c.id with
      | false => simp [renameQualifier_eq_self_iff, hproduces, hv]
      | true =>
        have hcovered : c.qualifiers = [label] := h.covered c hc hv
        simp [renameQualifier, Column.qualifier?, Column.qualify, hproduces, hv, ← hcovered]
    rw [walkUnder, Plan.moveQualifiers, mapColumns_mapColumns, mapColumns_walk_eq_iff,
      walkUnder_eq_self_iff hwalk, hown, nodes, List.forall_mem_cons, SettledAt, if_pos hwalk]
    exact and_comm
  | _ => cases h.isTableWalk

/-- A side of a join that comes back after its alias was raised has come back before. -/
theorem Passes.eq_of_raiseAlias_eq {config : Config} {k n : Nat} {x y : Plan} {generated : Bool}
    {us : List Unresolved} (h : Passes config k x ⟨y, generated, n, us⟩)
    (hraise : y.raiseAlias = x) : y = x := by
  rcases y.raiseAlias_eq_or with hsame | ⟨label, z, hz⟩
  · rw [← hsame, hraise]
  · have halias : x.comesAliased config = true := by
      rw [← hraise, hz]
      rfl
    obtain ⟨label', z', rfl⟩ : ∃ label x, y = Plan.aliased label x := h.comesAliased_iff.mp halias
    exact hraise

/-- A plan that has been gone through, gone through again: no generated alias is left over. -/
theorem Tidy.again {config : Config} {x : Plan} (h : Tidy config x) :
    ∃ y us, Passes config 0 x ⟨y, false, 0, us⟩ ∧
      (y = x ↔ ∀ n ∈ x.nodes, n.SettledAt config) := by
  induction h with
  | @leaf p hleaf hbare =>
    refine ⟨p, [], .leaf hleaf hbare, iff_of_true rfl fun n hn => ?_⟩
    rw [nodes_eq, children_of_isLeaf hleaf] at hn
    obtain rfl := List.mem_singleton.mp hn
    cases n <;> trivial
  | tableWalk label hwalk => exact hwalk.again
  | @aliased x label hx ih =>
    obtain ⟨y, us, hpass, hy⟩ := ih
    have hsettled : (Plan.aliased label x).SettledAt config := by
      intro hwalk
      simp [hx.isTableWalk_eq_false] at hwalk
    refine ⟨Plan.aliased label y, us, .aliased label hpass, ?_⟩
    rw [nodes, List.forall_mem_cons, aliased.injEq, hy]
    simp [hsettled]
  | @walk x startWith connectBy noCycle hx hsingle ih =>
    obtain ⟨y, us, hpass, hy⟩ := ih
    rw [nodes, List.forall_mem_cons, SettledAt, if_neg (by simp [hx.isTableWalk_eq_false])]
    -- an alias right below the walk moves above it, and then the walk is not where it was
    by_cases hbare : ∃ label z, y = Plan.aliased label z
    · obtain ⟨label, z, rfl⟩ := hbare
      refine ⟨_, _, .raised hpass hsingle, iff_of_false (fun h => ?_) ?_⟩
      · cases h
      · rintro ⟨⟨hbare, -⟩, hnodes⟩
        exact hbare label z (hy.mpr hnodes).symm
    · push Not at hbare
      refine ⟨_, _, .walk hpass hbare hsingle, ?_⟩
      rw [seenFrom, mapColumns_walk_eq_iff, ← hy]
      constructor
      · rintro ⟨rfl, hrefs⟩
        exact ⟨⟨hbare, fun c hc => (c.under_eq_self_iff _).mp (hrefs c hc)⟩, rfl⟩
      · rintro ⟨⟨-, hrefs⟩, rfl⟩
        exact ⟨rfl, fun c hc => (c.under_eq_self_iff _).mpr (hrefs c hc)⟩
  | @join x y kind condition hx hy hxraise hyraise hseen hsingle ihx ihy =>
    obtain ⟨x', us, hpassx, hx'⟩ := ihx
    obtain ⟨y', us', hpassy, hy'⟩ := ihy
    refine ⟨_, _, .join hpassx hpassy hsingle, ?_⟩
    rw [nodes, List.forall_mem_cons, List.forall_mem_append, ← hx', ← hy']
    constructor
    · intro h
      have hchildren : [x'.raiseAlias, y'.raiseAlias] = [x, y] := congrArg children h
      obtain ⟨hx, hy⟩ : x'.raiseAlias = x ∧ y'.raiseAlias = y := by simpa using hchildren
      exact ⟨trivial, hpassx.eq_of_raiseAlias_eq hx, hpassy.eq_of_raiseAlias_eq hy⟩
    · rintro ⟨-, rfl, rfl⟩
      rw [hxraise, hyraise]
      exact hseen
  | @unary op x hop hx hseen hsingle ih =>
    obtain ⟨y, us, hpass, hy⟩ := ih
    have hsettled : (op x).SettledAt config := by cases hop <;> trivial
    refine ⟨_, _, .unary hop hpass hsingle, ?_⟩
    rw [seenFrom, mapColumns_eq_iff hop.children, nodes_eq (op x), hop.children,
      List.flatMap_singleton, List.forall_mem_cons, ← hy]
    constructor
    · rintro ⟨rfl, -⟩
      exact ⟨hsettled, rfl⟩
    · rintro ⟨-, rfl⟩
      exact ⟨rfl, mapColumns_eq_self_iff.mp hseen⟩

/-! ## Qualifying twice -/

theorem tidy_of_qualify {config : Config} {p : Plan} {q : Qualified}
    (h : p.qualify config = .ok q) : Tidy config q.plan := by
  obtain ⟨r, hpass, hr⟩ := bind_eq_ok_iff.mp h
  cases hr
  exact (pass_eq_ok_iff.mp hpass).tidy

theorem Tidy.qualify {config : Config} {x : Plan} (h : Tidy config x) :
    ∃ r, x.qualify config = .ok r ∧ (r.plan = x ↔ ∀ n ∈ x.nodes, n.SettledAt config) := by
  obtain ⟨y, us, hpass, hy⟩ := h.again
  refine ⟨⟨y, us⟩, ?_, hy⟩
  rw [Plan.qualify, pass_eq_ok_iff.mpr hpass]
  rfl

/-- **Qualifying a qualified plan.**  It succeeds, and it gives the plan back exactly if every node
of the plan is settled. -/
theorem qualify_again {config : Config} {p : Plan} {q : Qualified}
    (h : p.qualify config = .ok q) :
    ∃ r, q.plan.qualify config = .ok r ∧
      (r.plan = q.plan ↔ ∀ n ∈ q.plan.nodes, n.SettledAt config) :=
  (tidy_of_qualify h).qualify

/-- Employees of one place, walked along their line of command. -/
def localLine : Plan :=
  hierarchical
    (aliased "e"
      (filter (.compare (.col (.plain 3 "place")) .eq (.lit (.str "here")))
        (relation "emp" [.plain 1 "id", .plain 2 "boss", .plain 3 "place"] true)))
    none (.compare (.col (.plain 1 "id")) .eq (.col (.plain 2 "boss"))) false

/-- The same qualified, with the clause of the walk under some alias. -/
def localLineUnder (label : String) : Plan :=
  aliased "e"
    (hierarchical
      (filter (.compare (.col ⟨3, "place", ["table1"]⟩) .eq (.lit (.str "here")))
        (aliased "table1"
          (relation "emp" [.plain 1 "id", .plain 2 "boss", .plain 3 "place"] true)))
      none (.compare (.col ⟨1, "id", [label]⟩) .eq (.col ⟨2, "boss", [label]⟩)) false)

theorem qualify_localLine : localLine.qualify {} = .ok ⟨localLineUnder "e", []⟩ := rfl

theorem qualify_again_localLine : ∃ r, (localLineUnder "e").qualify {} = .ok r ∧
    (r.plan = localLineUnder "e" ↔ ∀ n ∈ (localLineUnder "e").nodes, n.SettledAt {}) :=
  qualify_again qualify_localLine

/-- The alias under which the walk was qualified stands above it now, and the second pass qualifies
it by the alias of the table inside. -/
theorem qualify_localLineUnder :
    (localLineUnder "e").qualify {} = .ok ⟨localLineUnder "table1", []⟩ ∧
      localLineUnder "table1" ≠ localLineUnder "e" :=
  ⟨rfl, fun h => absurd (congrArg allReferences h) (by decide)⟩

/-! ## Plans without walks -/

/-- Without walks every node is settled. -/
theorem settledAt_of_no_walk {config : Config} {p n : Plan}
    (hwalks : ∀ m ∈ p.nodes, m.isWalk = false) (hn : n ∈ p.nodes) : n.SettledAt config := by
  cases n with
  | hierarchical input startWith connectBy noCycle => cases hwalks _ hn
  | aliased label input =>
    intro hwalk c hc
    have hinput : input ∈ (aliased label input).nodes := by
      rw [nodes, nodes_eq input]
      simp
    cases input with
    | relation name columns tableLike => cases hc
    | hierarchical input startWith connectBy noCycle => cases hwalks _ (nodes_trans hinput hn)
    | _ => cases hwalk
  | _ => trivial

/-- Qualifying a qualified plan without walks gives it back. -/
theorem qualify_again_of_no_walk {config : Config} {p : Plan} {q : Qualified}
    (h : p.qualify config = .ok q) (hwalks : ∀ n ∈ q.plan.nodes, n.isWalk = false) :
    ∃ r, q.plan.qualify config = .ok r ∧ r.plan = q.plan := by
  obtain ⟨r, hr, hsame⟩ := (tidy_of_qualify h).qualify
  exact ⟨r, hr, hsame.mpr fun n hn => settledAt_of_no_walk hwalks hn⟩

end Plan

end QueryPlan
