import QueryPlan.Proofs.SecondPass

/-!
# Walks belong to the alias above them

A hierarchical walk is written under the alias that stands above it, with nothing but further walks
in between, and its clauses are to name that alias.  The pass qualifies them while the alias is
still below the walk and moves it afterwards; an alias of the plan's own may then replace it.  This
file follows the clauses of every walk through that.

* `Plan.walks` lists the walks of a plan, each with the alias above it, in the order in which the
  pass comes to them.
* `Owns` says that an alias owns the clauses of a walk: the references to what is walked are
  qualified by it, and no other reference has lost the alias that it needs.
* `WalksTo` compares a walk of the plan with what qualifying makes of it, and `qualify_walks` says
  that the two lists agree in this way, walk by walk.

## What becomes of one walk

* **Its alias moves above it.**  The input came out of the pass under an alias.  The clauses are
  qualified by what is seen from under that alias, so the alias owns them (`owns_raised`).
* **Another alias takes over.**  An alias of the plan's own stands above a generated one, which is
  taken back.  What was qualified by it is qualified by the new one (`Owns.moveQualifiers`).
* **It stands over no alias.**  The input came under none, as a relation that gets no alias does.  A
  reference that nothing below covers stays as it was, even if there is an alias above
  (`mem_ownReferences_of_uncovered`).  `viewedLine` is such a plan.

## Several walks over one relation

Walks that stand right above each other have the same alias above them.  When it moves or is
replaced, the entries of all of them change (`walks_under`), but the renaming reaches the clauses of
the outermost one only: an inner walk keeps the generated alias that is taken back.  So nothing is
said of an inner walk of several over one relation when an alias of the plan's own stands above them
(`WalkAt.isOwned`).

## The induction

`Passes.walks_forall₂` goes along the steps of the pass.  A generated alias that has come out of a
step may still be taken back by the next one.  The statement about the step counts it as kept, and
therefore asks that the plan does not stand under another alias then; where one does take it back,
`Passes.walks_renamed` corrects the list.  What stood right above a walk before the pass need not
stand there afterwards, so the flags for this are independent of each other.
-/

set_option autoImplicit false

namespace QueryPlan.Plan

/-! ## Walks and their aliases -/

/-- A walk in a plan. -/
structure WalkAt where
  /-- The alias that stands above it with nothing but walks in between. -/
  owner : Option String
  /-- Whether another walk stands right above it. -/
  inner : Bool
  node : Plan

/-- The walks of a plan, each after those in its input, where the plan stands under `owner`, and
`inner` says whether right under a walk. -/
def walks (owner : Option String) (inner : Bool) : Plan → List WalkAt
  | relation .. | scan .. => []
  | aliased label input => walks (some label) false input
  | hierarchical input startWith connectBy noCycle =>
    walks owner true input ++ [⟨owner, inner, hierarchical input startWith connectBy noCycle⟩]
  | join _ left right _ => walks none false left ++ walks none false right
  | project _ input | filter _ input | aggregate _ _ _ input | sort _ input | limit _ _ input =>
    walks none false input

theorem Unary.walks {op : Plan → Plan} (h : Unary op) (owner : Option String) (inner : Bool)
    (x : Plan) : (op x).walks owner inner = x.walks none false := by cases h <;> rfl

theorem walks_raiseAlias (p : Plan) : p.raiseAlias.walks none false = p.walks none false := by
  unfold raiseAlias
  split <;> rfl

theorem walks_of_isLeaf {p : Plan} (h : p.isLeaf) (owner : Option String) (inner : Bool) :
    p.walks owner inner = [] := by
  cases p <;> first | rfl | cases h

/-- An alias owns the clauses of a walk `n` that was `m`: it qualifies the references to what is
walked, and any other is under it too, or under an alias that stands below, or as it was in `m`. -/
structure Owns (label : String) (m n : Plan) : Prop where
  covered : ∀ c ∈ n.ownReferences, n.produces c.id = true → c.qualifiers = [label]
  others : ∀ c ∈ n.ownReferences, c.qualifiers = [label] ∨
    (∃ l, n.nearestAlias? c.id = some l ∧ c.qualifiers = [l]) ∨ c ∈ m.ownReferences

/-- Whether the alias above a walk is to own it: its input comes out of the pass under an alias, and
the walk is not an inner one of several over a relation whose generated alias is taken back. -/
def WalkAt.isOwned (config : Config) (m : WalkAt) : Bool :=
  m.node.walksUnderAlias config && !(m.inner && m.owner.isSome && m.node.isTableWalk config)

/-- What qualifying makes of a walk. -/
structure WalksTo (config : Config) (m n : WalkAt) : Prop where
  /-- Nothing changes but aliases and qualifiers. -/
  erase_eq : n.node.erase = m.node.erase
  /-- The alias above it owns it. -/
  owned : m.isOwned config = true → ∃ label, n.owner = some label ∧ Owns label m.node n.node
  /-- Without an alias right below, references that nothing covers stay as they were. -/
  kept : m.node.walksUnderAlias config = false → ∀ c ∈ n.node.ownReferences,
    n.node.nearestAlias? c.id = none → c ∈ m.node.ownReferences

/-! ## One walk -/

section Node

variable {config : Config} {x p : Plan} {startWith : Option Expr} {connectBy : Expr}
  {noCycle : Bool}

/-- A walk whose alias moves above it. -/
theorem owns_raised (label : String) :
    Owns label (hierarchical p startWith connectBy noCycle)
      ((hierarchical x startWith connectBy noCycle).seenFrom (aliased label x)) := by
  have hseen (d : Column) : (aliased label x).nearestAlias? d.id
      = if x.produces d.id then some label else x.nearestAlias? d.id :=
    nearestAlias?_aliased label x d.id
  have hproduces (d : Column) (l : Option String) :
      ((hierarchical x startWith connectBy noCycle).seenFrom (aliased label x)).produces
        (d.under l).id = x.produces d.id := by
    rw [Column.id_under]
    rfl
  constructor
  · intro c hc hproduced
    rw [seenFrom, ownReferences_mapColumns] at hc
    obtain ⟨d, -, rfl⟩ := List.mem_map.mp hc
    rw [hproduces] at hproduced
    rw [hseen, if_pos hproduced]
    rfl
  · intro c hc
    rw [seenFrom, ownReferences_mapColumns] at hc
    obtain ⟨d, hd, rfl⟩ := List.mem_map.mp hc
    rw [seenFrom, nearestAlias?_mapColumns, nearestAlias?_hierarchical, Column.id_under, hseen]
    split
    · exact .inl rfl
    · cases hbelow : x.nearestAlias? d.id with
      | some l => exact .inr (.inl ⟨l, rfl, rfl⟩)
      | none => exact .inr (.inr hd)

/-- Renaming hands a walk over to the new alias. -/
theorem Owns.moveQualifiers {m n : Plan} {old : String} (h : Owns old m n) (label : String) :
    Owns label m (n.moveQualifiers old label) := by
  have hproduces (id : ColumnId) : (n.moveQualifiers old label).produces id = n.produces id :=
    produces_of_erase_eq (erase_moveQualifiers old label n) id
  constructor
  · intro c hc hproduced
    rw [Plan.moveQualifiers, ownReferences_mapColumns] at hc
    obtain ⟨d, hd, rfl⟩ := List.mem_map.mp hc
    rw [hproduces, id_renameQualifier] at hproduced
    exact qualifiers_renameQualifier label (h.covered d hd hproduced)
  · intro c hc
    rw [Plan.moveQualifiers, ownReferences_mapColumns] at hc
    obtain ⟨d, hd, rfl⟩ := List.mem_map.mp hc
    by_cases hold : d.qualifiers = [old]
    · exact .inl (qualifiers_renameQualifier label hold)
    · have hsame : renameQualifier old label d = d :=
        if_neg fun h => hold ((d.qualifier?_eq_some_iff old).mp h)
      rw [hsame, Plan.moveQualifiers, nearestAlias?_mapColumns]
      exact .inr ((h.others d hd).resolve_left hold)

/-- A walk that stands over no alias. -/
theorem mem_ownReferences_of_uncovered {m n y : Plan} (hrefs : n.ownReferences = m.ownReferences)
    (hy : ∀ id, y.nearestAlias? id = n.nearestAlias? id) :
    ∀ c ∈ (n.seenFrom y).ownReferences, (n.seenFrom y).nearestAlias? c.id = none →
      c ∈ m.ownReferences := by
  intro c hc huncovered
  rw [seenFrom, ownReferences_mapColumns] at hc
  obtain ⟨d, hd, rfl⟩ := List.mem_map.mp hc
  rw [seenFrom, nearestAlias?_mapColumns, Column.id_under, ← hy] at huncovered
  rw [huncovered]
  exact hrefs ▸ hd

end Node

/-! ## Chains of walks -/

section TableWalks

variable {config : Config} {w : Plan}

/-- Over a relation that gets an alias, the alias above the walks is the same for all of them. -/
theorem walks_under (h : w.isTableWalk config = true) (owner owner' : Option String)
    (inner : Bool) : w.walks owner' inner
      = (w.walks owner inner).map fun m => { m with owner := owner' } := by
  induction w, h using tableWalkInduction generalizing inner with
  | table name columns tableLike h => rfl
  | walk w startWith connectBy noCycle h ih => rw [walks, walks, List.map_append, ih true]; rfl

theorem inner_of_mem_walks (h : w.isTableWalk config = true) (owner : Option String) :
    ∀ m ∈ w.walks owner true, m.inner = true ∧ m.node.isTableWalk config = true := by
  induction w, h using tableWalkInduction with
  | table name columns tableLike h => exact nofun
  | walk w startWith connectBy noCycle h ih =>
    rw [walks, List.forall_mem_append]
    exact ⟨ih, List.forall_mem_singleton.mpr ⟨rfl, h⟩⟩

end TableWalks

/-! ## The pass -/

section Passing

variable {config : Config} {k : Nat} {p : Plan} {r : Pass}

/-- Whether another walk stands above the last one does not matter afterwards. -/
theorem forall₂_walks_inner {ms : List WalkAt} {x : Plan} {owner : Option String} {inner : Bool}
    (inner' : Bool) (h : List.Forall₂ (WalksTo config) ms (x.walks owner inner)) :
    List.Forall₂ (WalksTo config) ms (x.walks owner inner') := by
  cases x with
  | hierarchical y startWith connectBy noCycle =>
    obtain ⟨ms', m, hms, hm, rfl⟩ := forall₂_concat_iff.mp (List.Forall₂.flip (R := flip _) h)
    exact List.rel_append hms.flip (.cons ⟨hm.erase_eq, hm.owned, hm.kept⟩ .nil)
  | _ => exact h

/-- Nothing is claimed of inner walks over one relation under an alias of the plan's own: they keep
the generated alias that is taken back. -/
theorem forall₂_walks_under {w w' : Plan} (hw : w.isTableWalk config = true)
    (hw' : w'.isTableWalk config = true) {old : Option String} (label : String)
    (h : List.Forall₂ (WalksTo config) (w.walks none true) (w'.walks old true)) :
    List.Forall₂ (WalksTo config) (w.walks (some label) true) (w'.walks (some label) true) := by
  rw [walks_under hw none, walks_under hw' old, List.forall₂_map_left_iff,
    List.forall₂_map_right_iff]
  refine forall₂_imp_of_mem h fun m hm n _ hmn => ⟨hmn.erase_eq, fun howned => ?_, hmn.kept⟩
  obtain ⟨hinner, htable⟩ := inner_of_mem_walks hw none m hm
  simp [WalkAt.isOwned, hinner, htable] at howned

/-- A walk right under an alias of the plan's own that takes over a generated one. -/
theorem WalksTo.moveQualifiers {m n : Plan} {old : String}
    (halias : m.walksUnderAlias config = true)
    (h : WalksTo config ⟨none, false, m⟩ ⟨some old, false, n⟩) (label : String) :
    WalksTo config ⟨some label, false, m⟩ ⟨some label, false, n.moveQualifiers old label⟩ where
  erase_eq := (erase_moveQualifiers old label n).trans h.erase_eq
  owned _ := by
    obtain ⟨_, hold, howns⟩ := h.owned (by simpa [WalkAt.isOwned] using halias)
    cases hold
    exact ⟨label, rfl, howns.moveQualifiers label⟩
  kept hplain := by cases halias.symm.trans hplain

theorem Passes.walks_renamed {n : Nat} {x : Plan} {us : List Unresolved} {old : String}
    (below : Passes config k p ⟨Plan.aliased old x, true, n, us⟩) (label : String)
    (h : List.Forall₂ (WalksTo config) (p.walks none false) (x.walks (some old) false)) :
    List.Forall₂ (WalksTo config) (p.walks (some label) false)
      ((x.moveQualifiers old label).walks (some label) false) := by
  obtain ⟨_, _, hx, hwalk⟩ := below.tableWalk_of_generated rfl
  obtain ⟨-, rfl⟩ := Plan.aliased.inj hx
  have hp := below.isTableWalk_of_generated rfl
  have halias : p.comesAliased config = true := below.comesAliased_iff.mpr ⟨old, x, rfl⟩
  cases x with
  | relation name columns tableLike =>
    rw [walks_under hp none, List.forall₂_nil_right_iff.mp h]
    exact .nil
  | hierarchical y startWith connectBy noCycle =>
    obtain ⟨ms, m, hms, hm, hlist⟩ := forall₂_concat_iff.mp (List.Forall₂.flip (R := flip _) h)
    cases p with
    | hierarchical p startWith' connectBy' noCycle' =>
      obtain ⟨rfl, hlast⟩ := List.append_inj' hlist rfl
      obtain rfl := List.singleton_inj.mp hlast
      have hwalks : (hierarchical p startWith' connectBy' noCycle').walksUnderAlias config = true :=
        halias
      exact List.rel_append (@forall₂_walks_under config p y hp hwalk _ label hms.flip)
        (.cons (WalksTo.moveQualifiers hwalks hm label) .nil)
    | relation name columns tableLike => simp [Plan.walks] at hlist
    | _ => cases hp
  | _ => cases hwalk

/-- The walks after the pass.  A generated alias that may still be taken back counts as kept, so the
plan must not stand under another one then. -/
theorem Passes.walks_forall₂ (h : Passes config k p r) {owner : Option String}
    (howner : r.generated = true → owner = none) (inner inner' : Bool) :
    List.Forall₂ (WalksTo config) (p.walks owner inner) (r.plan.walks owner inner') := by
  induction h generalizing owner inner inner' with
  | @leaf k p hleaf hbare =>
    rw [walks_of_isLeaf hleaf, walks_of_isLeaf hleaf]
    exact .nil
  | @table k p htable =>
    have hleaf := isLeaf_of_getsAlias htable
    rw [walks, walks_of_isLeaf hleaf, walks_of_isLeaf hleaf]
    exact .nil
  | renamed label below ih => exact below.walks_renamed label (ih (fun _ => rfl) false false)
  | aliased label below ih => exact ih nofun false false
  | @raised k n p x generated us label startWith connectBy noCycle below hsingle ih =>
    have halias := below.comesAliased_iff.mpr ⟨label, x, rfl⟩
    have hlast : WalksTo config ⟨owner, inner, hierarchical p startWith connectBy noCycle⟩
        ⟨some label, false,
          (hierarchical x startWith connectBy noCycle).seenFrom (Plan.aliased label x)⟩ :=
      { erase_eq := (erase_seenFrom _ _).trans (erase_hierarchical_congr _ _ _ below.erase_eq)
        owned := fun _ => ⟨label, rfl, owns_raised label⟩
        kept := fun hplain => by cases halias.symm.trans hplain }
    have hbelow : List.Forall₂ (WalksTo config) (p.walks owner true) (x.walks (some label) false) :=
      ih howner true false
    exact List.rel_append (forall₂_walks_inner true hbelow) (.cons hlast .nil)
  | @walk k n p x generated us startWith connectBy noCycle below hbare hsingle ih =>
    have hkept : generated = false := below.generated_of_bare hbare
    have hplain : p.comesAliased config = false := below.comesAliased_of_bare hbare
    have hlast : WalksTo config ⟨owner, inner, hierarchical p startWith connectBy noCycle⟩
        ⟨owner, inner', (hierarchical x startWith connectBy noCycle).seenFrom x⟩ :=
      { erase_eq := (erase_seenFrom _ _).trans (erase_hierarchical_congr _ _ _ below.erase_eq)
        owned := fun howned => by simp [WalkAt.isOwned, walksUnderAlias, hplain] at howned
        kept := fun _ => mem_ownReferences_of_uncovered rfl fun id =>
          (nearestAlias?_hierarchical x _ _ _ id).symm }
    exact List.rel_append (ih (by simp [hkept]) true true) (.cons hlast .nil)
  | @join k m n p q x y generated generated' us us' kind condition left right hsingle ihl ihr =>
    have h := List.rel_append (ihl (fun _ => rfl) false false) (ihr (fun _ => rfl) false false)
    rwa [← walks_raiseAlias x, ← walks_raiseAlias y] at h
  | @unary k n p x generated us op hop below hsingle ih =>
    obtain ⟨op', hop', hop_eq⟩ := hop.mapColumns fun c => c.under (x.nearestAlias? c.id)
    rw [seenFrom, hop_eq, hop.walks, hop'.walks]
    exact ih (fun _ => rfl) false false

end Passing

/-- **Walks belong to the alias above them.**  Walk by walk, a walk whose input came under an alias
stands under an alias in the qualified plan, and its references to what is walked are qualified by
that one; any other is under it too, or under an alias that stands below, or as it was.  Inner walks
over one relation under an alias of the plan's own are left out.  A walk whose input came under no
alias keeps the references that nothing below covers. -/
theorem qualify_walks {config : Config} {p : Plan} {q : Qualified} (h : p.qualify config = .ok q) :
    List.Forall₂ (WalksTo config) (p.walks none false) (q.plan.walks none false) := by
  obtain ⟨r, hpasses, hplan, -⟩ := exists_passes h
  rw [← hplan]
  exact hpasses.walks_forall₂ (fun _ => rfl) false false

theorem qualify_walks_localLine :
    List.Forall₂ (WalksTo {}) (localLine.walks none false)
      ((localLineUnder "e").walks none false) :=
  qualify_walks qualify_localLine

/-- A walk over a view under an alias.  A view gets no alias of its own. -/
def viewedLine : Plan :=
  aliased "e"
    (hierarchical (relation "v_emp" [.plain 1 "id", .plain 2 "boss"] false) none
      (.compare (.col (.plain 1 "id")) .eq (.col (.plain 2 "boss"))) false)

/-- Nothing below the walk covers its references, so they stay as they are under the alias above and
are reported. -/
theorem qualify_viewedLine :
    viewedLine.qualify {} = .ok ⟨viewedLine,
        [⟨.plain 1 "id", "Hierarchical"⟩, ⟨.plain 2 "boss", "Hierarchical"⟩]⟩ ∧
      ∃ n ∈ viewedLine.walks none false, n.owner = some "e" ∧
        ∃ c ∈ n.node.ownReferences, n.node.produces c.id = true ∧ c.qualifiers ≠ ["e"] :=
  ⟨rfl, _, List.mem_singleton_self _, rfl, .plain 1 "id", by decide, rfl, by decide⟩

end QueryPlan.Plan
