import QueryPlan.Proofs.Erasure

/-!
# Every reference is under the alias nearest to it

A node is qualified in the middle of the pass, over inputs that are finished and below nodes that
are not.  Later steps put aliases around it and move aliases, but they leave the plan below it
alone: the only node that is changed again is a walk over a relation whose generated alias is taken
back.  So the alias that an operator has seen for a column is the alias nearest to that column in
the finished plan, and the references reported are those without one.

`Plan.operators` lists the operators of a plan in the order in which they are finished.  Aliases are
left out, so that the lists before and after qualifying go together, operator by operator
(`Accounts`).
-/

set_option autoImplicit false

namespace QueryPlan.Plan

/-! ## The operators of a plan -/

/-- The operators of a plan without its aliases, each after its inputs. -/
def operators : Plan → List Plan
  | relation name columns tableLike => [relation name columns tableLike]
  | aliased _ input => operators input
  | join kind left right condition =>
    operators left ++ operators right ++ [join kind left right condition]
  | hierarchical input startWith connectBy noCycle =>
    operators input ++ [hierarchical input startWith connectBy noCycle]
  | project exprs input => operators input ++ [project exprs input]
  | filter predicate input => operators input ++ [filter predicate input]
  | aggregate isPartial groupBy aggregates input =>
    operators input ++ [aggregate isPartial groupBy aggregates input]
  | sort keys input => operators input ++ [sort keys input]
  | limit count offset input => operators input ++ [limit count offset input]
  | scan table columns source => [scan table columns source]

theorem operators_of_isLeaf {p : Plan} (h : p.isLeaf) : p.operators = [p] := by
  cases p <;> first | rfl | cases h

theorem Unary.operators {op : Plan → Plan} (h : Unary op) (x : Plan) :
    (op x).operators = x.operators ++ [op x] := by cases h <;> rfl

/-- Whatever is not an alias comes after its inputs. -/
theorem operators_eq {p : Plan} (h : ∀ label x, p ≠ aliased label x) :
    p.operators = p.children.flatMap operators ++ [p] := by
  cases p with
  | aliased label x => exact absurd rfl (h label x)
  | _ => simp [operators, children]

theorem operators_mapColumns (g : Column → Column) {p : Plan} (h : ∀ label x, p ≠ aliased label x) :
    (p.mapColumns g).operators = p.children.flatMap operators ++ [p.mapColumns g] := by
  cases p with
  | aliased label x => exact absurd rfl (h label x)
  | _ => simp [operators, children, mapColumns, mapExprs]

theorem operators_raiseAlias (p : Plan) : p.raiseAlias.operators = p.operators := by
  unfold raiseAlias
  split <;> rfl

/-- The operators are the nodes that are not aliases. -/
theorem mem_operators {n p : Plan} :
    n ∈ p.operators ↔ n ∈ p.nodes ∧ ∀ label x, n ≠ aliased label x := by
  induction p using children_induction with
  | step p ih =>
    by_cases hp : ∃ label x, p = aliased label x
    · obtain ⟨label, x, rfl⟩ := hp
      have hx := ih x (by simp [children])
      constructor
      · intro hn
        obtain ⟨hn, hnot⟩ := hx.mp hn
        exact ⟨List.mem_cons_of_mem _ hn, hnot⟩
      · rintro ⟨hn, hnot⟩
        rcases List.mem_cons.mp hn with rfl | hn
        · exact absurd rfl (hnot label x)
        · exact hx.mpr ⟨hn, hnot⟩
    · push Not at hp
      rw [operators_eq hp, nodes_eq, List.mem_append, List.mem_flatMap, List.mem_singleton,
        List.mem_cons, List.mem_flatMap]
      constructor
      · rintro (⟨x, hx, hn⟩ | rfl)
        · obtain ⟨hn, hnot⟩ := (ih x hx).mp hn
          exact ⟨.inr ⟨x, hx, hn⟩, hnot⟩
        · exact ⟨.inl rfl, hp⟩
      · rintro ⟨rfl | ⟨x, hx, hn⟩, hnot⟩
        · exact .inr rfl
        · exact .inl ⟨x, hx, (ih x hx).mpr ⟨hn, hnot⟩⟩

/-! ## Before and after -/

/-- Whether a node is a hierarchical walk. -/
def isWalk : Plan → Bool
  | hierarchical .. => true
  | _ => false

/-- Whether a node is a walk whose input comes out of the pass under an alias, which then moves
above the walk. -/
def walksUnderAlias (config : Config) : Plan → Bool
  | hierarchical input .. => input.comesAliased config
  | _ => false

/-- What qualifying makes of an operator. -/
structure QualifiesTo (m n : Plan) : Prop where
  /-- Nothing changes but aliases and qualifiers. -/
  erase_eq : n.erase = m.erase
  /-- Each reference is under the alias nearest to it; if there is none it stays as it was. -/
  references : n.isWalk = false →
    n.ownReferences = m.ownReferences.map fun c => c.under (n.nearestAlias? c.id)

/-- Whether a reference of an operator `m` that became `n` has found an alias: one below the
operator, or the one that has moved from below a walk to above it. -/
def findsAlias (config : Config) (m n : Plan) (c : Column) : Bool :=
  (n.nearestAlias? c.id).isSome || m.walksUnderAlias config && n.produces c.id

/-- The references of an operator `m` that became `n` for which no alias was found, as they stood in
`m`. -/
def openReferences (config : Config) (m n : Plan) : List Unresolved :=
  (m.ownReferences.filter fun c => !findsAlias config m n c).map (⟨·, m.kind⟩)

theorem isWalk_mapColumns (g : Column → Column) (p : Plan) :
    (p.mapColumns g).isWalk = p.isWalk := by
  cases p <;> rfl

section Node

variable {config : Config} {m n y : Plan}

/-- A node whose references have been given the aliases that it sees. -/
theorem qualifiesTo_seenFrom (herase : n.erase = m.erase)
    (hrefs : n.ownReferences = m.ownReferences)
    (hy : ∀ id, y.nearestAlias? id = n.nearestAlias? id) : QualifiesTo m (n.seenFrom y) where
  erase_eq := (erase_seenFrom n y).trans herase
  references _ := by
    simp only [seenFrom, ownReferences_mapColumns, nearestAlias?_mapColumns, hrefs, hy]

theorem openReferences_seenFrom (hm : m.walksUnderAlias config = false)
    (hy : ∀ id, y.nearestAlias? id = n.nearestAlias? id) :
    openReferences config m (n.seenFrom y) = m.unresolved y.scope := by
  simp only [openReferences, findsAlias, hm, Bool.false_and, Bool.or_false, unresolved_scope,
    seenFrom, nearestAlias?_mapColumns, hy, Option.not_isSome]

end Node

/-- The operators `ns` are what qualifying makes of `ms`, and `us` are the references among them for
which no alias was found. -/
structure Accounts (config : Config) (ms ns : List Plan) (us : List Unresolved) : Prop where
  qualified : List.Forall₂ QualifiesTo ms ns
  unresolved : us = (List.zipWith (openReferences config) ms ns).flatten

namespace Accounts

variable {config : Config} {ms ns ms' ns' : List Plan} {us us' : List Unresolved} {m n : Plan}

theorem single (h : QualifiesTo m n) : Accounts config [m] [n] (openReferences config m n) :=
  ⟨.cons h .nil, by simp⟩

theorem append (h : Accounts config ms ns us) (h' : Accounts config ms' ns' us') :
    Accounts config (ms ++ ms') (ns ++ ns') (us ++ us') where
  qualified := List.rel_append h.qualified h'.qualified
  unresolved := by
    rw [List.zipWith_append h.qualified.length_eq, List.flatten_append, ← h.unresolved,
      ← h'.unresolved]

/-- Changing the qualifiers of a walk once more makes no difference. -/
theorem mapColumns_last {g : Column → Column} (hg : ∀ c, (g c).unqualified = c.unqualified)
    (hn : n.isWalk = true) (h : Accounts config ms (ns ++ [n]) us) :
    Accounts config ms (ns ++ [n.mapColumns g]) us := by
  obtain ⟨ms', m, hms, hm, rfl⟩ :=
    forall₂_concat_iff.mp (List.Forall₂.flip (R := flip _) h.qualified)
  have hlength : ms'.length = ns.length := hms.length_eq.symm
  have hlast : QualifiesTo m (n.mapColumns g) :=
    { erase_eq := (erase_mapColumns hg n).trans hm.erase_eq
      references := fun hwalk => by simp [isWalk_mapColumns, hn] at hwalk }
  have hopen : openReferences config m (n.mapColumns g) = openReferences config m n := by
    simp only [openReferences, findsAlias, nearestAlias?_mapColumns,
      produces_of_erase_eq (erase_mapColumns hg n)]
  refine ⟨List.rel_append hms.flip (.cons hlast .nil), ?_⟩
  rw [h.unresolved, List.zipWith_append hlength, List.zipWith_append hlength,
    List.zipWith_cons_cons, List.zipWith_cons_cons, hopen]

/-- An operator that has been given the aliases which it sees comes after its inputs. -/
theorem seenFrom {y : Plan} (h : Accounts config ms ns us) (herase : n.erase = m.erase)
    (hrefs : n.ownReferences = m.ownReferences)
    (hy : ∀ id, y.nearestAlias? id = n.nearestAlias? id) (hm : m.walksUnderAlias config = false) :
    Accounts config (ms ++ [m]) (ns ++ [n.seenFrom y]) (us ++ m.unresolved y.scope) := by
  rw [← openReferences_seenFrom hm hy]
  exact h.append (.single (qualifiesTo_seenFrom herase hrefs hy))

end Accounts

theorem accounts_of_isLeaf (config : Config) {p : Plan} (hleaf : p.isLeaf) :
    Accounts config p.operators p.operators [] := by
  have hrefs : p.ownReferences = [] := by cases p <;> first | rfl | cases hleaf
  have hopen : openReferences config p p = [] := by simp [openReferences, hrefs]
  have hself : QualifiesTo p p := ⟨rfl, fun _ => by simp [hrefs]⟩
  rw [operators_of_isLeaf hleaf, ← hopen]
  exact .single hself

/-- A walk whose alias moves above it. -/
theorem openReferences_raised {config : Config} {p x : Plan} (label : String)
    (startWith : Option Expr) (connectBy : Expr) (noCycle : Bool) (halias : p.comesAliased config) :
    openReferences config (hierarchical p startWith connectBy noCycle)
        ((hierarchical x startWith connectBy noCycle).seenFrom (aliased label x))
      = (hierarchical p startWith connectBy noCycle).unresolved (aliased label x).scope := by
  have hproduces (id : ColumnId) :
      ((hierarchical x startWith connectBy noCycle).seenFrom (aliased label x)).produces id
        = x.produces id :=
    rfl
  have hfound (c : Column) : findsAlias config (hierarchical p startWith connectBy noCycle)
      ((hierarchical x startWith connectBy noCycle).seenFrom (aliased label x)) c
      = ((aliased label x).nearestAlias? c.id).isSome := by
    rw [findsAlias, seenFrom, nearestAlias?_mapColumns, nearestAlias?_hierarchical,
      nearestAlias?_aliased, walksUnderAlias, halias, Bool.true_and]
    rw [← seenFrom, hproduces]
    cases x.produces c.id <;> simp
  simp only [openReferences, hfound, unresolved_scope, Option.not_isSome]

theorem Passes.accounts {config : Config} {k : Nat} {p : Plan} {r : Pass}
    (h : Passes config k p r) : Accounts config p.operators r.plan.operators r.unresolved := by
  induction h with
  | @leaf k p hleaf hbare =>
    exact accounts_of_isLeaf config hleaf
  | @table k p htable =>
    exact accounts_of_isLeaf config (isLeaf_of_getsAlias htable)
  | @renamed k n p x us old label below ih =>
    obtain ⟨_, _, hx, hwalk⟩ := below.tableWalk_of_generated rfl
    obtain ⟨-, rfl⟩ := aliased.inj hx
    cases x with
    | hierarchical y startWith connectBy noCycle =>
      exact ih.mapColumns_last (unqualified_renameQualifier old label) rfl
    | relation name columns tableLike => exact ih
    | _ => cases hwalk
  | aliased label below ih => exact ih
  | @raised k n p x generated us label startWith connectBy noCycle below hsingle ih =>
    have halias := below.comesAliased_iff.mpr ⟨label, x, rfl⟩
    have herase : x.erase = p.erase := below.erase_eq
    rw [← openReferences_raised label startWith connectBy noCycle halias]
    exact ih.append
      (.single ⟨(erase_seenFrom _ _).trans (erase_hierarchical_congr _ _ _ herase), nofun⟩)
  | @walk k n p x generated us startWith connectBy noCycle below hbare hsingle ih =>
    exact ih.seenFrom (erase_hierarchical_congr _ _ _ below.erase_eq) rfl
      (fun id => (nearestAlias?_hierarchical x _ _ _ id).symm) (below.comesAliased_of_bare hbare)
  | @join k m n p q x y generated generated' us us' kind condition left right hsingle ihp ihq =>
    have herase := erase_join_congr kind condition
      ((erase_raiseAlias x).trans left.erase_eq) ((erase_raiseAlias y).trans right.erase_eq)
    have hbelow := ihp.append ihq
    rw [← operators_raiseAlias x, ← operators_raiseAlias y] at hbelow
    exact hbelow.seenFrom herase rfl (fun _ => rfl) rfl
  | @unary k n p x generated us op hop below hsingle ih =>
    have hplain : (op p).walksUnderAlias config = false := by cases hop <;> rfl
    rw [hop.operators, seenFrom, operators_mapColumns _ hop.ne_aliased, hop.children,
      List.flatMap_singleton]
    exact ih.seenFrom (hop.erase_congr below.erase_eq) (hop.ownReferences x p)
      (fun id => (hop.nearestAlias? x id).symm) hplain

/-- **Every reference is under the alias nearest to it.**  Operator by operator, a reference of the
qualified plan carries the alias that is nearest to it in that plan, and is what it was before where
there is none; hierarchical walks apart, whose alias stands above them.  The references reported are
those for which no alias was found, walks included, in the order of the operators. -/
theorem qualify_nearest {config : Config} {p : Plan} {q : Qualified}
    (h : p.qualify config = .ok q) :
    List.Forall₂ QualifiesTo p.operators q.plan.operators ∧
      q.unresolved
        = (List.zipWith (openReferences config) p.operators q.plan.operators).flatten := by
  obtain ⟨r, hpass, hr⟩ := bind_eq_ok_iff.mp h
  cases hr
  have haccounts := (pass_eq_ok_iff.mp hpass).accounts
  exact ⟨haccounts.qualified, haccounts.unresolved⟩

/-- Places in the order of their tags. -/
def tagged : Plan :=
  sort [⟨.col (.plain 4 "tag"), true⟩]
    (project [.named (.col (.plain 3 "place")) (.plain 4 "tag")]
      (relation "emp" [.plain 3 "place"] true))

/-- The same qualified.  The tag is a new column, which no alias covers. -/
def qualifiedTagged : Plan :=
  sort [⟨.col (.plain 4 "tag"), true⟩]
    (project [.named (.col ⟨3, "place", ["table1"]⟩) (.plain 4 "tag")]
      (aliased "table1" (relation "emp" [.plain 3 "place"] true)))

theorem qualify_tagged :
    tagged.qualify {} = .ok ⟨qualifiedTagged, [⟨.plain 4 "tag", "Sort"⟩]⟩ := rfl

theorem qualify_nearest_tagged :
    List.Forall₂ QualifiesTo tagged.operators qualifiedTagged.operators ∧
    [⟨.plain 4 "tag", "Sort"⟩]
      = (List.zipWith (openReferences {}) tagged.operators qualifiedTagged.operators).flatten :=
  qualify_nearest qualify_tagged

end QueryPlan.Plan
