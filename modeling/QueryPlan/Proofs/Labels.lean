import QueryPlan.Proofs.InScope
import QueryPlan.Proofs.Numbering

/-!
# Aliases that name one relation

The pass numbers the aliases that it generates, so no two of them are the same
(`Config.generatedAlias_injective`), but it does not compare them with the aliases that the plan has
already.  If the plan uses each of its aliases once and none of them is a generated one, then no
alias names two things afterwards (`qualify_labels_nodup`).  Otherwise it may: an alias of the plan
can be generated once more for a relation (`qualify_captured`).

* `Plan.labels` lists the aliases of a plan.  The alias that is repeated around a projected side of
  a join stands twice over the same relation, and it is listed once.
* What a plan brings into a `FROM` clause is among its aliases (`introduced_sublist`), and so are
  the aliases that own a relation (`owners_sublist`).  Both are sublists of the list of aliases, so
  if that repeats nothing, then neither do they.
* The aliases after the pass are those before it and those that it has generated and kept
  (`Passes.perm_labels`).  The pass generates the next numbers in turn (`Config.aliasesFrom`), and
  one that it takes back it generates again, so the numbers in use are always the first ones.

The two sides of a join need most care: the aliases of both are in use then, and around one of the
sides an alias may have been repeated (`sideLabels_raiseAlias`).
-/

set_option autoImplicit false

namespace QueryPlan

/-! ## Generated aliases -/

theorem Config.generatedAlias_injective (config : Config) :
    Function.Injective config.generatedAlias := fun m n h => by
  have hdigits := congrArg String.toList ((String.append_right_inj _).mp h)
  simp only [toString, Nat.toList_repr] at hdigits
  rw [← Nat.ofDigitChars_ten_toDigits (n := m), hdigits, Nat.ofDigitChars_ten_toDigits]

/-- The generated aliases that come after the first `k`, as many as are asked for. -/
def Config.aliasesFrom (config : Config) (k count : Nat) : List String :=
  (List.range' (k + 1) count).map config.generatedAlias

theorem Config.nodup_aliasesFrom (config : Config) (k count : Nat) :
    (config.aliasesFrom k count).Nodup :=
  List.Nodup.map config.generatedAlias_injective (List.nodup_range' 1)

theorem Config.aliasesFrom_add (config : Config) (k m n : Nat) :
    config.aliasesFrom k (m + n) = config.aliasesFrom k m ++ config.aliasesFrom (k + m) n := by
  rw [aliasesFrom, aliasesFrom, aliasesFrom, ← List.map_append, Nat.add_right_comm k m 1,
    List.range'_append_1]

namespace Plan

/-! ## The aliases of a plan -/

/-- The alias that a node is. -/
def label? : Plan → Option String
  | aliased label _ => some label
  | _ => none

/-- The aliases of a plan. -/
def aliases (p : Plan) : List String := p.nodes.filterMap label?

/-- Whether a plan is a projection with the alias of its input around it as well. -/
def isRaised : Plan → Bool
  | aliased label (project _ (aliased inner _)) => inner == label
  | _ => false

/-- The aliases of a plan, where the alias that is repeated around a side of a join counts once. -/
def labels : Plan → List String
  | relation .. | scan .. => []
  | aliased label input => label :: labels input
  | join _ left right _ =>
    (if left.isRaised then (labels left).tail else labels left) ++
      if right.isRaised then (labels right).tail else labels right
  | hierarchical input _ _ _ | project _ input | filter _ input | aggregate _ _ _ input
  | sort _ input | limit _ _ input => labels input

/-- The aliases of a side of a join. -/
def sideLabels (p : Plan) : List String := if p.isRaised then p.labels.tail else p.labels

theorem labels_join (kind : JoinKind) (left right : Plan) (condition : Option Expr) :
    (join kind left right condition).labels = left.sideLabels ++ right.sideLabels := rfl

theorem sideLabels_sublist (p : Plan) : p.sideLabels.Sublist p.labels := by
  rw [sideLabels]
  split
  · exact List.tail_sublist _
  · exact .refl _

@[simp] theorem labels_mapColumns (g : Column → Column) (p : Plan) :
    (p.mapColumns g).labels = p.labels := by
  cases p <;> rfl

theorem labels_of_isLeaf {p : Plan} (h : p.isLeaf = true) : p.labels = [] := by
  cases p <;> first | rfl | cases h

theorem Unary.labels {op : Plan → Plan} (h : Unary op) (x : Plan) : (op x).labels = x.labels := by
  cases h <;> rfl

theorem Unary.sideLabels {op : Plan → Plan} (h : Unary op) (x : Plan) :
    (op x).sideLabels = x.labels := by
  cases h <;> rfl

theorem labels_of_isTableWalk {config : Config} {w : Plan} (h : w.isTableWalk config = true) :
    w.labels = [] := by
  induction w, h using tableWalkInduction with
  | table name columns tableLike h => rfl
  | walk w startWith connectBy noCycle h ih => exact ih

/-! ## Aliases that are listed once -/

/-- At an alias the alias itself comes first, unless it is repeated right below. -/
theorem sideLabels_aliased (label : String) (x : Plan) :
    (aliased label x).sideLabels = label :: x.labels ∨
      (aliased label x).sideLabels = x.labels ∧
        ∃ exprs y, x = project exprs (aliased label y) := by
  rw [sideLabels]
  split
  · next h =>
    refine .inr ⟨rfl, ?_⟩
    unfold isRaised at h
    split at h
    · next heq =>
      obtain ⟨rfl, rfl⟩ := aliased.inj heq
      obtain rfl := eq_of_beq h
      exact ⟨_, _, rfl⟩
    · cases h
  · exact .inl rfl

/-- The alias that is repeated around a side of a join counts once. -/
theorem sideLabels_raiseAlias {p : Plan} (h : p.labels.Nodup) :
    p.raiseAlias.sideLabels = p.labels := by
  unfold raiseAlias
  split
  · next exprs label input =>
    have hraised : (aliased label (project exprs (aliased label input))).isRaised = true :=
      beq_self_eq_true label
    rw [sideLabels, hraised]
    rfl
  · cases p with
    | aliased label x =>
      -- aliases that are all different do not look like a repeated one
      rcases sideLabels_aliased label x with hside | ⟨-, exprs, y, rfl⟩
      · exact hside
      · simp [labels] at h
    | _ => rfl

theorem sideLabels_sublist_of_mem_children {p x : Plan} (hx : x ∈ p.children) :
    x.sideLabels.Sublist p.sideLabels := by
  cases p using unaryInduction with
  | leaf p hleaf => simp [children_of_isLeaf hleaf] at hx
  | aliased label input =>
    obtain rfl := List.mem_singleton.mp hx
    rcases sideLabels_aliased label x with h | ⟨h, -⟩
    · exact h ▸ x.sideLabels_sublist.trans (List.sublist_cons_self _ _)
    · exact h ▸ x.sideLabels_sublist
  | hierarchical input startWith connectBy noCycle =>
    obtain rfl := List.mem_singleton.mp hx
    exact x.sideLabels_sublist
  | join kind left right condition =>
    show x.sideLabels.Sublist (left.sideLabels ++ right.sideLabels)
    obtain rfl | rfl : x = left ∨ x = right := by simpa [children] using hx
    · exact List.sublist_append_left _ _
    · exact List.sublist_append_right _ _
  | unary op hop input =>
    rw [hop.children] at hx
    obtain rfl := List.mem_singleton.mp hx
    rw [hop.sideLabels]
    exact x.sideLabels_sublist

theorem sideLabels_sublist_of_mem_nodes {n p : Plan} (hn : n ∈ p.nodes) :
    n.sideLabels.Sublist p.sideLabels := by
  induction p using children_induction with
  | step p ih =>
    rw [nodes_eq] at hn
    rcases List.mem_cons.mp hn with rfl | hn
    · exact .refl _
    · obtain ⟨x, hx, hn⟩ := List.mem_flatMap.mp hn
      exact (ih x hx hn).trans (sideLabels_sublist_of_mem_children hx)

/-- What a plan brings into a `FROM` clause is among its aliases. -/
theorem introduced_sublist (p : Plan) : p.introduced.Sublist p.sideLabels := by
  induction p with
  | aliased label x =>
    have hlabel {labels : List String} : [label].Sublist (label :: labels) :=
      List.singleton_sublist.mpr List.mem_cons_self
    rcases sideLabels_aliased label x with h | ⟨h, exprs, y, rfl⟩ <;> rw [h]
    · exact hlabel
    · exact hlabel
  | join kind left right condition ihl ihr =>
    exact ihl.append ihr
  | _ => exact List.nil_sublist _

/-- The aliases that stand above relations, with nothing but walks in between, are among those of
the plan. -/
theorem owners_sublist (p : Plan) (owner : Option String) :
    ((p.leaves owner).filterMap Leaf.owner).Sublist (owner.toList ++ p.labels) ∧
      ((p.leaves none).filterMap Leaf.owner).Sublist p.sideLabels := by
  induction p using unaryInduction generalizing owner with
  | leaf p hleaf =>
    have howner (owner : Option String) :
        (p.leaves owner).filterMap Leaf.owner = owner.toList := by
      rw [leaves_of_isLeaf hleaf]
      cases owner <;> rfl
    rw [howner, howner]
    exact ⟨List.sublist_append_left _ _, List.nil_sublist _⟩
  | aliased label x ih =>
    refine ⟨(ih (some label)).1.trans (List.sublist_append_right _ _), ?_⟩
    rcases sideLabels_aliased label x with h | ⟨h, exprs, y, rfl⟩ <;> rw [h]
    · exact (ih (some label)).1
    · -- the alias stands above a projection, so it is not the one of a relation
      exact (ih none).1
  | hierarchical x startWith connectBy noCycle ih => exact ⟨(ih owner).1, (ih none).1⟩
  | join kind left right condition ihl ihr =>
    have h := (ihl none).2.append (ihr none).2
    rw [← List.filterMap_append] at h
    exact ⟨h.trans (List.sublist_append_right _ _), h⟩
  | unary op hop x ih =>
    rw [hop.leaves, hop.leaves, hop.sideLabels, hop.labels]
    exact ⟨(ih none).1.trans (List.sublist_append_right _ _), (ih none).1⟩

/-! ## The pass -/

section Passing

variable {config : Config} {k : Nat} {p : Plan} {r : Pass}

theorem Passes.counter_eq (h : Passes config k p r) :
    r.counter = k + (p.leaves none).countP (Leaf.isBare config) :=
  (h.leaves_eq fun _ => rfl).2

theorem aliases_aliased (label : String) (x : Plan) :
    (aliased label x).aliases = label :: x.aliases := rfl

theorem aliases_hierarchical (x : Plan) (startWith : Option Expr) (connectBy : Expr)
    (noCycle : Bool) : (hierarchical x startWith connectBy noCycle).aliases = x.aliases := rfl

theorem Unary.aliases {op : Plan → Plan} (h : Unary op) (x : Plan) :
    (op x).aliases = x.aliases := by
  cases h <;> rfl

theorem aliases_join (kind : JoinKind) (left right : Plan) (condition : Option Expr) :
    (join kind left right condition).aliases = left.aliases ++ right.aliases :=
  List.filterMap_append

theorem aliases_of_isLeaf (h : p.isLeaf = true) : p.aliases = [] := by
  cases p <;> first | rfl | cases h

theorem aliases_of_isTableWalk (h : p.isTableWalk config = true) : p.aliases = [] := by
  induction p, h using tableWalkInduction with
  | table name columns tableLike h => rfl
  | walk w startWith connectBy noCycle h ih => exact ih

/-- If the aliases of a plan and those that are generated are all different, then these are the
aliases after the pass. -/
theorem Passes.perm_labels (h : Passes config k p r)
    (hnodup : (p.aliases ++ config.aliasesFrom k (r.counter - k)).Nodup) :
    r.plan.labels.Perm (p.aliases ++ config.aliasesFrom k (r.counter - k)) := by
  induction h with
  | @leaf k p hleaf hbare =>
    simp [labels_of_isLeaf hleaf, aliases_of_isLeaf hleaf, Config.aliasesFrom]
  | @table k p htable =>
    have hleaf := isLeaf_of_getsAlias htable
    simp [labels, labels_of_isLeaf hleaf, aliases_of_isLeaf hleaf, Config.aliasesFrom]
  | @renamed k n p x us old label below ih =>
    obtain ⟨_, _, hx, hwalk⟩ := below.tableWalk_of_generated rfl
    obtain ⟨-, rfl⟩ := aliased.inj hx
    obtain ⟨_, _, -, hcounter, -⟩ := below.leaves_of_generated rfl
    obtain rfl : n = k + 1 := hcounter
    -- the generated alias is taken back together with its number
    simp [labels, moveQualifiers, labels_of_isTableWalk hwalk, aliases_aliased,
      aliases_of_isTableWalk (below.isTableWalk_of_generated rfl), Config.aliasesFrom]
  | aliased label below ih => exact (ih (List.nodup_cons.mp hnodup).2).cons label
  | raised below hsingle ih =>
    simpa only [labels, seenFrom, labels_mapColumns, aliases_hierarchical] using ih hnodup
  | walk below hbare hsingle ih =>
    simpa only [labels, seenFrom, labels_mapColumns, aliases_hierarchical] using ih hnodup
  | @join k m n p q x y generated generated' us us' kind condition left right hsingle ihl ihr =>
    obtain hm : m = k + _ := left.counter_eq
    obtain hn : n = m + _ := right.counter_eq
    -- the right side is numbered from where the left one ended
    have hadd := config.aliasesFrom_add k (m - k) (n - m)
    rw [show m - k + (n - m) = n - k by omega, show k + (m - k) = m by omega] at hadd
    have hsides : ((Plan.join kind p q condition).aliases ++ config.aliasesFrom k (n - k)).Perm
        (p.aliases ++ config.aliasesFrom k (m - k)
          ++ (q.aliases ++ config.aliasesFrom m (n - m))) := by
      rw [aliases_join, hadd, List.append_assoc, List.append_assoc]
      exact (List.perm_append_comm_assoc _ _ _).append_left _
    have hnodup' := hsides.nodup_iff.mp hnodup
    have hx := ihl hnodup'.of_append_left
    have hy := ihr hnodup'.of_append_right
    rw [seenFrom, labels_mapColumns, labels_join,
      sideLabels_raiseAlias (hx.nodup_iff.mpr hnodup'.of_append_left),
      sideLabels_raiseAlias (hy.nodup_iff.mpr hnodup'.of_append_right)]
    exact (hx.append hy).trans hsides.symm
  | @unary k n p x generated us op hop below hsingle ih =>
    rw [hop.aliases] at hnodup
    simpa only [seenFrom, labels_mapColumns, hop.labels, hop.aliases] using ih hnodup

end Passing

/-- **An alias names one relation.**  If a plan uses each of its aliases once, and none of them is
one of the aliases generated for the relations that have none, then these and no others are its
aliases after qualifying, each used once; no two relations are under the same alias, and no `FROM`
clause introduces an alias twice. -/
theorem qualify_labels_nodup {config : Config} {p : Plan} {q : Qualified}
    (h : p.qualify config = .ok q) (hdistinct : p.aliases.Nodup)
    (hfresh : ∀ label ∈ config.aliasesFrom 0 ((p.leaves none).countP (Leaf.isBare config)),
      label ∉ p.aliases) :
    q.plan.labels.Perm
        (p.aliases ++ config.aliasesFrom 0 ((p.leaves none).countP (Leaf.isBare config))) ∧
      q.plan.labels.Nodup ∧ ((q.plan.leaves none).filterMap Leaf.owner).Nodup ∧
      ∀ n ∈ q.plan.nodes, n.introduced.Nodup := by
  obtain ⟨r, hpasses, hplan, -⟩ := exists_passes h
  have hcounter : r.counter - 0 = (p.leaves none).countP (Leaf.isBare config) := by
    rw [hpasses.counter_eq, Nat.zero_add, Nat.sub_zero]
  have hnodup := hdistinct.append (config.nodup_aliasesFrom 0 _) fun label hlabel hgenerated =>
    hfresh label hgenerated hlabel
  have hperm := hpasses.perm_labels (hcounter ▸ hnodup)
  rw [hplan, hcounter] at hperm
  have hlabels : q.plan.labels.Nodup := hperm.nodup_iff.mpr hnodup
  have hside : q.plan.sideLabels.Nodup := hlabels.sublist q.plan.sideLabels_sublist
  refine ⟨hperm, hlabels, hlabels.sublist (q.plan.owners_sublist none).1, fun n hn => ?_⟩
  exact hside.sublist (n.introduced_sublist.trans (sideLabels_sublist_of_mem_nodes hn))

theorem qualify_labels_nodup_staff :
    staff.aliases.Nodup ∧
      (∀ label ∈ Config.aliasesFrom {} 0 ((staff.leaves none).countP (Leaf.isBare {})),
        label ∉ staff.aliases) ∧
      qualifiedStaff.labels.Perm (staff.aliases
        ++ Config.aliasesFrom {} 0 ((staff.leaves none).countP (Leaf.isBare {}))) ∧
      qualifiedStaff.labels.Nodup ∧ ((qualifiedStaff.leaves none).filterMap Leaf.owner).Nodup ∧
        ∀ n ∈ qualifiedStaff.nodes, n.introduced.Nodup :=
  ⟨by decide, by decide, qualify_labels_nodup qualify_staff (by decide) (by decide)⟩

/-- Two relations, the first under an alias that is generated for the second. -/
def captured : Plan :=
  join .inner (aliased "table1" (relation "a" [.plain 1 "x"] true))
    (relation "b" [.plain 2 "y"] true)
    (some (.compare (.col (.plain 1 "x")) .eq (.col (.plain 2 "y"))))

/-- The same qualified. -/
def qualifiedCaptured : Plan :=
  join .inner (aliased "table1" (relation "a" [.plain 1 "x"] true))
    (aliased "table1" (relation "b" [.plain 2 "y"] true))
    (some (.compare (.col ⟨1, "x", ["table1"]⟩) .eq (.col ⟨2, "y", ["table1"]⟩)))

/-- A generated alias may be one that the plan uses: then it names two relations. -/
theorem qualify_captured :
    captured.aliases.Nodup ∧ captured.qualify {} = .ok ⟨qualifiedCaptured, []⟩ ∧
      qualifiedCaptured.leaves none
        = [⟨some "table1", relation "a" [.plain 1 "x"] true⟩,
          ⟨some "table1", relation "b" [.plain 2 "y"] true⟩] ∧
      qualifiedCaptured.introduced = ["table1", "table1"] :=
  ⟨by decide, rfl, rfl, rfl⟩

end Plan

end QueryPlan
