import QueryPlan.Proofs.Blocks
import QueryPlan.Proofs.Nearest

/-!
# Qualifiers in scope

When every reference of a plan has found its alias, each is under the alias nearest to it
(`references_of_resolved`).  Whether its SQL text is right as well depends on where that alias is
written: the clauses of an operator can only name what the `FROM` clause of their own block
introduces, and an alias inside parentheses is out of reach.  The pass does not look at that.
`qualify_in_scope_iff` says that the qualifiers of an operator are in scope exactly if the aliases
nearest to its references are among those that its inputs introduce.  So they are where an operator
reads only what its inputs expose (`inScope_of_exposesBelow`), and they are not where it reads
anything through an operator that has no alias of its own.
-/

set_option autoImplicit false

namespace QueryPlan.Plan

open Sql

/-! ## References that have found an alias -/

theorem isWalk_erase {p : Plan} (h : ∀ label x, p ≠ aliased label x) :
    p.erase.isWalk = p.isWalk := by
  cases p with
  | aliased label x => exact absurd rfl (h label x)
  | _ => rfl

/-- Without references left open, each operator comes from one that leaves none open. -/
theorem Accounts.exists_of_mem {config : Config} {ms ns : List Plan} (h : Accounts config ms ns [])
    {n : Plan} (hn : n ∈ ns) : ∃ m ∈ ms, QualifiesTo m n ∧ openReferences config m n = [] := by
  obtain ⟨hqualified, hopen⟩ := h
  induction hqualified with
  | nil => cases hn
  | @cons m n' ms ns hm hrest ih =>
    rw [List.zipWith_cons_cons, List.flatten_cons, eq_comm, List.append_eq_nil_iff] at hopen
    rcases List.mem_cons.mp hn with rfl | hn
    · exact ⟨m, List.mem_cons_self, hm, hopen.1⟩
    · obtain ⟨m', hm', h⟩ := ih hn hopen.2.symm
      exact ⟨m', List.mem_cons_of_mem _ hm', h⟩

/-- What has found an alias is under the one nearest to it, walks apart. -/
theorem references_of_resolved {config : Config} {m n : Plan} (h : QualifiesTo m n)
    (hm : ∀ label x, m ≠ aliased label x) (hn : ∀ label x, n ≠ aliased label x)
    (hopen : openReferences config m n = []) (hwalk : n.isWalk = false) :
    ∀ c ∈ n.ownReferences, ∃ label, n.nearestAlias? c.id = some label ∧ c.qualifiers = [label] := by
  -- an operator that is no walk has no alias but those below it
  have hplain : m.walksUnderAlias config = false := by
    have hsame : m.isWalk = n.isWalk := by rw [← isWalk_erase hm, ← h.erase_eq, isWalk_erase hn]
    cases m with
    | hierarchical input startWith connectBy noCycle => cases hsame.trans hwalk
    | _ => rfl
  intro c hc
  rw [h.references hwalk] at hc
  obtain ⟨d, hd, rfl⟩ := List.mem_map.mp hc
  have hfound : n.nearestAlias? d.id ≠ none := by
    simpa [findsAlias, hplain] using
      List.filter_eq_nil_iff.mp (List.map_eq_nil_iff.mp hopen) d hd
  obtain ⟨label, hlabel⟩ := Option.ne_none_iff_exists'.mp hfound
  exact ⟨label, by rw [Column.id_under, hlabel], by rw [hlabel]; rfl⟩

/-- The blocks of a plan in which every reference has found its alias. -/
theorem exists_isBlock_of_resolved {config : Config} {p : Plan} {q : Qualified} {text : String}
    (h : p.qualify config = .ok q) (hall : q.unresolved = []) (htext : q.plan.sql = .ok text)
    {n : Plan} (hn : n ∈ q.plan.nodes) (hblock : n.hasBlock = true) :
    ∃ pieces, n.IsBlock text pieces ∧ ∀ c ∈ printed pieces, c ∈ n.ownReferences ∧
      ∃ label, n.nearestAlias? c.id = some label ∧ c.qualifiers = [label] := by
  obtain ⟨r, hpasses, hplan, hopen⟩ := exists_passes h
  rw [← hplan] at hn htext
  have hplain : ∀ label x, n ≠ aliased label x := fun label x hx => by cases hx; cases hblock
  have hwalk : n.isWalk = false := by cases n <;> first | rfl | cases hblock
  have haccounts := hpasses.accounts
  rw [hopen, hall] at haccounts
  obtain ⟨m, hm, hqualified, hopen⟩ := haccounts.exists_of_mem (mem_operators.mpr ⟨hn, hplain⟩)
  have hrefs := references_of_resolved hqualified (mem_operators.mp hm).2 hplain hopen hwalk
  obtain ⟨pieces, hpieces⟩ := exists_isBlock htext hn hblock
  refine ⟨pieces, hpieces, fun c hc => ?_⟩
  obtain ⟨indent, items, hitems, rfl, -⟩ := hpieces
  have hc' := (mem_printed_block hblock hitems.length_eq.symm c).mp hc
  exact ⟨hc', hrefs c hc'⟩

/-! ## Scope -/

/-- The aliases that the clauses of an operator may name: those that its inputs introduce. -/
def visible (n : Plan) : List String := n.children.flatMap introduced

/-- Whether a plan, as an item of a `FROM` clause, shows a column under an alias that it
introduces: the first alias on the way down to the column is not hidden in parentheses. -/
def exposes (id : ColumnId) : Plan → Bool
  | aliased _ input => input.produces id
  | join _ left right _ =>
    left.exposes id || (left.nearestAlias? id).isNone && right.exposes id
  | _ => false

/-- Whether the inputs of an operator expose a column. -/
def exposesBelow (id : ColumnId) : Plan → Bool
  | join kind left right condition => (join kind left right condition).exposes id
  | p => p.children.any (exposes id)

theorem nearestAlias?_join (kind : JoinKind) (left right : Plan) (condition : Option Expr)
    (id : ColumnId) : (join kind left right condition).nearestAlias? id
      = (left.nearestAlias? id).or (right.nearestAlias? id) := by
  rw [nearestAlias?_eq, children, List.findSome?_cons, List.findSome?_cons]
  cases left.nearestAlias? id <;> cases right.nearestAlias? id <;> rfl

theorem exists_introduced_of_exposes {p : Plan} {id : ColumnId} (h : p.exposes id = true) :
    ∃ label, p.nearestAlias? id = some label ∧ label ∈ p.introduced := by
  induction p with
  | aliased label input =>
    rw [exposes] at h
    exact ⟨label, by rw [nearestAlias?_aliased, if_pos h], List.mem_singleton_self label⟩
  | join kind left right condition ihl ihr =>
    rw [exposes, Bool.or_eq_true, Bool.and_eq_true] at h
    rw [nearestAlias?_join]
    rcases h with h | ⟨hleft, h⟩
    · obtain ⟨label, hlabel, hmem⟩ := ihl h
      exact ⟨label, by rw [hlabel]; rfl, List.mem_append_left _ hmem⟩
    · obtain ⟨label, hlabel, hmem⟩ := ihr h
      exact ⟨label, by rw [Option.isNone_iff_eq_none.mp hleft, hlabel]; rfl,
        List.mem_append_right _ hmem⟩
  | _ => cases h

theorem exists_visible_of_exposesBelow {n : Plan} (hblock : n.hasBlock = true) {id : ColumnId}
    (h : n.exposesBelow id = true) :
    ∃ label, n.nearestAlias? id = some label ∧ label ∈ n.visible := by
  rcases join_or_unary_of_hasBlock hblock with
    ⟨kind, left, right, condition, rfl⟩ | ⟨op, x, hop, rfl⟩
  · rw [exposesBelow] at h
    obtain ⟨label, hlabel, hmem⟩ := exists_introduced_of_exposes h
    exact ⟨label, hlabel, by simpa [visible, children, introduced] using hmem⟩
  · have hx : x.exposes id = true := by
      cases hop <;> simpa [exposesBelow, children] using h
    obtain ⟨label, hlabel, hmem⟩ := exists_introduced_of_exposes hx
    exact ⟨label, by rw [hop.nearestAlias?, hlabel], by simpa [visible, hop.children] using hmem⟩

/-- The qualifiers that are printed in a block are all among some aliases. -/
def InScope (pieces : List Piece) (labels : List String) : Prop :=
  ∀ c ∈ printed pieces, ∀ label ∈ c.qualifiers, label ∈ labels

section Resolved

variable {config : Config} {p : Plan} {q : Qualified} {text : String} {n : Plan}

/-- **When qualifiers are in scope.**  Let every reference of a plan have found its alias, and let
the plan have a text.  Each operator with clauses has its block there, and the qualifiers printed in
the block are introduced by its `FROM` clause exactly if the alias nearest to each reference is. -/
theorem qualify_in_scope_iff (h : p.qualify config = .ok q) (hall : q.unresolved = [])
    (htext : q.plan.sql = .ok text) (hn : n ∈ q.plan.nodes) (hblock : n.hasBlock = true) :
    ∃ pieces, n.IsBlock text pieces ∧ (InScope pieces n.visible ↔
      ∀ c ∈ printed pieces, ∃ label ∈ n.visible, n.nearestAlias? c.id = some label) := by
  obtain ⟨pieces, hpieces, hrefs⟩ := exists_isBlock_of_resolved h hall htext hn hblock
  refine ⟨pieces, hpieces, forall₂_congr fun c hc => ?_⟩
  obtain ⟨-, label, hnearest, hlabel⟩ := hrefs c hc
  simp [hlabel, hnearest]

/-- An operator that reads only columns which its inputs expose has its qualifiers in scope. -/
theorem inScope_of_exposesBelow (h : p.qualify config = .ok q) (hall : q.unresolved = [])
    (htext : q.plan.sql = .ok text) (hn : n ∈ q.plan.nodes) (hblock : n.hasBlock = true)
    (hexposes : ∀ c ∈ n.ownReferences, n.exposesBelow c.id = true) :
    ∃ pieces, n.IsBlock text pieces ∧ InScope pieces n.visible := by
  obtain ⟨pieces, hpieces, hrefs⟩ := exists_isBlock_of_resolved h hall htext hn hblock
  refine ⟨pieces, hpieces, fun c hc label hlabel => ?_⟩
  obtain ⟨hc, own, hnearest, hown⟩ := hrefs c hc
  obtain ⟨seen, hseen, hvisible⟩ := exists_visible_of_exposesBelow hblock (hexposes c hc)
  rw [hown, List.mem_singleton] at hlabel
  obtain rfl : seen = own := Option.some.inj (hseen.symm.trans hnearest)
  exact hlabel ▸ hvisible

end Resolved

/-- People with a name, and their orders. -/
def orders : Plan :=
  join .inner
    (filter (.isNull (.col (.plain 2 "name")) true)
      (relation "people" [.plain 1 "id", .plain 2 "name"] true))
    (relation "orders" [.plain 3 "person_id"] true)
    (some (.compare (.col (.plain 1 "id")) .eq (.col (.plain 3 "person_id"))))

/-- The same qualified. -/
def qualifiedOrders : Plan :=
  join .inner
    (filter (.isNull (.col ⟨2, "name", ["table1"]⟩) true)
      (aliased "table1" (relation "people" [.plain 1 "id", .plain 2 "name"] true)))
    (aliased "table2" (relation "orders" [.plain 3 "person_id"] true))
    (some (.compare (.col ⟨1, "id", ["table1"]⟩) .eq (.col ⟨3, "person_id", ["table2"]⟩)))

theorem qualify_orders : orders.qualify {} = .ok ⟨qualifiedOrders, []⟩ := rfl

theorem qualify_in_scope_iff_orders : ∃ text, qualifiedOrders.sql = .ok text ∧
    ∃ pieces, qualifiedOrders.IsBlock text pieces ∧ (InScope pieces qualifiedOrders.visible ↔
      ∀ c ∈ printed pieces, ∃ label ∈ qualifiedOrders.visible,
        qualifiedOrders.nearestAlias? c.id = some label) :=
  ⟨_, rfl, qualify_in_scope_iff qualify_orders rfl rfl (nodes_eq _ ▸ List.mem_cons_self) rfl⟩

/-- The filter has no alias of its own, so the join reads by one that its block does not
introduce. -/
theorem not_visible_orders :
    ⟨1, "id", ["table1"]⟩ ∈ qualifiedOrders.ownReferences ∧ "table1" ∉ qualifiedOrders.visible := by
  decide

end QueryPlan.Plan
