import QueryPlan.Proofs.Passing

/-!
# Generated aliases are numbered in order

The pass counts up at each relation that gets an alias, and down again when an alias of the plan's
own takes the relation over.  In the end the relations that the plan left without alias are numbered
from one, from left to right and without gaps, and every other relation is under the alias that it
had.

The alias of a relation is the one that stands above it with nothing but walks in between: there the
pass puts a generated alias, and there it leaves it when the alias moves above a walk.
`Plan.leaves` lists the relations with these aliases, and `numbered` says what becomes of the list.
-/

set_option autoImplicit false

namespace QueryPlan.Plan

/-! ## Relations and their aliases -/

/-- A relation or scan in a plan. -/
structure Leaf where
  /-- The alias that stands above it with nothing but walks in between. -/
  owner : Option String
  node : Plan

/-- The relations and scans of a plan from left to right, where the plan stands under `owner`. -/
def leaves (owner : Option String) : Plan → List Leaf
  | relation name columns tableLike => [⟨owner, relation name columns tableLike⟩]
  | scan table columns source => [⟨owner, scan table columns source⟩]
  | aliased label input => leaves (some label) input
  | hierarchical input _ _ _ => leaves owner input
  | join _ left right _ => leaves none left ++ leaves none right
  | project _ input | filter _ input | aggregate _ _ _ input | sort _ input | limit _ _ input =>
    leaves none input

theorem leaves_of_isLeaf {p : Plan} (h : p.isLeaf) (owner : Option String) :
    p.leaves owner = [⟨owner, p⟩] := by
  cases p <;> first | rfl | cases h

theorem Unary.leaves {op : Plan → Plan} (h : Unary op) (owner : Option String) (x : Plan) :
    (op x).leaves owner = x.leaves none := by cases h <;> rfl

@[simp] theorem leaves_mapColumns (g : Column → Column) (owner : Option String) (p : Plan) :
    (p.mapColumns g).leaves owner = p.leaves owner := by cases p <;> rfl

theorem leaves_raiseAlias (owner : Option String) (p : Plan) :
    p.raiseAlias.leaves owner = p.leaves owner := by
  unfold raiseAlias
  split <;> rfl

/-! ## Numbering -/

/-- Whether a relation gets a generated alias that is not taken back. -/
def Leaf.isBare (config : Config) (leaf : Leaf) : Bool :=
  leaf.owner.isNone && leaf.node.getsAlias config

/-- Relations with the aliases that are generated for them, where `k` are in use already. -/
def numbered (config : Config) (k : Nat) : List Leaf → List Leaf
  | [] => []
  | leaf :: rest =>
    if leaf.isBare config then
      ⟨some (config.generatedAlias (k + 1)), leaf.node⟩ :: numbered config (k + 1) rest
    else leaf :: numbered config k rest

section Numbered

variable (config : Config)

theorem numbered_append (k : Nat) (ls ms : List Leaf) :
    numbered config k (ls ++ ms)
      = numbered config k ls ++ numbered config (k + ls.countP (Leaf.isBare config)) ms := by
  induction ls generalizing k with
  | nil => rfl
  | cons leaf ls ih =>
    rw [List.cons_append, numbered, numbered, List.countP_cons]
    split
    · rw [ih, List.cons_append, Nat.add_right_comm, Nat.add_assoc]
    · rw [ih, List.cons_append, Nat.add_zero]

/-- The number of a relation is how many that get one stand up to it. -/
theorem getElem?_numbered (k i : Nat) (ls : List Leaf) :
    (numbered config k ls)[i]? = ls[i]?.map fun leaf =>
      if leaf.isBare config then
        ⟨some (config.generatedAlias (k + (ls.take (i + 1)).countP (Leaf.isBare config))),
          leaf.node⟩
      else leaf := by
  induction ls generalizing k i with
  | nil => rfl
  | cons leaf ls ih =>
    rw [numbered, List.take_succ_cons, List.countP_cons]
    cases i with
    | zero => split <;> simp_all
    | succ i =>
      split <;> simp [Nat.add_assoc, Nat.add_comm 1, *]

end Numbered

/-! ## The pass -/

section Passing

variable {config : Config} {k : Nat} {p : Plan} {r : Pass}

/-- What is still generated at the end is the next alias, over walks over the relation that got
it. -/
theorem Passes.leaves_of_generated (h : Passes config k p r) (hgen : r.generated = true) :
    ∃ x t, r.plan = .aliased (config.generatedAlias (k + 1)) x ∧ r.counter = k + 1 ∧
      t.getsAlias config = true ∧ ∀ owner, x.leaves owner = [⟨owner, t⟩] ∧
        p.leaves owner = [⟨owner, t⟩] := by
  induction h with
  | @table k p htable =>
    have hleaf := isLeaf_of_getsAlias htable
    exact ⟨p, p, rfl, rfl, htable, fun owner =>
      ⟨leaves_of_isLeaf hleaf owner, leaves_of_isLeaf hleaf owner⟩⟩
  | raised below hsingle ih =>
    obtain ⟨x, t, hx, hcounter, ht, hleaves⟩ := ih hgen
    obtain ⟨rfl, rfl⟩ := aliased.inj hx
    exact ⟨_, t, rfl, hcounter, ht, fun owner =>
      ⟨(leaves_mapColumns _ owner _).trans (hleaves owner).1, (hleaves owner).2⟩⟩
  | _ => cases hgen

/-- The relations after the pass, and how many generated aliases are in use.  A generated alias
that may still be taken back counts as kept, so the plan must not stand under another one then. -/
theorem Passes.leaves_eq (h : Passes config k p r) {owner : Option String}
    (howner : r.generated = true → owner = none) :
    r.plan.leaves owner = numbered config k (p.leaves owner) ∧
      r.counter = k + (p.leaves owner).countP (Leaf.isBare config) := by
  induction h generalizing owner with
  | @leaf k p hleaf hbare =>
    simp [leaves_of_isLeaf hleaf, numbered, Leaf.isBare, hbare]
  | @table k p htable =>
    obtain rfl := howner rfl
    have hleaf := isLeaf_of_getsAlias htable
    simp [leaves, leaves_of_isLeaf hleaf, numbered, Leaf.isBare, htable]
  | @renamed k n p x us old label below ih =>
    obtain ⟨y, t, hy, hcounter, -, hleaves⟩ := below.leaves_of_generated rfl
    obtain ⟨-, rfl⟩ := aliased.inj hy
    obtain rfl : n = k + 1 := hcounter
    -- the alias is the plan's own now, so the relation is numbered no longer
    simp [leaves, moveQualifiers, hleaves, numbered, Leaf.isBare]
  | aliased label below ih => exact ih nofun
  | raised below hsingle ih =>
    simpa [leaves, seenFrom] using ih howner
  | @walk k n p x generated us startWith connectBy noCycle below hbare hsingle ih =>
    have hkept : generated = false := below.generated_of_bare hbare
    simpa [leaves, seenFrom] using ih (by simp [hkept])
  | join left right hsingle ihl ihr =>
    obtain ⟨hl, hm⟩ := @ihl none fun _ => rfl
    obtain ⟨hr, hn⟩ := @ihr none fun _ => rfl
    simp only at hl hm hr hn
    subst hm hn
    simp [leaves, seenFrom, leaves_raiseAlias, hl, hr, numbered_append, Nat.add_assoc]
  | unary hop below hsingle ih =>
    simpa [seenFrom, hop.leaves] using @ih none fun _ => rfl

end Passing

/-- **Generated aliases are numbered in order.**  The relations stay in their places.  Each of those
that had no alias gets the one whose number is how many of them stand up to it, any other keeps its
alias, and the counter ends at the number of those that had none. -/
theorem qualify_numbered {config : Config} {p : Plan} {q : Qualified}
    (h : p.qualify config = .ok q) :
    (∀ i : Nat, (q.plan.leaves none)[i]? = (p.leaves none)[i]?.map fun leaf =>
        if leaf.isBare config then
          ⟨some (config.generatedAlias
            (((p.leaves none).take (i + 1)).countP (Leaf.isBare config))), leaf.node⟩
        else leaf) ∧
      ∃ r, p.pass config 0 = .ok r ∧ r.plan = q.plan ∧
        r.counter = (p.leaves none).countP (Leaf.isBare config) := by
  obtain ⟨r, hpass, hr⟩ := bind_eq_ok_iff.mp h
  cases hr
  obtain ⟨hleaves, hcounter⟩ := (pass_eq_ok_iff.mp hpass).leaves_eq fun _ => rfl
  refine ⟨fun i => ?_, r, hpass, rfl, by rw [hcounter, Nat.zero_add]⟩
  simp only [hleaves, getElem?_numbered, Nat.zero_add]

/-- Offices under no alias, a walk over people under one, and the people of the offices. -/
def offices : Plan :=
  join .cross
    (join .cross (relation "office" [.plain 1 "place"] true)
      (aliased "boss" (hierarchical (relation "emp" [.plain 2 "id", .plain 3 "boss"] true) none
        (.compare (.col (.plain 2 "id")) .eq (.col (.plain 3 "boss"))) false)) none)
    (hierarchical (relation "emp" [.plain 4 "id", .plain 5 "boss"] true) none
      (.compare (.col (.plain 4 "id")) .eq (.col (.plain 5 "boss"))) false) none

/-- The same qualified. -/
def qualifiedOffices : Plan :=
  join .cross
    (join .cross (aliased "table1" (relation "office" [.plain 1 "place"] true))
      (aliased "boss" (hierarchical (relation "emp" [.plain 2 "id", .plain 3 "boss"] true) none
        (.compare (.col ⟨2, "id", ["boss"]⟩) .eq (.col ⟨3, "boss", ["boss"]⟩)) false)) none)
    (aliased "table2" (hierarchical (relation "emp" [.plain 4 "id", .plain 5 "boss"] true) none
      (.compare (.col ⟨4, "id", ["table2"]⟩) .eq (.col ⟨5, "boss", ["table2"]⟩)) false)) none

theorem qualify_offices : offices.qualify {} = .ok ⟨qualifiedOffices, []⟩ := rfl

theorem qualify_numbered_offices :
    (∀ i : Nat, (qualifiedOffices.leaves none)[i]? = (offices.leaves none)[i]?.map fun leaf =>
        if leaf.isBare {} then
          ⟨some (Config.generatedAlias {}
            (((offices.leaves none).take (i + 1)).countP (Leaf.isBare {}))), leaf.node⟩
        else leaf) ∧
      ∃ r, offices.pass {} 0 = .ok r ∧ r.plan = qualifiedOffices ∧
        r.counter = (offices.leaves none).countP (Leaf.isBare {}) :=
  qualify_numbered qualify_offices

end QueryPlan.Plan
