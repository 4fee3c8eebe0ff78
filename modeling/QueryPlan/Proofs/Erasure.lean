import QueryPlan.Proofs.Passing

/-!
# What qualifying leaves alone

Qualifying a plan changes the qualifiers of its references and where aliases stand, and nothing
else.  `Plan.erase` takes both away: the aliases go, and the references lose their qualifiers.
Every step of the pass keeps what is left, since giving an alias, taking one back, moving one above
a walk and repeating one around a projection are all invisible to it, and so is a change of
qualifiers (`Plan.erase_mapColumns`).  `Plan.qualify_erase` draws the conclusion for a whole plan.
-/

set_option autoImplicit false

namespace QueryPlan.Plan

/-- A plan without its aliases and with no reference qualified. -/
def erase : Plan → Plan :=
  mapUp fun
    | aliased _ input => input
    | p => p.mapColumns Column.unqualified

@[simp] theorem erase_aliased (label : String) (x : Plan) : (aliased label x).erase = x.erase := rfl

theorem erase_of_isLeaf {p : Plan} (h : p.isLeaf) : p.erase = p := by
  cases p <;> first | rfl | cases h

theorem erase_hierarchical (startWith : Option Expr) (connectBy : Expr) (noCycle : Bool)
    (x : Plan) : (hierarchical x startWith connectBy noCycle).erase
      = (hierarchical x.erase startWith connectBy noCycle).mapColumns Column.unqualified := rfl

theorem erase_join (kind : JoinKind) (condition : Option Expr) (x y : Plan) :
    (join kind x y condition).erase
      = (join kind x.erase y.erase condition).mapColumns Column.unqualified := rfl

theorem Unary.erase {op : Plan → Plan} (h : Unary op) (x : Plan) :
    (op x).erase = (op x.erase).mapColumns Column.unqualified := by cases h <;> rfl

section Congruence

variable {x x' y y' : Plan}

theorem erase_hierarchical_congr (startWith : Option Expr) (connectBy : Expr) (noCycle : Bool)
    (h : x.erase = y.erase) : (hierarchical x startWith connectBy noCycle).erase
      = (hierarchical y startWith connectBy noCycle).erase := by
  rw [erase_hierarchical, erase_hierarchical, h]

theorem erase_join_congr (kind : JoinKind) (condition : Option Expr) (hx : x.erase = x'.erase)
    (hy : y.erase = y'.erase) :
    (join kind x y condition).erase = (join kind x' y' condition).erase := by
  rw [erase_join, erase_join, hx, hy]

theorem Unary.erase_congr {op : Plan → Plan} (hop : Unary op) (h : x.erase = y.erase) :
    (op x).erase = (op y).erase := by
  rw [hop.erase, hop.erase, h]

end Congruence

/-- Changing the qualifiers of the references of a node is invisible. -/
theorem erase_mapColumns {g : Column → Column} (hg : ∀ c, (g c).unqualified = c.unqualified)
    (p : Plan) : (p.mapColumns g).erase = p.erase := by
  have hnode (x : Plan) : (x.mapColumns g).mapColumns Column.unqualified
      = x.mapColumns Column.unqualified := by
    simp only [mapColumns_mapColumns, hg]
  induction p using unaryInduction with
  | leaf p hleaf => cases p <;> first | rfl | cases hleaf
  | aliased label p => rfl
  | hierarchical p startWith connectBy noCycle => exact hnode (hierarchical p.erase ..)
  | join kind p q condition => exact hnode (join kind p.erase q.erase condition)
  | unary op hop p =>
    obtain ⟨op', hop', hop_eq⟩ := hop.mapColumns g
    rw [hop_eq, hop'.erase, hop.erase, ← hop_eq, hnode]

theorem erase_seenFrom (p y : Plan) : (p.seenFrom y).erase = p.erase :=
  erase_mapColumns (fun c => c.unqualified_under _) p

theorem unqualified_renameQualifier (old new : String) (c : Column) :
    (renameQualifier old new c).unqualified = c.unqualified := by
  rw [renameQualifier]
  split <;> rfl

theorem erase_moveQualifiers (old new : String) (p : Plan) :
    (p.moveQualifiers old new).erase = p.erase :=
  erase_mapColumns (unqualified_renameQualifier old new) p

theorem erase_raiseAlias (p : Plan) : p.raiseAlias.erase = p.erase := by
  unfold raiseAlias
  split <;> rfl

/-- Aliases and qualifiers do not matter to which columns a plan produces. -/
theorem unqualified_output_erase (p : Plan) :
    p.erase.output.map Column.unqualified = p.output.map Column.unqualified := by
  have hnode (x : Plan) := unqualified_output_mapColumns (g := Column.unqualified) (fun _ => rfl) x
  induction p using unaryInduction with
  | leaf p hleaf => rw [erase_of_isLeaf hleaf]
  | aliased label p ih => exact ih
  | hierarchical p startWith connectBy noCycle ih =>
    exact (hnode (hierarchical p.erase startWith connectBy noCycle)).trans ih
  | join kind p q condition ihp ihq =>
    rw [erase_join, hnode, output, output, List.map_append, List.map_append, ihp, ihq]
  | unary op hop p ih =>
    rw [hop.erase, hnode]
    rcases hop.output with hsame | hown
    · rw [hsame, hsame, ih]
    · rw [hown p.erase p]

theorem produces_of_erase_eq {p q : Plan} (h : p.erase = q.erase) (id : ColumnId) :
    p.produces id = q.produces id :=
  produces_congr (by rw [← unqualified_output_erase, h, unqualified_output_erase]) id

/-- Going through a plan keeps everything but its aliases and qualifiers. -/
theorem Passes.erase_eq {config : Config} {k : Nat} {p : Plan} {r : Pass}
    (h : Passes config k p r) : r.plan.erase = p.erase := by
  induction h with
  | leaf hleaf hbare => rfl
  | table htable => rfl
  | renamed label below ih => exact (erase_moveQualifiers _ _ _).trans ih
  | aliased label below ih => exact ih
  | raised below hsingle ih =>
    exact (erase_seenFrom _ _).trans (erase_hierarchical_congr _ _ _ ih)
  | walk below hbare hsingle ih =>
    exact (erase_seenFrom _ _).trans (erase_hierarchical_congr _ _ _ ih)
  | join left right hsingle ihl ihr =>
    exact (erase_seenFrom _ _).trans (erase_join_congr _ _
      ((erase_raiseAlias _).trans ihl) ((erase_raiseAlias _).trans ihr))
  | unary hop below hsingle ih => exact (erase_seenFrom _ _).trans (hop.erase_congr ih)

/-- **Qualifying changes nothing but aliases and qualifiers.**  Without them the qualified plan is
the plan that it came from, and both produce the same columns under the same names in the same
order. -/
theorem qualify_erase {config : Config} {p : Plan} {q : Qualified} (h : p.qualify config = .ok q) :
    q.plan.erase = p.erase ∧
      q.plan.output.map (fun c => (c.id, c.name)) = p.output.map fun c => (c.id, c.name) := by
  obtain ⟨r, hpass, hr⟩ := bind_eq_ok_iff.mp h
  cases hr
  have herase := (pass_eq_ok_iff.mp hpass).erase_eq
  refine ⟨herase, ?_⟩
  have houtput : r.plan.output.map Column.unqualified = p.output.map Column.unqualified := by
    rw [← unqualified_output_erase, herase, unqualified_output_erase]
  have hnames := congrArg (List.map fun c => (c.id, c.name)) houtput
  rw [List.map_map, List.map_map] at hnames
  exact hnames

/-- Employees who work in a place, each with those whose line of command ends at them. -/
def staff : Plan :=
  let employees := relation "emp" [.plain 1 "id", .plain 2 "boss", .plain 3 "place"] true
  let line := relation "emp" [.plain 11 "id", .plain 12 "boss"] true
  filter (.compare (.col (.plain 3 "place")) .eq (.lit (.str "here")))
    (join .inner
      (project [.col (.plain 1 "id"), .col (.plain 3 "place")] (aliased "e" employees))
      (hierarchical line none (.compare (.col (.plain 11 "id")) .eq (.col (.plain 12 "boss"))) true)
      (some (.compare (.col (.plain 1 "id")) .eq (.col (.plain 12 "boss")))))

/-- The same with all references qualified. -/
def qualifiedStaff : Plan :=
  let employees := relation "emp" [.plain 1 "id", .plain 2 "boss", .plain 3 "place"] true
  let line := relation "emp" [.plain 11 "id", .plain 12 "boss"] true
  filter (.compare (.col ⟨3, "place", ["e"]⟩) .eq (.lit (.str "here")))
    (join .inner
      (aliased "e" (project [.col ⟨1, "id", ["e"]⟩, .col ⟨3, "place", ["e"]⟩]
        (aliased "e" employees)))
      (aliased "table1" (hierarchical line none
        (.compare (.col ⟨11, "id", ["table1"]⟩) .eq (.col ⟨12, "boss", ["table1"]⟩)) true))
      (some (.compare (.col ⟨1, "id", ["e"]⟩) .eq (.col ⟨12, "boss", ["table1"]⟩))))

theorem qualify_staff : staff.qualify {} = .ok ⟨qualifiedStaff, []⟩ := rfl

theorem qualify_erase_staff : qualifiedStaff.erase = staff.erase ∧
    qualifiedStaff.output.map (fun c => (c.id, c.name))
      = staff.output.map fun c => (c.id, c.name) :=
  qualify_erase qualify_staff

end QueryPlan.Plan
