import QueryPlan.Filter.Stored
import QueryPlan.Proofs.Lists
import QueryPlan.Proofs.ReadBack

/-!
# Stored filters are read back

A filter comes back from its stored text as it was, provided that the text is not nested more deeply
than the reader goes, and only then (`Filter.ofStored?_stored`).  Floats are left aside: an infinite
one is stored as a null, so it does not come back.

The way back has two halves.  The text is read as the tree that was written, whatever its depth,
since the reader of trees does not count levels.  The filter is then made of the tree, and that is
where the levels are counted: with `depth` levels left, exactly the trees of at most that depth
become filters (`Filter.ofJson?_toJson`).
-/

set_option autoImplicit false

namespace QueryPlan

/-! ## Depth -/

namespace Json

mutual

/-- How many lists and objects a tree has inside one another. -/
def depth : Json → Nat
  | arr items => depthOfItems items + 1
  | obj members => depthOfMembers members + 1
  | _ => 0

/-- The depth of the deepest item. -/
def depthOfItems : List Json → Nat
  | [] => 0
  | item :: rest => max (depth item) (depthOfItems rest)

/-- The depth of the deepest member. -/
def depthOfMembers : List (List Char × Json) → Nat
  | [] => 0
  | (_, value) :: rest => max (depth value) (depthOfMembers rest)

end

theorem depth_ofText (s : String) : (ofText s).depth = 0 := rfl

/-! ## Taking trees apart -/

theorem string?_ofText (s : String) : (ofText s).string? = some s := by
  rw [ofText, string?, unescape_escape, Option.map_some, String.ofList_toList]

theorem tagged?_ofMembers (name : String) (content : Json) :
    (ofMembers [(name, content)]).tagged? = some (name, content) := by
  rw [ofMembers, List.map_singleton, tagged?, unescape_escape, Option.map_some,
    String.ofList_toList]

theorem members?_ofMembers (members : List (String × Json)) :
    (ofMembers members).members? = some members := by
  rw [ofMembers, members?, List.mapM_map, mapM_eq_some_iff, List.forall₂_same]
  rintro ⟨name, value⟩ -
  simp [unescape_escape]

theorem fields?_ofMembers (members : List (String × Json)) (names : List String) (depth : Nat) :
    (ofMembers members).fields? (depth + 1) names = names.mapM (onlyMember? members) := by
  have hfields : (ofMembers members).fields? (depth + 1) names =
      (ofMembers members).members?.bind fun members => names.mapM (onlyMember? members) := rfl
  rw [hfields, members?_ofMembers, Option.bind_some]

end Json

/-! ## Literals -/

namespace Literal

/-- Whether a literal is a float. -/
def isFloat : Literal → Bool
  | float _ _ => true
  | _ => false

theorem written_toJson {l : Literal} (h : l.isFloat = false) : l.toJson.Written := by
  cases l with
  | float f _ => cases h
  | null => exact .ofText _
  | str s => exact .ofMembers (List.forall_mem_singleton.mpr (.ofText s))
  | int i => exact .ofMembers (List.forall_mem_singleton.mpr (.int _))
  | bool b => exact .ofMembers (List.forall_mem_singleton.mpr (.bool b))

theorem ofTagged?_content {l : Literal} (h : l.isFloat = false) :
    ofTagged? l.kind l.content = some l := by
  cases l with
  | float f _ => cases h
  | str s =>
    show (Json.ofText s).string?.map str = _
    rw [Json.string?_ofText, Option.map_some]
  | int i =>
    show (Json.num (toString i.toInt).toList).number?.bind ofWord? = _
    rw [Json.number?_toString (Number.fitsWord_toInt i), Option.bind_some, ofWord?,
      if_pos (Number.fitsWord_toInt i), Int64.ofInt_toInt]
  | _ => rfl

/-- A literal is made of its tree, if there are levels enough for it. -/
theorem ofJson?_toJson {l : Literal} (h : l.isFloat = false) (depth : Nat) :
    ofJson? depth l.toJson = if l.toJson.depth ≤ depth then some l else none := by
  have hmembers (hl : l.toJson = .ofMembers [(l.kind, l.content)]) (hdepth : l.content.depth = 0) :
      ofJson? depth l.toJson = if l.toJson.depth ≤ depth then some l else none := by
    have hone : (Json.ofMembers [(l.kind, l.content)]).depth = 1 := by
      simp [Json.ofMembers, Json.depth, Json.depthOfMembers, hdepth]
    rw [hl, hone]
    cases depth with
    | zero => rfl
    | succ depth =>
      show (Json.ofMembers [(l.kind, l.content)]).tagged?.bind (fun t => ofTagged? t.1 t.2) = _
      rw [Json.tagged?_ofMembers, Option.bind_some, ofTagged?_content h, if_pos (by omega)]
  cases l with
  | float f _ => cases h
  | null =>
    show (if (Json.ofText "Null").string? = some "Null" then some null else none) = _
    rw [Json.string?_ofText, if_pos rfl]
    exact (if_pos (Nat.zero_le depth)).symm
  | str s => exact hmembers rfl rfl
  | int i => exact hmembers rfl rfl
  | bool b => exact hmembers rfl rfl

theorem mapM_ofJson?_toJson {ls : List Literal} (h : ∀ l ∈ ls, l.isFloat = false) (depth : Nat) :
    (ls.map toJson).mapM (ofJson? depth) =
      if Json.depthOfItems (ls.map toJson) ≤ depth then some ls else none := by
  induction ls with
  | nil => simp [Json.depthOfItems]
  | cons l ls ih =>
    have hl := ofJson?_toJson (h l List.mem_cons_self) depth
    have hls := ih fun x hx => h x (List.mem_cons_of_mem _ hx)
    simp only [List.map_cons, List.mapM_cons, hl, hls, Json.depthOfItems, Nat.max_le]
    by_cases h₁ : l.toJson.depth ≤ depth
    · by_cases h₂ : Json.depthOfItems (ls.map toJson) ≤ depth <;> simp [h₁, h₂]
    · simp [h₁]

theorem listOfJson?_map_toJson {ls : List Literal} (h : ∀ l ∈ ls, l.isFloat = false) (depth : Nat) :
    listOfJson? depth (.arr (ls.map toJson)) =
      if (Json.arr (ls.map toJson)).depth ≤ depth then some ls else none := by
  rw [Json.depth]
  cases depth with
  | zero => rfl
  | succ depth =>
    rw [listOfJson?, mapM_ofJson?_toJson h]
    simp

end Literal

/-! ## Filters -/

namespace Filter

/-- The literals in a filter. -/
def literals : Filter → List Literal
  | test _ _ value => [value]
  | oneOf _ values => values
  | isNull _ | isNotNull _ => []
  | and left right | or left right => literals left ++ literals right
  | not operand => literals operand

/-- The fields of a filter on a column. -/
theorem written_fields (column name : String) {content : Json} (h : content.Written) :
    (Json.ofMembers [("column", .ofText column), (name, content)]).Written :=
  .ofMembers (List.forall_mem_cons.mpr ⟨.ofText _, List.forall_mem_singleton.mpr h⟩)

theorem written_toJson {f : Filter} (h : ∀ l ∈ f.literals, l.isFloat = false) :
    f.toJson.Written := by
  have htag (kind : String) {content : Json} (hcontent : content.Written) :
      (Json.ofMembers [(kind, content)]).Written :=
    .ofMembers (List.forall_mem_singleton.mpr hcontent)
  have hpair {left right : Json} (hl : left.Written) (hr : right.Written) :
      (Json.arr [left, right]).Written :=
    .arr (List.forall_mem_cons.mpr ⟨hl, List.forall_mem_singleton.mpr hr⟩)
  induction f with
  | test column kind value =>
    exact htag _ (written_fields _ _ (Literal.written_toJson (h value List.mem_cons_self)))
  | oneOf column values =>
    refine htag _ (written_fields _ _ (.arr fun j hj => ?_))
    obtain ⟨l, hl, rfl⟩ := List.mem_map.mp hj
    exact Literal.written_toJson (h l hl)
  | isNull column => exact htag _ (htag _ (.ofText column))
  | isNotNull column => exact htag _ (htag _ (.ofText column))
  | and left right ihl ihr =>
    exact htag _ (hpair (ihl fun l hl => h l (List.mem_append_left _ hl))
      (ihr fun l hl => h l (List.mem_append_right _ hl)))
  | or left right ihl ihr =>
    exact htag _ (hpair (ihl fun l hl => h l (List.mem_append_left _ hl))
      (ihr fun l hl => h l (List.mem_append_right _ hl)))
  | not operand ih => exact htag _ (ih h)

/-! ### One level of a filter -/

@[simp]
theorem ofJson?_zero (j : Json) : ofJson? 0 j = none := by
  rw [ofJson?]

theorem ofJson?_test (kind : FilterTest) (fields : Json) (depth : Nat) :
    ofJson? (depth + 1) (.ofMembers [(kind.name, fields)]) =
      testOfFields? depth kind.name fields := by
  rw [ofJson?, Json.tagged?_ofMembers]
  cases kind <;> rfl

theorem testOfFields?_fields (column : String) (kind : FilterTest) {value : Literal}
    (h : value.isFloat = false) (depth : Nat) :
    testOfFields? (depth + 1) kind.name
        (.ofMembers [("column", .ofText column), ("value", value.toJson)]) =
      if value.toJson.depth ≤ depth then some (test column kind value) else none := by
  have hfields : ["column", "value"].mapM
      (Json.onlyMember? [("column", .ofText column), ("value", value.toJson)]) =
        some [.ofText column, value.toJson] := rfl
  rw [testOfFields?, FilterTest.ofName?_name, Json.fields?_ofMembers, hfields]
  simp only [Option.bind_eq_bind, Option.bind_some, Json.string?_ofText, Nat.add_sub_cancel,
    Literal.ofJson?_toJson h]
  split <;> rfl

theorem ofJson?_oneOf (fields : Json) (depth : Nat) :
    ofJson? (depth + 1) (.ofMembers [("In", fields)]) = oneOfFields? depth fields := by
  rw [ofJson?, Json.tagged?_ofMembers]
  rfl

theorem oneOfFields?_fields (column : String) {values : List Literal}
    (h : ∀ l ∈ values, l.isFloat = false) (depth : Nat) :
    oneOfFields? (depth + 1)
        (.ofMembers [("column", .ofText column), ("values", .arr (values.map Literal.toJson))]) =
      if (Json.arr (values.map Literal.toJson)).depth ≤ depth then some (oneOf column values)
      else none := by
  have hfields : ["column", "values"].mapM (Json.onlyMember?
      [("column", .ofText column), ("values", .arr (values.map Literal.toJson))]) =
        some [.ofText column, .arr (values.map Literal.toJson)] := rfl
  rw [oneOfFields?, Json.fields?_ofMembers, hfields]
  simp only [Option.bind_eq_bind, Option.bind_some, Json.string?_ofText, Nat.add_sub_cancel,
    Literal.listOfJson?_map_toJson h]
  split <;> rfl

theorem columnOfFields?_fields (column : String) (depth : Nat) :
    columnOfFields? depth (.ofMembers [("column", .ofText column)]) =
      if 1 ≤ depth then some column else none := by
  cases depth with
  | zero => rfl
  | succ depth =>
    have hfields : ["column"].mapM (Json.onlyMember? [("column", .ofText column)]) =
        some [.ofText column] := rfl
    rw [columnOfFields?, Json.fields?_ofMembers, hfields, if_pos (by omega)]
    exact Json.string?_ofText column

/-- Both tests for nulls have a column and nothing else. -/
theorem ofJson?_nullTest {kind : String} {make : String → Filter}
    (h : (kind, make) = ("IsNull", isNull) ∨ (kind, make) = ("IsNotNull", isNotNull))
    (fields : Json) (depth : Nat) : ofJson? (depth + 1) (.ofMembers [(kind, fields)]) =
      (columnOfFields? depth fields).map make := by
  obtain h | h := h <;> cases h <;> rw [ofJson?, Json.tagged?_ofMembers] <;> rfl

/-- Both connectives take their two operands off a list, two levels down. -/
theorem ofJson?_connective {kind : String} {make : Filter → Filter → Filter}
    (h : (kind, make) = ("And", and) ∨ (kind, make) = ("Or", or)) (left right : Json)
    (depth : Nat) : ofJson? (depth + 2) (.ofMembers [(kind, .arr [left, right])]) =
      (ofJson? depth left).bind fun l => (ofJson? depth right).map (make l) := by
  obtain h | h := h <;> cases h <;> rw [ofJson?, Json.tagged?_ofMembers] <;>
    cases hl : ofJson? depth left <;> cases hr : ofJson? depth right <;> simp [hl, hr]

theorem ofJson?_not (operand : Json) (depth : Nat) :
    ofJson? (depth + 1) (.ofMembers [("Not", operand)]) = (ofJson? depth operand).map not := by
  rw [ofJson?, Json.tagged?_ofMembers]
  cases h : ofJson? depth operand <;> simp [h]

/-! ### Whole filters -/

theorem depth_tagged (kind : String) (content : Json) :
    (Json.ofMembers [(kind, content)]).depth = content.depth + 1 := by
  simp [Json.ofMembers, Json.depth, Json.depthOfMembers]

theorem depth_fields (column name : String) (content : Json) :
    (Json.ofMembers [("column", .ofText column), (name, content)]).depth = content.depth + 1 := by
  simp [Json.ofMembers, Json.depth, Json.depthOfMembers, Json.depth_ofText]

theorem depth_pair (left right : Json) :
    (Json.arr [left, right]).depth = max left.depth right.depth + 1 := by
  simp [Json.depth, Json.depthOfItems]

/-- A test for nulls is made of its tree. -/
theorem ofJson?_toJson_nullTest {kind : String} {make : String → Filter}
    (h : (kind, make) = ("IsNull", isNull) ∨ (kind, make) = ("IsNotNull", isNotNull))
    (column : String) (depth : Nat) :
    ofJson? depth (.ofMembers [(kind, .ofMembers [("column", .ofText column)])]) =
      if (Json.ofMembers [(kind, .ofMembers [("column", .ofText column)])]).depth ≤ depth
      then some (make column) else none := by
  rw [depth_tagged, depth_tagged, Json.depth_ofText]
  match depth with
  | 0 => simp
  | depth + 1 =>
    rw [ofJson?_nullTest h, columnOfFields?_fields]
    cases depth <;> simp

/-- With the operands of a connective made of their trees, so is the filter. -/
theorem ofJson?_toJson_connective {kind : String} {make : Filter → Filter → Filter}
    (h : (kind, make) = ("And", and) ∨ (kind, make) = ("Or", or)) {left right : Filter}
    (hl : ∀ depth, ofJson? depth left.toJson =
      if left.toJson.depth ≤ depth then some left else none)
    (hr : ∀ depth, ofJson? depth right.toJson =
      if right.toJson.depth ≤ depth then some right else none) (depth : Nat) :
    ofJson? depth (.ofMembers [(kind, .arr [left.toJson, right.toJson])]) =
      if (Json.ofMembers [(kind, .arr [left.toJson, right.toJson])]).depth ≤ depth
      then some (make left right) else none := by
  rw [depth_tagged, depth_pair]
  match depth with
  | 0 => simp
  | 1 =>
    -- the list of operands is a level of its own
    obtain h | h := h <;> cases h <;> rw [ofJson?, Json.tagged?_ofMembers] <;> simp
  | depth + 2 =>
    rw [ofJson?_connective h, hl, hr]
    simp only [Nat.add_le_add_iff_right, Nat.max_le]
    by_cases hleft : left.toJson.depth ≤ depth <;> by_cases hright : right.toJson.depth ≤ depth <;>
      simp [hleft, hright]

/-- **A filter is made of its tree, if and only if there are levels enough for it.** -/
theorem ofJson?_toJson {f : Filter} (h : ∀ l ∈ f.literals, l.isFloat = false) (depth : Nat) :
    ofJson? depth f.toJson = if f.toJson.depth ≤ depth then some f else none := by
  induction f generalizing depth with
  | test column kind value =>
    have hvalue : value.isFloat = false := h value List.mem_cons_self
    rw [toJson, depth_tagged, depth_fields]
    match depth with
    | 0 => simp
    | 1 => rw [ofJson?_test]; cases kind <;> rfl
    | depth + 2 =>
      rw [ofJson?_test, testOfFields?_fields column kind hvalue]
      simp only [Nat.add_le_add_iff_right]
  | oneOf column values =>
    have hvalues : ∀ l ∈ values, l.isFloat = false := h
    rw [toJson, depth_tagged, depth_fields]
    match depth with
    | 0 => simp
    | 1 => rw [ofJson?_oneOf]; rfl
    | depth + 2 =>
      rw [ofJson?_oneOf, oneOfFields?_fields column hvalues]
      simp only [Nat.add_le_add_iff_right]
  | isNull column => exact ofJson?_toJson_nullTest (.inl rfl) column depth
  | isNotNull column => exact ofJson?_toJson_nullTest (.inr rfl) column depth
  | and left right ihl ihr =>
    exact ofJson?_toJson_connective (.inl rfl) (ihl fun l hl => h l (List.mem_append_left _ hl))
      (ihr fun l hl => h l (List.mem_append_right _ hl)) depth
  | or left right ihl ihr =>
    exact ofJson?_toJson_connective (.inr rfl) (ihl fun l hl => h l (List.mem_append_left _ hl))
      (ihr fun l hl => h l (List.mem_append_right _ hl)) depth
  | not operand ih =>
    rw [toJson, depth_tagged]
    match depth with
    | 0 => simp
    | depth + 1 =>
      rw [ofJson?_not, ih h]
      simp only [Nat.add_le_add_iff_right]
      split <;> rfl

/-- What is read of a stored filter is this filter or nothing. -/
theorem ofStored?_eq {f : Filter} (h : ∀ l ∈ f.literals, l.isFloat = false) :
    ofStored? f.stored = if f.toJson.depth ≤ storedDepth then some f else none := by
  rw [ofStored?, stored, Json.parse?_text (written_toJson h), Option.bind_some, ofJson?_toJson h]

/-- **A stored filter is read back, provided the reader goes deep enough for it.** -/
theorem ofStored?_stored {f : Filter} (h : ∀ l ∈ f.literals, l.isFloat = false) :
    ofStored? f.stored = some f ↔ f.toJson.depth ≤ storedDepth := by
  rw [ofStored?, stored, Json.parse?_text (written_toJson h), Option.bind_some, ofJson?_toJson h]
  split <;> simp [*]

/-- A filter of every shape, with texts that have to be escaped. -/
def awkward : Filter :=
  or (and (test "say \"id\"" .equals (.str "a\\b\n\x01ĉ☃")) (not (isNull "é")))
    (and (oneOf "n" [.int Int64.minValue, .int Int64.maxValue, .bool false, .null])
      (or (isNotNull "") (test "x" .atMost .null)))

theorem ofStored?_stored_awkward :
    (∀ l ∈ awkward.literals, l.isFloat = false) ∧ awkward.toJson.depth ≤ storedDepth ∧
      ofStored? awkward.stored = some awkward :=
  have hfloat : ∀ l ∈ awkward.literals, l.isFloat = false := by decide
  have hdepth : awkward.toJson.depth ≤ storedDepth := by decide
  ⟨hfloat, hdepth, (ofStored?_stored hfloat).mpr hdepth⟩

end Filter

end QueryPlan
