import FormFlow.Proofs.Plan.Basic

/-!
# Null members

Null stands for a member that is left out. In a form, in the nodes and in the edges that are written
as objects, members that are null may be left out or put in, in any number and at any depth
(`OmitsNulls`), and what is made of the form is the same: the same plan, or the same error
(`ofDocument_of_omitsNulls`).

A node or an edge is read member by member, so what a null member does depends on what was read
before it. No name is there twice, so the property that a null member stands for is still as it was
before any member was read (`Lacks`), and null leaves it so.
-/

namespace FormFlow.Form

/-- What a document is read as. -/
inductive Shape where
  | form
  | nodes
  | node
  | edges
  | edge

namespace Shape

/-- The names of the members that may be null. -/
def nullable : Shape → List String
  | form => ["decisions", "edges", "derived"]
  | node => ["id", "type", "children", "preconditions", "required", "validations",
      "item_validations", "data_mapping", "default_value"]
  | edge => ["when_input_is"]
  | nodes | edges => []

/-- What the member of a name is read as, if it may have members of its own that are null. -/
def member? : Shape → String → Option Shape
  | form, name =>
    if name = "sections" then some nodes else if name = "edges" then some edges else none
  | node, name => if name = "children" then some nodes else none
  | _, _ => none

/-- What the element at a position is read as. The children of a node are its fourth element. -/
def item? : Shape → Nat → Option Shape
  | nodes, _ => some node
  | edges, _ => some edge
  | node, position => if position = 3 then some nodes else none
  | _, _ => none

end Shape

mutual

/-- What a document may become when members that are null are left out of it. -/
inductive OmitsNulls : Shape → Document → Document → Prop
  | same (shape : Shape) (document : Document) : OmitsNulls shape document document
  | object {shape : Shape} {members kept : Members Document} :
      MembersOmitNulls shape members kept → OmitsNulls shape (.object members) (.object kept)
  | array {shape : Shape} {items left : List Document} :
      ItemsOmitNulls shape 0 items left → OmitsNulls shape (.array items) (.array left)

/-- Members keep their order. Those that are null and may be are left out or kept. -/
inductive MembersOmitNulls : Shape → Members Document → Members Document → Prop
  | nil (shape : Shape) : MembersOmitNulls shape [] []
  | null {shape : Shape} {name : String} {members kept : Members Document}
      (hname : name ∈ shape.nullable) (hrest : MembersOmitNulls shape members kept) :
      MembersOmitNulls shape ((name, .null) :: members) kept
  | kept {shape : Shape} (member : String × Document) {members kept : Members Document}
      (hrest : MembersOmitNulls shape members kept) :
      MembersOmitNulls shape (member :: members) (member :: kept)
  | within {shape inner : Shape} {name : String} {value other : Document}
      {members kept : Members Document} (hshape : shape.member? name = some inner)
      (hvalue : OmitsNulls inner value other) (hrest : MembersOmitNulls shape members kept) :
      MembersOmitNulls shape ((name, value) :: members) ((name, other) :: kept)

/-- Elements keep their number and their order. -/
inductive ItemsOmitNulls : Shape → Nat → List Document → List Document → Prop
  | nil (shape : Shape) (position : Nat) : ItemsOmitNulls shape position [] []
  | kept {shape : Shape} {position : Nat} (item : Document) {items left : List Document}
      (hrest : ItemsOmitNulls shape (position + 1) items left) :
      ItemsOmitNulls shape position (item :: items) (item :: left)
  | within {shape inner : Shape} {position : Nat} {item other : Document}
      {items left : List Document} (hshape : shape.item? position = some inner)
      (hitem : OmitsNulls inner item other)
      (hrest : ItemsOmitNulls shape (position + 1) items left) :
      ItemsOmitNulls shape position (item :: items) (other :: left)

end

variable {shape inner : Shape} {document other : Document} {members kept : Members Document}
  {items left : List Document} {position : Nat} {name : String}

theorem ItemsOmitNulls.length_eq (h : ItemsOmitNulls shape position items left) :
    left.length = items.length := by
  induction items generalizing left position with
  | nil =>
    cases h
    rfl
  | cons item rest ih =>
    cases h with
    | kept _ hrest => rw [List.length_cons, List.length_cons, ih hrest]
    | within _ _ hrest => rw [List.length_cons, List.length_cons, ih hrest]

theorem ItemsOmitNulls.eq (hshape : ∀ position, shape.item? position = none)
    (h : ItemsOmitNulls shape position items left) : left = items := by
  induction items generalizing left position with
  | nil =>
    cases h
    rfl
  | cons item rest ih =>
    cases h with
    | kept _ hrest => rw [ih hrest]
    | within hinner => simp [hshape] at hinner

theorem MembersOmitNulls.eq (hnullable : shape.nullable = [])
    (hshape : ∀ name, shape.member? name = none) (h : MembersOmitNulls shape members kept) :
    kept = members := by
  induction members generalizing kept with
  | nil =>
    cases h
    rfl
  | cons member rest ih =>
    cases h with
    | null hname => simp [hnullable] at hname
    | kept _ hrest => rw [ih hrest]
    | within hinner => simp [hshape] at hinner

theorem exists_of_bind_eq_ok {ε α β : Type} {first : Except ε α} {next : α → Except ε β}
    {result : β} (h : first >>= next = .ok result) :
    ∃ value, first = .ok value ∧ next value = .ok result := by
  cases first with
  | error _ => cases h
  | ok value => exact ⟨value, rfl, h⟩

/-! ### Properties -/

namespace Attributes

variable {attributes next : Attributes} {property changed : Property}

/-- Nothing is declared of a property. -/
def Lacks (attributes : Attributes) : Property → Prop
  | .id => attributes.id = none
  | .kind => attributes.kind = none
  | .isArray => attributes.isArray = false
  | .preconditions => attributes.preconditions = none
  | .required => attributes.required = none
  | .validations => attributes.validations = []
  | .itemValidations => attributes.itemValidations = []
  | .outerName => attributes.outerName = none
  | .initial => attributes.initial = none

theorem lacks_blank (property : Property) : blank.Lacks property := by
  cases property <;> rfl

theorem withProperty_null (h : attributes.Lacks property) (hproperty : property ≠ .isArray) :
    attributes.withProperty property .null = .ok attributes := by
  obtain ⟨id, kind, isArray, preconditions, required, validations, itemValidations, outerName,
    initial⟩ := attributes
  cases property with
  | isArray => exact absurd rfl hproperty
  | _ =>
    simp only [Lacks] at h
    subst h
    rfl

theorem Lacks.withProperty (h : attributes.Lacks property) (hne : property ≠ changed)
    (hnext : attributes.withProperty changed document = .ok next) : next.Lacks property := by
  cases changed with
  | preconditions | required | initial =>
    obtain rfl := Except.ok.inj hnext
    cases property <;> first | exact absurd rfl hne | exact h
  | _ =>
    obtain ⟨value, -, hvalue⟩ := exists_of_bind_eq_ok hnext
    obtain rfl := Except.ok.inj hvalue
    cases property <;> first | exact absurd rfl hne | exact h

end Attributes

/-! ### Nodes -/

namespace Node

variable {node next : Node} {property? changed? : Option Property} {value : Document}

/-- Nothing is declared of a property, or of the children. -/
def Lacks (node : Node) : Option Property → Prop
  | some property => node.toAttributes.Lacks property
  | none => node.children = []

def declare (node : Node) (property? : Option Property) (value : Document) : Except Fault Node :=
  match property? with
  | some property => do .ok { node with toAttributes := ← node.withProperty property value }
  | none => do .ok { node with children := ← readChildren value }

theorem readMembers_of_some (hname : Members.get? name nodeMembers = some property?) (node : Node)
    (value : Document) (rest : Members Document) : readMembers node ((name, value) :: rest) =
      node.declare property? value >>= fun node => readMembers node rest := by
  rw [readMembers, hname]
  cases property? with
  | some property =>
    cases h : node.withProperty property value <;> simp [declare, h, bind, Except.bind]
  | none => cases h : readChildren value <;> simp [declare, h, bind, Except.bind]

theorem readMembers_of_none (hname : Members.get? name nodeMembers = none) (node : Node)
    (value : Document) (rest : Members Document) :
    readMembers node ((name, value) :: rest) = readMembers node rest := by
  rw [readMembers, hname]

theorem readArray_cons (node : Node) (name : String) (property? : Option Property)
    (names : List (String × Option Property)) (value : Document) (rest : List Document) :
    readArray node ((name, property?) :: names) (value :: rest) =
      node.declare property? value >>= fun node => readArray node names rest := by
  cases property? with
  | some property =>
    cases h : node.withProperty property value <;> simp [readArray, declare, h, bind, Except.bind]
  | none => cases h : readChildren value <;> simp [readArray, declare, h, bind, Except.bind]

theorem lacks_blank (property? : Option Property) : Lacks ⟨.blank, []⟩ property? := by
  cases property? with
  | some property => exact Attributes.lacks_blank property
  | none => rfl

theorem declare_null (h : node.Lacks property?) (hproperty : property? ≠ some .isArray) :
    node.declare property? .null = .ok node := by
  obtain ⟨attributes, children⟩ := node
  cases property? with
  | some property =>
    have hnull := Attributes.withProperty_null h fun heq => hproperty (congrArg some heq)
    simp [declare, hnull, bind, Except.bind]
  | none =>
    obtain rfl : children = [] := h
    rfl

theorem Lacks.declare (h : node.Lacks property?) (hne : property? ≠ changed?)
    (hnext : node.declare changed? value = .ok next) : next.Lacks property? := by
  cases changed? with
  | some changed =>
    obtain ⟨attributes, hattributes, hvalue⟩ := exists_of_bind_eq_ok hnext
    obtain rfl := Except.ok.inj hvalue
    cases property? with
    | some property =>
      exact Attributes.Lacks.withProperty h (fun heq => hne (congrArg some heq)) hattributes
    | none => exact h
  | none =>
    obtain ⟨children, -, hvalue⟩ := exists_of_bind_eq_ok hnext
    obtain rfl := Except.ok.inj hvalue
    cases property? with
    | some property => exact h
    | none => exact absurd rfl hne

theorem nodeMembers_injective (hname : Members.get? name nodeMembers = some property?)
    {other : String} (hother : Members.get? other nodeMembers = some property?) : name = other := by
  have h : ∀ first ∈ nodeMembers, ∀ second ∈ nodeMembers,
      first.2 = second.2 → first.1 = second.1 := by decide
  exact h _ (Members.mem_of_get? hname) _ (Members.mem_of_get? hother) rfl

theorem exists_of_nullable (hname : name ∈ Shape.node.nullable) :
    ∃ property?, Members.get? name nodeMembers = some property? ∧ property? ≠ some .isArray := by
  simp only [Shape.nullable, List.mem_cons, List.not_mem_nil, or_false] at hname
  rcases hname with rfl | rfl | rfl | rfl | rfl | rfl | rfl | rfl | rfl <;>
    exact ⟨_, rfl, by decide⟩

/-- Nothing is declared that members of these names stand for. -/
def LacksAll (node : Node) (names : List String) : Prop :=
  ∀ name ∈ names, ∀ property?, Members.get? name nodeMembers = some property? →
    node.Lacks property?

theorem LacksAll.declare {names : List String} (h : node.LacksAll names) (hname : name ∉ names)
    (hchanged : Members.get? name nodeMembers = some changed?)
    (hnext : node.declare changed? value = .ok next) : next.LacksAll names := by
  intro other hother property? hproperty
  refine (h other hother property? hproperty).declare ?_ hnext
  rintro rfl
  exact hname (nodeMembers_injective hchanged hproperty ▸ hother)

/-- Two values of one member, with other members behind it, are read alike if the values are and if
the others are read alike into every node that lacks what they declare. -/
theorem readMembers_congr {other : Document} (hname : name ∉ Members.keys members)
    (hlacks : node.LacksAll (name :: Members.keys members))
    (hfirst : ∀ property?, Members.get? name nodeMembers = some property? →
      node.declare property? other = node.declare property? value)
    (hrest : ∀ next : Node, next.LacksAll (Members.keys members) →
      readMembers next kept = readMembers next members) :
    readMembers node ((name, other) :: kept) = readMembers node ((name, value) :: members) := by
  have hbehind : node.LacksAll (Members.keys members) := fun name hmem =>
    hlacks name (List.mem_cons_of_mem _ hmem)
  cases hget : Members.get? name nodeMembers with
  | none => rw [readMembers_of_none hget, readMembers_of_none hget, hrest node hbehind]
  | some property? =>
    rw [readMembers_of_some hget, readMembers_of_some hget, hfirst property? hget]
    cases hnext : node.declare property? value with
    | error fault => rfl
    | ok next => exact hrest next (hbehind.declare hname hget hnext)

/-- Elements have their property by their position, so nothing is asked of the node that the others
are read into. -/
theorem readArray_congr {names : List (String × Option Property)} {other : Document}
    (hfirst : ∀ member ∈ names.head?, node.declare member.2 other = node.declare member.2 value)
    (hrest : ∀ next : Node, readArray next names.tail left = readArray next names.tail items) :
    readArray node names (other :: left) = readArray node names (value :: items) := by
  cases names with
  | nil => rfl
  | cons member names =>
    rw [readArray_cons, readArray_cons, hfirst member rfl]
    exact congrArg _ (funext hrest)

theorem declare_children {other : Document} (h : readChildren other = readChildren value)
    (node : Node) : node.declare none other = node.declare none value := by
  rw [declare, declare, h]

-- By the recursion of the documents. What carries it through the members is that no name is twice:
-- the node lacks whatever the members that are still to come declare.

mutual

theorem read_of_omitsNulls {document other : Document} (h : OmitsNulls .node document other)
    (hformed : document.WellFormed) : read other = read document := by
  cases h with
  | same => rfl
  | object hmembers =>
    rw [read, read]
    exact readMembers_of_omitsNulls hmembers hformed.2 hformed.1 _ fun _ _ property? _ =>
      lacks_blank property?
  | array hitems =>
    have hread := readArray_of_omitsNulls hitems hformed ⟨.blank, []⟩
    rw [List.drop_zero] at hread
    rw [read, read, hitems.length_eq, hread]
termination_by sizeOf document

/-- Members are read alike without those that are null, where nothing is declared that they stand
for. -/
theorem readMembers_of_omitsNulls {members kept : Members Document}
    (h : MembersOmitNulls .node members kept) (hformed : Document.MembersWellFormed members)
    (hnodup : (Members.keys members).Nodup) (node : Node)
    (hlacks : node.LacksAll (Members.keys members)) :
    readMembers node kept = readMembers node members := by
  cases h with
  | nil => rfl
  | null hname hrest =>
    obtain ⟨property?, hget, hproperty⟩ := exists_of_nullable hname
    -- no member before was of this name, so there is nothing that null could take back
    have hnull := declare_null (hlacks _ List.mem_cons_self property? hget) hproperty
    rw [readMembers_of_some hget, hnull]
    exact readMembers_of_omitsNulls hrest hformed.2 (List.nodup_cons.mp hnodup).2 node
      fun name hmem => hlacks name (List.mem_cons_of_mem _ hmem)
  | kept member hrest =>
    obtain ⟨hname, hnodup⟩ := List.nodup_cons.mp hnodup
    exact readMembers_congr hname hlacks (fun _ _ => rfl)
      (readMembers_of_omitsNulls hrest hformed.2 hnodup)
  | within hshape hvalue hrest =>
    obtain ⟨rfl, rfl⟩ : _ = "children" ∧ Shape.nodes = _ := by
      simpa [Shape.member?] using hshape
    obtain ⟨hname, hbehind⟩ := List.nodup_cons.mp hnodup
    refine readMembers_congr hname hlacks (fun property? hget => ?_)
      (readMembers_of_omitsNulls hrest hformed.2 hbehind)
    obtain rfl : none = property? := Option.some.inj hget
    exact declare_children (readChildren_of_omitsNulls hvalue hformed.1) node
termination_by sizeOf members

theorem readArray_of_omitsNulls {position : Nat} {items left : List Document}
    (h : ItemsOmitNulls .node position items left) (hformed : Document.ItemsWellFormed items)
    (node : Node) : readArray node (nodeMembers.drop position) left =
      readArray node (nodeMembers.drop position) items := by
  cases h with
  | nil => rfl
  | kept item hrest =>
    refine readArray_congr (fun _ _ => rfl) fun next => ?_
    rw [List.tail_drop]
    exact readArray_of_omitsNulls hrest hformed.2 next
  | within hshape hitem hrest =>
    obtain ⟨rfl, rfl⟩ : position = 3 ∧ Shape.nodes = _ := by simpa [Shape.item?] using hshape
    refine readArray_congr (fun member hmember => ?_) fun next =>
      readArray_of_omitsNulls hrest hformed.2 next
    obtain rfl := Option.some.inj hmember
    exact declare_children (readChildren_of_omitsNulls hitem hformed.1) node
termination_by sizeOf items

theorem readChildren_of_omitsNulls {document other : Document}
    (h : OmitsNulls .nodes document other)
    (hformed : document.WellFormed) : readChildren other = readChildren document := by
  cases h with
  | same => rfl
  | object hmembers => rw [hmembers.eq rfl fun _ => rfl]
  | array hitems =>
    rw [readChildren, readChildren]
    exact readAll_of_omitsNulls hitems hformed
termination_by sizeOf document

theorem readAll_of_omitsNulls {position : Nat} {items left : List Document}
    (h : ItemsOmitNulls .nodes position items left)
    (hformed : Document.ItemsWellFormed items) : readAll left = readAll items := by
  cases h with
  | nil => rfl
  | kept item hrest => rw [readAll, readAll, readAll_of_omitsNulls hrest hformed.2]
  | within hshape hitem hrest =>
    obtain rfl := Option.some.inj hshape
    rw [readAll, readAll, read_of_omitsNulls hitem hformed.1, readAll_of_omitsNulls hrest hformed.2]
termination_by sizeOf items

end

end Node

/-! ### Edges -/

namespace Edge

variable {draft next : Draft} {value : Document}

def Draft.declare (draft : Draft) (name : String) (value : Document) : Except Fault Draft :=
  if name = "from" then do .ok { draft with source := some (← textOf value) }
  else if name = "to" then do .ok { draft with target := some (← textOf value) }
  else if name = "when_input_is" then do
    .ok { draft with condition := ← optionOf truthOf value }
  else .ok draft

theorem readMembers_cons (draft : Draft) (name : String) (value : Document)
    (rest : Members Document) : readMembers draft ((name, value) :: rest) =
      draft.declare name value >>= fun draft => readMembers draft rest := by
  rw [readMembers, Draft.declare]
  split_ifs
  · cases textOf value <;> rfl
  · cases textOf value <;> rfl
  · cases optionOf truthOf value <;> rfl
  · rfl

theorem condition_declare (hname : name ≠ "when_input_is")
    (hnext : draft.declare name value = .ok next) : next.condition = draft.condition := by
  unfold Draft.declare at hnext
  split_ifs at hnext
  · obtain ⟨source, -, hvalue⟩ := exists_of_bind_eq_ok hnext
    obtain rfl := Except.ok.inj hvalue
    rfl
  · obtain ⟨target, -, hvalue⟩ := exists_of_bind_eq_ok hnext
    obtain rfl := Except.ok.inj hvalue
    rfl
  · obtain rfl := Except.ok.inj hnext
    rfl

theorem readMembers_of_omitsNulls (h : MembersOmitNulls .edge members kept)
    (hnodup : (Members.keys members).Nodup) (draft : Draft)
    (hlacks : "when_input_is" ∈ Members.keys members → draft.condition = none) :
    readMembers draft kept = readMembers draft members := by
  induction members generalizing kept draft with
  | nil =>
    cases h
    rfl
  | cons member rest ih =>
    obtain ⟨hname, hrestNodup⟩ := List.nodup_cons.mp hnodup
    cases h with
    | null hnull hrest =>
      obtain rfl := List.mem_singleton.mp hnull
      obtain ⟨source, target, condition⟩ := draft
      obtain rfl : condition = none := hlacks List.mem_cons_self
      rw [readMembers_cons]
      exact ih hrest hrestNodup _ fun hmem => absurd hmem hname
    | kept _ hrest =>
      obtain ⟨name, value⟩ := member
      rw [readMembers_cons, readMembers_cons]
      cases hnext : draft.declare name value with
      | error fault => rfl
      | ok next =>
        refine ih hrest hrestNodup next fun hmem => ?_
        have hne : name ≠ "when_input_is" := by
          rintro rfl
          exact hname hmem
        rw [condition_declare hne hnext]
        exact hlacks (List.mem_cons_of_mem _ hmem)
    | within hshape => simp [Shape.member?] at hshape

theorem read_of_omitsNulls (h : OmitsNulls .edge document other) (hformed : document.WellFormed) :
    read other = read document := by
  cases h with
  | same => rfl
  | object hmembers =>
    rw [read, read, readMembers_of_omitsNulls hmembers hformed.1 _ fun _ => rfl]
  | array hitems => rw [hitems.eq fun _ => rfl]

end Edge

/-! ### Forms -/

theorem readPart_of_omitsNulls {α : Type} {part : Part} {read : Document → Except Fault α}
    (hshape : ∀ position, shape.item? position = some inner)
    (hread : ∀ {document other : Document}, OmitsNulls inner document other →
      document.WellFormed → read other = read document)
    (h : ItemsOmitNulls shape position items left) (hformed : Document.ItemsWellFormed items) :
    readPart part read left = readPart part read items := by
  induction items generalizing left position with
  | nil =>
    cases h
    rfl
  | cons item rest ih =>
    cases h with
    | kept _ hrest => rw [readPart, readPart, ih hrest hformed.2]
    | within hinner hitem hrest =>
      obtain rfl := Option.some.inj ((hshape position).symm.trans hinner)
      rw [readPart, readPart, ih hrest hformed.2, hread hitem hformed.1]

theorem readSections_of_omitsNulls (h : OmitsNulls .nodes document other)
    (hformed : document.WellFormed) :
    readSections (some other) = readSections (some document) := by
  cases h with
  | same => rfl
  | object hmembers => rw [hmembers.eq rfl fun _ => rfl]
  | @array _ items left hitems =>
    have hparts : readPart .sections Node.read left = readPart .sections Node.read items :=
      readPart_of_omitsNulls (fun _ => rfl) Node.read_of_omitsNulls hitems hformed
    cases hitems with
    | nil => rfl
    | kept => exact hparts
    | within => exact hparts

theorem readEdges_of_omitsNulls (h : OmitsNulls .edges document other)
    (hformed : document.WellFormed) (sections : List Node) (hasDecisions : Bool) :
    readEdges sections hasDecisions (some other) =
      readEdges sections hasDecisions (some document) := by
  cases h with
  | same => rfl
  | object hmembers => rw [hmembers.eq rfl fun _ => rfl]
  | @array _ items left hitems =>
    have hparts : readPart .edges Edge.read left = readPart .edges Edge.read items :=
      readPart_of_omitsNulls (fun _ => rfl) Edge.read_of_omitsNulls hitems hformed
    cases hitems with
    | nil => rfl
    | kept => exact hparts
    | within => exact hparts

theorem MembersOmitNulls.keys_sublist (h : MembersOmitNulls shape members kept) :
    (Members.keys kept).Sublist (Members.keys members) := by
  induction members generalizing kept with
  | nil =>
    cases h
    exact .slnil
  | cons member rest ih =>
    cases h with
    | null _ hrest => exact .cons _ (ih hrest)
    | kept _ hrest => exact .cons_cons _ (ih hrest)
    | within _ _ hrest => exact .cons_cons _ (ih hrest)

/-- What becomes of the member of a name: it stays, it is null and left out, or it is read on. -/
theorem MembersOmitNulls.get?_cases (h : MembersOmitNulls shape members kept)
    (hnodup : (Members.keys members).Nodup) (name : String) :
    Members.get? name kept = Members.get? name members ∨
      (name ∈ shape.nullable ∧ Members.get? name members = some .null ∧
        Members.get? name kept = none) ∨
      ∃ inner value other, shape.member? name = some inner ∧
        Members.get? name members = some value ∧ Members.get? name kept = some other ∧
        OmitsNulls inner value other := by
  induction members generalizing kept with
  | nil =>
    cases h
    exact .inl rfl
  | cons member rest ih =>
    obtain ⟨key, value⟩ := member
    obtain ⟨hkey, hrestNodup⟩ := List.nodup_cons.mp hnodup
    by_cases hname : key = name
    · subst hname
      cases h with
      | null hnull hrest =>
        refine .inr (.inl ⟨hnull, by simp [Members.get?], ?_⟩)
        exact Members.get?_eq_none_iff.mpr fun hmem => hkey (hrest.keys_sublist.subset hmem)
      | kept => exact .inl (by simp [Members.get?])
      | within hinner hvalue =>
        exact .inr (.inr ⟨_, _, _, hinner, by simp [Members.get?], by simp [Members.get?], hvalue⟩)
    · rw [Members.get?, if_neg hname]
      cases h with
      | null _ hrest => exact ih hrest hrestNodup
      | kept _ hrest =>
        rw [Members.get?, if_neg hname]
        exact ih hrest hrestNodup
      | within _ _ hrest =>
        rw [Members.get?, if_neg hname]
        exact ih hrest hrestNodup

theorem readOptionalPart_of_omitsNulls {α : Type} {part : Part} {read : Document → Except Fault α}
    (hshape : shape.member? name = none) (h : MembersOmitNulls shape members kept)
    (hnodup : (Members.keys members).Nodup) :
    readOptionalPart part read (Members.get? name kept) =
      readOptionalPart part read (Members.get? name members) := by
  rcases h.get?_cases hnodup name with hsame | ⟨-, hnull, hnone⟩ | ⟨_, _, _, hinner, -⟩
  · rw [hsame]
  · rw [hnull, hnone]
    rfl
  · simp [hshape] at hinner

theorem read_of_omitsNulls (h : OmitsNulls .form document other) (hformed : document.WellFormed) :
    Form.read other = Form.read document := by
  cases h with
  | same => rfl
  | array => rfl
  | @object _ members kept hmembers =>
    obtain ⟨hnodup, hvalues⟩ := hformed
    have hwell {name : String} {value : Document}
        (hvalue : Members.get? name members = some value) : value.WellFormed :=
      Document.membersWellFormed_iff.mp hvalues _ (Members.mem_of_get? hvalue)
    have hsections : readSections (Members.get? "sections" kept) =
        readSections (Members.get? "sections" members) := by
      rcases hmembers.get?_cases hnodup "sections" with
        hsame | ⟨hnull, -⟩ | ⟨inner, value, other, hinner, hvalue, hother, homits⟩
      · rw [hsame]
      · exact absurd hnull (by decide)
      · obtain rfl := Option.some.inj hinner
        rw [hvalue, hother, readSections_of_omitsNulls homits (hwell hvalue)]
    have hedges (sections : List Node) (hasDecisions : Bool) :
        readEdges sections hasDecisions (Members.get? "edges" kept) =
          readEdges sections hasDecisions (Members.get? "edges" members) := by
      rcases hmembers.get?_cases hnodup "edges" with
        hsame | ⟨-, hnull, hnone⟩ | ⟨inner, value, other, hinner, hvalue, hother, homits⟩
      · rw [hsame]
      · rw [hnull, hnone]
        rfl
      · obtain rfl := Option.some.inj hinner
        rw [hvalue, hother, readEdges_of_omitsNulls homits (hwell hvalue)]
    rw [Form.read, Form.read, hsections, readOptionalPart_of_omitsNulls rfl hmembers hnodup,
      readOptionalPart_of_omitsNulls rfl hmembers hnodup]
    simp only [hedges]

end FormFlow.Form

namespace FormFlow.Plan

open Form

/-- Members that are null may be left out of a form: it has the same plan, or the same error. -/
theorem ofDocument_of_omitsNulls {config other : Document} (hformed : config.WellFormed)
    (h : OmitsNulls .form config other) : ofDocument other = ofDocument config := by
  rw [ofDocument, ofDocument, read_of_omitsNulls h hformed]

/-! A form with null members at the top, in a section, in the nodes below it, of which one is below
a node that is written as an array, and in an edge. -/

def nulledNodes : Document := .array [
  .object [("id", .text "x"), ("type", .text "value"), ("validations", .null)],
  .array [.text "g", .text "group", .bool false, .array [
    .object [("id", .text "y"), ("preconditions", .null), ("children", .null)]]]]

def plainNodes : Document := .array [
  .object [("id", .text "x"), ("type", .text "value")],
  .array [.text "g", .text "group", .bool false, .array [.object [("id", .text "y")]]]]

def nulledForm : Document := .object [
  ("sections", .array [.object [("id", .text "a"), ("type", .null), ("children", nulledNodes)]]),
  ("decisions", .null),
  ("edges", .array [
    .object [("from", .text "START"), ("to", .text "a"), ("when_input_is", .null)],
    .array [.text "a", .text "END"]]),
  ("derived", .null)]

def plainForm : Document := .object [
  ("sections", .array [.object [("id", .text "a"), ("children", plainNodes)]]),
  ("edges", .array [
    .object [("from", .text "START"), ("to", .text "a")], .array [.text "a", .text "END"]])]

theorem omitsNulls_plainNodes : OmitsNulls .nodes nulledNodes plainNodes := by
  have hvalue : OmitsNulls .node
      (.object [("id", .text "x"), ("type", .text "value"), ("validations", .null)])
      (.object [("id", .text "x"), ("type", .text "value")]) :=
    .object (.kept _ (.kept _ (.null (by decide) (.nil _))))
  have hlast : OmitsNulls .node
      (.object [("id", .text "y"), ("preconditions", .null), ("children", .null)])
      (.object [("id", .text "y")]) :=
    .object (.kept _ (.null (by decide) (.null (by decide) (.nil _))))
  have hgroup : OmitsNulls .node
      (.array [.text "g", .text "group", .bool false, .array [
        .object [("id", .text "y"), ("preconditions", .null), ("children", .null)]]])
      (.array [.text "g", .text "group", .bool false, .array [.object [("id", .text "y")]]]) :=
    .array (.kept _ (.kept _ (.kept _ (.within rfl (.array (.within rfl hlast (.nil _ _)))
      (.nil _ _)))))
  exact .array (.within rfl hvalue (.within rfl hgroup (.nil _ _)))

theorem omitsNulls_plainForm : OmitsNulls .form nulledForm plainForm := by
  have hsection : OmitsNulls .node
      (.object [("id", .text "a"), ("type", .null), ("children", nulledNodes)])
      (.object [("id", .text "a"), ("children", plainNodes)]) :=
    .object (.kept _ (.null (by decide) (.within rfl omitsNulls_plainNodes (.nil _))))
  have hedge : OmitsNulls .edge
      (.object [("from", .text "START"), ("to", .text "a"), ("when_input_is", .null)])
      (.object [("from", .text "START"), ("to", .text "a")]) :=
    .object (.kept _ (.kept _ (.null (by decide) (.nil _))))
  exact .object (.within rfl (.array (.within rfl hsection (.nil _ _)))
    (.null (by decide) (.within rfl (.array (.within rfl hedge (.kept _ (.nil _ _))))
      (.null (by decide) (.nil _)))))

def plainSections : List Form.Node :=
  ((Form.read plainForm).toOption.getD ⟨[], [], [], []⟩).sections

theorem plan_plainForm : ofDocument plainForm = .ok (lone plainSections) := by
  have horder : orderGuards (flattenAll .top 0 plainSections) = .ok [] := by cbv
  have hread : Form.read plainForm =
    .ok ⟨plainSections, [], [⟨"START", "a", none⟩, ⟨"a", "END", none⟩], []⟩ := rfl
  exact ofDocument_eq_ok hread rfl rfl orderEdges_lone horder

theorem ofDocument_nulledForm :
    nulledForm.WellFormed ∧ ofDocument nulledForm = .ok (lone plainSections) := by
  have hformed : nulledForm.WellFormed := by
    simp [nulledForm, nulledNodes, Document.WellFormed, Document.ItemsWellFormed,
      Document.MembersWellFormed, Members.keys]
  exact ⟨hformed, (ofDocument_of_omitsNulls hformed omitsNulls_plainForm).symm.trans plan_plainForm⟩

end FormFlow.Plan
