import FormFlow.Proofs.Plan.Addresses
import FormFlow.Proofs.Plan.Arena
import FormFlow.Proofs.Plan.Kinship

/-!
# Declarations

What a form declares, read off its trees with no regard to positions: each declaration with those
that it stands in, and a path made of the ids of them all. The nodes are what the declarations with
an id say, one after another in the order of the document (`declares_named`). A form is accepted
exactly if these have pairwise different paths (`exists_nodesOf_iff`).
-/

namespace FormFlow.Plan

/-- A declaration of a form, with those that it stands in, the topmost first. -/
structure Declaration where
  around : List Form.Attributes
  own : Form.Attributes

namespace Declaration

/-- What a declaration adds to the paths of those in it; without an id that is nothing. -/
def segment (attributes : Form.Attributes) : Pattern :=
  match attributes.id with
  | none => []
  | some id => tokens id attributes.isRepeatable

def path (declaration : Declaration) : Pattern :=
  (declaration.around ++ [declaration.own]).flatMap segment

def isNamed (declaration : Declaration) : Bool := declaration.own.id.isSome

/-- Nothing around the declaration has an id. -/
def isTopmost (declaration : Declaration) : Bool := declaration.around.all (·.id.isNone)

mutual

/-- The declarations of a tree, each before those in it. -/
def listed (around : List Form.Attributes) : Form.Node → List Declaration
  | ⟨attributes, children⟩ => ⟨around, attributes⟩ :: listedAll (around ++ [attributes]) children

def listedAll (around : List Form.Attributes) : List Form.Node → List Declaration
  | [] => []
  | node :: rest => listed around node ++ listedAll around rest

end

/-- The declarations of a form that have an id, in the order of the document. -/
def named (sections : List Form.Node) : List Declaration :=
  (listedAll [] sections).filter isNamed

/-- A node is all that a declaration says. -/
structure Declares (declaration : Declaration) (node : Node) : Prop where
  id : declaration.own.id = some node.id
  path : node.path = declaration.path
  isSection : node.isSection = declaration.isTopmost
  kind : node.kind =
    declaration.own.kind.or (if declaration.isTopmost then some .sectionNode else none)
  repeatable : node.repeatable = declaration.own.isRepeatable
  preconditions : node.preconditions = preconditionsOf declaration.own.preconditions
  required : node.required = declaration.own.required.map Requirement.ofDocument
  validations : node.validations = declaration.own.validations.map Rule.ofDocument
  itemValidations : node.itemValidations = declaration.own.itemValidations.map Rule.ofDocument
  outerName : node.outerName = declaration.own.outerName
  initial : node.initial = declaration.own.initial

/-- A place has the path of the declarations around it, and is above all sections if none of them
has an id. -/
structure Surrounds (around : List Form.Attributes) (place : Place) : Prop where
  path : place.path = around.flatMap segment
  above : place.above.isNone = around.all (·.id.isNone)

variable {around : List Form.Attributes} {attributes : Form.Attributes}
  {children : List Form.Node} {place : Place} {first : Nat}

theorem Surrounds.pass (h : Surrounds around place) (hid : attributes.id = none) :
    Surrounds (around ++ [attributes]) place where
  path := by simp [h.path, segment, hid]
  above := by simp [h.above, hid]

theorem Surrounds.below {id : String} (h : Surrounds around place) (hid : attributes.id = some id)
    (above : Nat × Nat) :
    Surrounds (around ++ [attributes]) ⟨place.pathOf id attributes.isRepeatable, some above⟩ where
  path := by simp [Place.pathOf_eq, h.path, segment, hid]
  above := by simp [hid]

theorem Surrounds.declares {id : String} (h : Surrounds around place)
    (hid : attributes.id = some id) (positions : List Nat) :
    Declares ⟨around, attributes⟩ (nodeAt place first id attributes positions) where
  id := hid
  path := by simp [nodeAt, Place.pathOf_eq, Declaration.path, h.path, segment, hid]
  isSection := by simp [nodeAt, Node.isSection, isTopmost, ← h.above]
  kind := by
    rw [isTopmost, ← h.above, nodeAt]
    cases attributes.kind <;> cases place.above <;> rfl
  repeatable := rfl
  preconditions := rfl
  required := rfl
  validations := rfl
  itemValidations := rfl
  outerName := rfl
  initial := rfl

mutual

/-- The nodes of a tree are what its declarations with an id say, in their order. -/
theorem declares_flatten (declared : Form.Node) {around : List Form.Attributes} {place : Place}
    {first : Nat} (h : Surrounds around place) :
    List.Forall₂ Declares ((listed around declared).filter isNamed)
      (flatten place first declared) := by
  obtain ⟨attributes, children⟩ := declared
  rw [listed]
  cases hid : attributes.id with
  | none =>
    rw [flatten_of_none hid, List.filter_cons_of_neg (by simp [isNamed, hid])]
    exact declares_flattenAll children (h.pass hid)
  | some id =>
    rw [flatten_of_some hid, List.filter_cons_of_pos (by simp [isNamed, hid])]
    exact .cons (h.declares hid _) (declares_flattenAll children (h.below hid _))

theorem declares_flattenAll (declared : List Form.Node) {around : List Form.Attributes}
    {place : Place} {first : Nat} (h : Surrounds around place) :
    List.Forall₂ Declares ((listedAll around declared).filter isNamed)
      (flattenAll place first declared) := by
  cases declared with
  | nil => exact .nil
  | cons head rest =>
    rw [listedAll, List.filter_append, flattenAll]
    exact List.rel_append (declares_flatten head h) (declares_flattenAll rest h)

end

theorem declares_named (sections : List Form.Node) :
    List.Forall₂ Declares (named sections) (flattenAll .top 0 sections) :=
  declares_flattenAll sections ⟨rfl, rfl⟩

theorem map_path_of_declares {declarations : List Declaration} {nodes : List Node}
    (h : List.Forall₂ Declares declarations nodes) :
    nodes.map Node.path = declarations.map path := by
  induction h with
  | nil => rfl
  | cons hhead _ ih => rw [List.map_cons, List.map_cons, hhead.path, ih]

end Declaration

/-! ### Which forms are accepted -/

variable {nodes : List Node} {node : Node} {sections : List Form.Node}

theorem repeatedPath?_eq_none_iff {earlier : List Pattern} :
    repeatedPath? earlier nodes = none ↔
      (nodes.map Node.path).Nodup ∧ ∀ node ∈ nodes, node.path ∉ earlier := by
  constructor
  · exact nodup_of_repeatedPath?
  rintro ⟨hnodup, hfresh⟩
  induction nodes generalizing earlier with
  | nil => rfl
  | cons head rest ih =>
    rw [List.map_cons, List.nodup_cons] at hnodup
    rw [repeatedPath?_cons_of_notMem (hfresh head List.mem_cons_self)]
    refine ih hnodup.2 fun node hmem hin => ?_
    rcases List.mem_cons.mp hin with heq | hearlier
    · exact hnodup.1 (heq ▸ List.mem_map_of_mem hmem)
    · exact hfresh node (List.mem_cons_of_mem _ hmem) hearlier

theorem exists_nodesOf_iff :
    (∃ nodes, nodesOf sections = .ok nodes) ↔
      ((Declaration.named sections).map Declaration.path).Nodup := by
  rw [← Declaration.map_path_of_declares (Declaration.declares_named sections)]
  constructor
  · rintro ⟨nodes, h⟩
    exact (nodesOf_eq_ok h).1 ▸ nodup_paths h
  · intro hnodup
    have hfresh := repeatedPath?_eq_none_iff.mpr ⟨hnodup, fun _ _ => List.not_mem_nil⟩
    exact ⟨_, by rw [nodesOf, hfresh]⟩

end FormFlow.Plan
