import FormFlow.Expr.Basic
import FormFlow.Form.Error

/-!
# The nodes of a plan

A plan holds the nodes of a form in one list, in the order of their declaration. Nodes name each
other by their positions in it. A node without an id is not kept: its children stand in its place.
-/

namespace FormFlow.Plan

structure Node where
  id : String
  kind : Option NodeKind
  /-- The ids from the section down to the node, with `*` behind each repeatable one. -/
  path : Pattern
  parent : Option Nat
  children : List Nat
  /-- The section that holds the node; a section holds itself. -/
  sectionNode : Nat
  repeatable : Bool
  preconditions : List Expr
  required : Option Requirement
  validations : List Rule
  itemValidations : List Rule
  /-- The name under which the data of the node is handed on. -/
  outerName : Option String
  initial : Option Document
  deriving Repr, Inhabited

namespace Node

def isSection (node : Node) : Bool := node.parent.isNone

def isArrayValue (node : Node) : Bool := node.kind = some .arrayValue

def isValue (node : Node) : Bool := node.kind = some .value || node.kind = some .arrayValue

def isGuarded (node : Node) : Bool := !node.preconditions.isEmpty

end Node

/-- Reads preconditions: an array holds several, anything else is one. -/
def preconditionsOf : Option Document → List Expr
  | none | some .null => []
  | some (.array items) => items.map Expr.ofDocument
  | some document => [Expr.ofDocument document]

/-- Where in a form a node stands. -/
structure Place where
  path : Pattern
  /-- The positions of the node above and of the section. -/
  above : Option (Nat × Nat)

namespace Place

def top : Place := ⟨[], none⟩

def pathOf (place : Place) (id : String) (repeatable : Bool) : Pattern :=
  let path := place.path ++ [.key id]
  if repeatable then path.withEach else path

def sectionOf (place : Place) (position : Nat) : Nat :=
  match place.above with
  | some (_, position) => position
  | none => position

end Place

def nodeAt (place : Place) (position : Nat) (id : String) (attributes : Form.Attributes)
    (children : List Nat) : Node where
  id := id
  kind :=
    match attributes.kind, place.above with
    | some kind, _ => some kind
    | none, none => some .sectionNode
    | none, some _ => none
  path := place.pathOf id attributes.isRepeatable
  parent := place.above.map Prod.fst
  children := children
  sectionNode := place.sectionOf position
  repeatable := attributes.isRepeatable
  preconditions := preconditionsOf attributes.preconditions
  required := attributes.required.map Requirement.ofDocument
  validations := attributes.validations.map Rule.ofDocument
  itemValidations := attributes.itemValidations.map Rule.ofDocument
  outerName := attributes.outerName
  initial := attributes.initial

end FormFlow.Plan
