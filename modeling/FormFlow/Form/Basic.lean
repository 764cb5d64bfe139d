import FormFlow.Document.Basic

/-!
# Forms

A form declares sections of nodes, decisions that branch between sections, edges that join both
into a route from `START` to `END`, and values that are derived from the data. This module holds
the declarations as they are written, before any of their expressions is read.
-/

namespace FormFlow

/-- The vertex that every route leaves from. -/
def startId : String := "START"

/-- The vertex that every route leads to. -/
def endId : String := "END"

/-- `START` and `END` are no one's to take. -/
def isReserved (id : String) : Bool := id = startId || id = endId

inductive NodeKind where
  | sectionNode
  | group
  | arrayGroup
  | value
  | arrayValue
  deriving Repr, DecidableEq

namespace NodeKind

def names : List (String × NodeKind) :=
  [("section", sectionNode), ("group", group), ("array_group", arrayGroup), ("value", value),
    ("array_value", arrayValue)]

def ofName? (name : String) : Option NodeKind := Members.get? name names

def name : NodeKind → String
  | sectionNode => "section"
  | group => "group"
  | arrayGroup => "array_group"
  | value => "value"
  | arrayValue => "array_value"

theorem ofName?_name (kind : NodeKind) : ofName? kind.name = some kind := by
  cases kind <;> decide

end NodeKind

namespace Form

structure Attributes where
  id : Option String
  kind : Option NodeKind
  isArray : Bool
  preconditions : Option Document
  required : Option Document
  validations : List Document
  itemValidations : List Document
  /-- The name under which the data of this node is handed on. -/
  outerName : Option String
  /-- What a form starts with. Evaluation never reads it. -/
  initial : Option Document
  deriving Repr

namespace Attributes

def blank : Attributes := ⟨none, none, false, none, none, [], [], none, none⟩

def isRepeatable (attributes : Attributes) : Bool :=
  attributes.kind = some .arrayGroup || (attributes.kind = some .group && attributes.isArray)

end Attributes

/-- One node of a form. A node without an id stands for its children. -/
structure Node extends Attributes where
  children : List Node
  deriving Repr

/-- A branching point: whether its output is truthy selects the edge to follow. -/
structure Decision where
  id : String
  output : Document
  /-- All other members, in order. -/
  attributes : Members Document
  deriving Repr

/-- An edge between sections, decisions, `START` and `END`. -/
structure Edge where
  source : String
  target : String
  /-- The output for which an edge that leaves a decision is followed. -/
  condition : Option Bool
  deriving Repr, DecidableEq

/-- A named value computed from the data. -/
structure Derived where
  id : String
  expression : Document
  deriving Repr

/-- The edges of a route through the given vertices. -/
def Edge.chain : List String → List Edge
  | source :: target :: rest => ⟨source, target, none⟩ :: chain (target :: rest)
  | _ => []

/-- The route through the sections in their order, from `START` to `END`. -/
def Edge.linear (sections : List Node) : List Edge :=
  Edge.chain (startId :: sections.filterMap (·.id) ++ [endId])

end Form

structure Form where
  sections : List Form.Node
  decisions : List Form.Decision
  edges : List Form.Edge
  derived : List Form.Derived
  deriving Repr

end FormFlow
