import FormFlow.Form.Reader
import FormFlow.Path.Matching
import FormFlow.Plan.Dependency
import FormFlow.Plan.Tree
import FormFlow.Route.Check
import FormFlow.Route.Order

/-!
# Plans

A plan is a form that was accepted: its expressions are read, its nodes flattened, and the orders
in which edges and preconditions are evaluated are fixed.
-/

namespace FormFlow

structure Plan.Decision where
  id : String
  output : Expr
  attributes : Members Document
  deriving Repr

structure Plan.Derived where
  id : String
  expression : Expr
  deriving Repr

structure Plan where
  nodes : List Plan.Node
  /-- The positions of the sections. -/
  sections : List Nat
  decisions : List Plan.Decision
  /-- The edges in the order of evaluation. -/
  edges : List Route.Edge
  derived : List Plan.Derived
  kinds : Members VertexKind
  /-- The paths and references at which preconditions are checked, in that order. -/
  guardOrder : List Pattern
  deriving Repr

namespace Plan

/-- Makes the plan of a form. The route is checked first, then the paths of the nodes, then both
orders are looked for. -/
def ofForm (form : Form) : Except FormError Plan := do
  let kinds ← form.checkRoute
  let nodes ← nodesOf form.sections
  let edges ← Route.orderEdges kinds form.edges
  let guardOrder ← orderGuards nodes
  .ok {
    nodes := nodes
    sections := rootsAll 0 form.sections
    decisions := form.decisions.map fun decision =>
      ⟨decision.id, Expr.ofDocument decision.output, decision.attributes⟩
    edges := edges
    derived := form.derived.map fun derived => ⟨derived.id, Expr.ofDocument derived.expression⟩
    kinds := kinds
    guardOrder := guardOrder }

def ofDocument (document : Document) : Except FormError Plan := do ofForm (← Form.read document)

/-! ## Looking things up -/

def node? (plan : Plan) (position : Nat) : Option Node := plan.nodes[position]?

def sectionNodes (plan : Plan) : List Node := plan.sections.filterMap plan.node?

def section? (plan : Plan) (id : String) : Option Node :=
  plan.sectionNodes.find? (·.id = id)

def decision? (plan : Plan) (id : String) : Option Decision :=
  plan.decisions.find? (·.id = id)

def kind? (plan : Plan) (id : String) : Option VertexKind := Members.get? id plan.kinds

/-- The position of the node of a path, or else of the repeatable node of that path. -/
def positionOfPath? (plan : Plan) (path : Pattern) : Option Nat :=
  (positionOf? plan.nodes path).or (positionOf? plan.nodes path.withEach)

/-- The position of the node that holds a location. -/
def positionAt? (plan : Plan) (location : Location) : Option Nat :=
  plan.positionOfPath? (Pattern.ofLocation location)

def nodeAt? (plan : Plan) (location : Location) : Option Node :=
  (plan.positionAt? location).bind plan.node?

def subtree (plan : Plan) (position : Nat) : List Nat := subtreeOf plan.nodes position

/-- The places where a value node may hold a value in a document. -/
def valueSlots (plan : Plan) (document : Document) : List Location :=
  (plan.nodes.filter Node.isValue).flatMap fun node => node.path.slots document

end Plan

end FormFlow
