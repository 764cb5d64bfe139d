import FormFlow.Digraph.Order
import FormFlow.Plan.Node

/-!
# The order of the preconditions

A node depends on what its preconditions read, `^` read as `*`. Whatever has preconditions itself
above a reference is read as well, because it takes the referenced value with it when it goes.
Preconditions are checked in an order in which everything comes after what it depends on.
-/

namespace FormFlow.Plan

def guardedPaths (nodes : List Node) : List Pattern :=
  (nodes.filter Node.isGuarded).map Node.path

/-- The guarded path above which a part of a reference stands: the part itself, or with `*`. -/
def guardedForm? (guarded : List Pattern) (part : Pattern) : Option Pattern :=
  if part ∈ guarded then some part
  else if part.withEach ∈ guarded then some part.withEach
  else none

/-- The guarded paths above a reference, topmost first. -/
def guardedAbove (guarded : List Pattern) (reference : Pattern) : List Pattern :=
  (List.range' 1 (reference.length - 1)).filterMap fun length =>
    guardedForm? guarded (reference.take length)

/-- What the preconditions of a node depend on: each reference behind the guarded paths above it,
but neither the node itself nor what the node lies below. -/
def dependencies (guarded : List Pattern) (node : Node) : List Pattern :=
  let references := (node.preconditions.flatMap Expr.references).map Pattern.absolute
  (references.filter (· ≠ node.path)).flatMap fun reference =>
    (guardedAbove guarded reference).filter (fun above => !above.isPrefixOf node.path) ++
      [reference]

def withNode (guarded : List Pattern) (graph : Digraph Pattern) (node : Node) : Digraph Pattern :=
  (dependencies guarded node).foldl (fun graph source => graph.withNewEdge source node.path)
    (graph.withVertex node.path)

def dependencyGraph (nodes : List Node) : Digraph Pattern :=
  (nodes.filter Node.isGuarded).foldl (withNode (guardedPaths nodes)) Digraph.empty

/-- Every guarded path and every reference of a precondition, each after what it depends on. -/
def orderGuards (nodes : List Node) : Except FormError (List Pattern) :=
  match (dependencyGraph nodes).order with
  | .ok order => .ok order
  | .error path => .error (.preconditionCycle path)

end FormFlow.Plan
