import FormFlow.Digraph.Order
import FormFlow.Form.Error
import FormFlow.Route.Basic

/-!
# The order of the edges

Edges are evaluated so that every edge into a vertex comes before the edges that leave it. `END`
is taken to follow `START`, and the edges of one vertex keep the order of their declaration.
-/

namespace FormFlow.Route

def graph (edges : List Form.Edge) : Digraph String :=
  edges.foldl (fun graph edge => graph.withEdge edge.source edge.target)
    (Digraph.empty.withEdge startId endId)

def orderEdges (kinds : Members VertexKind) (edges : List Form.Edge) :
    Except FormError (List Edge) :=
  match (graph edges).order with
  | .ok order =>
    .ok (order.flatMap fun id => (edges.filter (·.source = id)).map (Edge.ofForm kinds))
  | .error id => .error (.cycle id)

end FormFlow.Route
