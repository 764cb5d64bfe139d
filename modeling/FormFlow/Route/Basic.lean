import FormFlow.Form.Basic

/-!
# Routes

The graph of a form: its sections and decisions, with `START` and `END`, joined by edges. A vertex
is known by its id.
-/

namespace FormFlow

inductive VertexKind where
  | start
  | finish
  | sectionVertex
  | decision
  deriving Repr, DecidableEq

def VertexKind.name : VertexKind → String
  | start => "start"
  | finish => "end"
  | sectionVertex => "section"
  | decision => "decision"

namespace Route

/-- An edge with the kinds of its ends. -/
structure Edge where
  source : String
  target : String
  condition : Option Bool
  sourceKind : VertexKind
  targetKind : VertexKind
  deriving Repr, DecidableEq

/-- Marks the ends of an edge. An end that is no vertex is taken for a section. -/
def Edge.ofForm (kinds : Members VertexKind) (edge : Form.Edge) : Edge where
  source := edge.source
  target := edge.target
  condition := edge.condition
  sourceKind := (Members.get? edge.source kinds).getD .sectionVertex
  targetKind := (Members.get? edge.target kinds).getD .sectionVertex

end Route

end FormFlow
