import FormFlow.Expr.Resolve
import FormFlow.Plan.Basic

/-!
# Flows

A flow is a plan together with the functions that its expressions may call. Whatever it answers
depends on the flow and a document alone.
-/

namespace FormFlow

structure Flow where
  plan : Plan
  table : FunctionTable

namespace Flow

def scope (flow : Flow) (document : Document) (target : Option Location) : Scope :=
  ⟨flow.table, document, target⟩

/-- Whether the output of a decision is truthy. -/
def output (flow : Flow) (document : Document) (id : String) : Bool :=
  (flow.plan.decision? id).any fun decision => decision.output.holds (flow.scope document none)

def derived (flow : Flow) (document : Document) : Members Document :=
  Members.putAll [] (flow.plan.derived.map fun derived =>
    (derived.id, (derived.expression.resolve (flow.scope document none)).toDocument))

end Flow

end FormFlow
