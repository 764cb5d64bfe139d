import FormFlow.Flow.Validation
import FormFlow.Plan.OuterName
import FormFlow.Route.Judged

/-!
# Outcomes

`Flow.run` evaluates one document: it is pruned, its sections are validated and the edges judged.
A section that is not reached keeps its messages, but its data is taken out.
-/

namespace FormFlow

structure Outcome where
  /-- The pruned document without the data of sections that are not reached. -/
  document : Document
  /-- The document that is handed on. -/
  outer : Document
  derived : Members Document
  /-- The results of the sections by id. -/
  sections : Members SectionResult
  /-- The edges in the order of evaluation. -/
  edges : List Route.JudgedEdge
  /-- The sections and decisions passed through. -/
  pathway : List String

namespace Outcome

def isReached (outcome : Outcome) (id : String) : Bool := Route.isReached outcome.edges id

def isVertex (outcome : Outcome) (id : String) : Bool := Route.isVertex outcome.edges id

def section? (outcome : Outcome) (id : String) : Option SectionResult :=
  Members.get? id outcome.sections

end Outcome

namespace Flow

/-- What the edges of a flow are judged by: the results of its sections, and its decisions. -/
def judgement (flow : Flow) (document : Document) (sections : Members SectionResult) :
    Route.Judgement where
  valid id := (Members.get? id sections).any SectionResult.isValid
  output id := flow.output document id

def judge (flow : Flow) (document : Document) (sections : Members SectionResult) :
    List Route.JudgedEdge :=
  Route.judge (flow.judgement document sections) flow.plan.edges

def finalResult (edges : List Route.JudgedEdge) (id : String) (result : SectionResult) :
    SectionResult :=
  if Route.isReached edges id then result else { result with verdict := .unreachable }

/-- The document without the data of sections that are not reached. -/
def withoutUnreached (edges : List Route.JudgedEdge) (sections : Members SectionResult)
    (document : Document) : Document :=
  (sections.filter fun member => !Route.isReached edges member.1).foldl
    (fun document member => document.without [.field member.1]) document

def run (flow : Flow) (document : Document) : Outcome :=
  let pruned := flow.prune document
  let sections := flow.validate pruned
  let edges := flow.judge pruned sections
  let remaining := withoutUnreached edges sections pruned
  { document := remaining
    outer := flow.plan.outerDocument remaining
    derived := flow.derived pruned
    sections := sections.map fun (id, result) => (id, finalResult edges id result)
    edges := edges
    pathway := Route.pathway edges }

end Flow

end FormFlow
