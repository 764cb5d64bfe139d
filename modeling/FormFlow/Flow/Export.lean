import FormFlow.Flow.Navigation

/-!
# Outcomes as documents

The documents in which outcomes, their parts and destinations are given out.
-/

namespace FormFlow

namespace Message

def toDocument (message : Message) : Document :=
  .object [("path", .text message.path), ("message", .text message.text)]

def listToDocument (messages : List Message) : Document := .array (messages.map toDocument)

end Message

def SectionResult.toDocument (result : SectionResult) : Document :=
  .object [("status", .text result.verdict.name),
    ("validationMessages", Message.listToDocument result.messages)]

/-- The condition is left out where there is none. -/
def Route.JudgedEdge.toDocument (edge : Route.JudgedEdge) : Document :=
  .object ([("from", .text edge.source), ("to", .text edge.target)] ++
    (edge.condition.map fun value => ("when_input_is", Document.bool value)).toList ++
    [("status", .text (if edge.active then "active" else "inactive")),
      ("fromType", .text edge.sourceKind.name), ("toType", .text edge.targetKind.name)])

def Outcome.toDocument (outcome : Outcome) : Document :=
  .object [("data", outcome.document), ("mapped_data", outcome.outer),
    ("derived", .object outcome.derived),
    ("section_states", .object (outcome.sections.map fun (id, result) => (id, result.toDocument))),
    ("edge_states", .array (outcome.edges.map Route.JudgedEdge.toDocument)),
    ("current_pathway", .array (outcome.pathway.map .text))]

/-- Messages are left out where there are none. -/
def Destination.toDocument (destination : Destination) : Document :=
  .object (("sectionId", .text destination.id) ::
    (destination.messages.map fun messages =>
      ("validationMessages", Message.listToDocument messages)).toList)

end FormFlow
