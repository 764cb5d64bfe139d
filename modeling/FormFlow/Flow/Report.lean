import FormFlow.Document.Printer
import FormFlow.Flow.Outcome

/-!
# Reports

The report of an outcome: the pathway, then for each section its verdict, how many of its values are
answered and its messages, then the derived values.
-/

namespace FormFlow

namespace Report

/-- How many values of a section are answered. -/
structure Progress where
  answered : Nat
  total : Nat
  deriving Repr, DecidableEq

/-- The value slots that lie in the section of an id. -/
def slotsOf (slots : List Location) (id : String) : List Location :=
  slots.filter fun location => location.head?.any (·.name = id)

def progress (slots : List Location) (document : Document) (id : String) : Progress where
  answered :=
    ((slotsOf slots id).filter fun location => !Document.isVacant (document.at? location)).length
  total := (slotsOf slots id).length

/-- The label of a verdict, as wide as the longest. -/
def label (verdict : Verdict) : String :=
  let text := "[" ++ verdict.name ++ "]"
  text ++ String.ofList (List.replicate (13 - text.length) ' ')

def messageCount : Nat → String
  | 0 => ""
  | 1 => ", 1 message"
  | n => ", " ++ Text.Natural.print n ++ " messages"

def messageLine (message : Message) : String :=
  "      - " ++ message.path ++ ": " ++ message.text ++ "\n"

def sectionLines (id : String) (progress : Progress) (result : SectionResult) : String :=
  "  " ++ label result.verdict ++ " " ++ id ++ " (" ++ Text.Natural.print progress.answered ++ "/" ++
    Text.Natural.print progress.total ++ " answered" ++ messageCount result.messages.length ++
    ")\n" ++ String.join (result.messages.map messageLine)

def pathwayLine (pathway : List String) : String :=
  "Pathway: " ++
    (if pathway.isEmpty then "(not started)" else String.intercalate " -> " pathway) ++ "\n"

def derivedLines (derived : Members Document) : String :=
  if derived.isEmpty then ""
  else
    "Derived:\n" ++
      String.join (derived.map fun (id, value) => "  " ++ id ++ " = " ++ value.print ++ "\n")

end Report

def Outcome.report (outcome : Outcome) (plan : Plan) : String :=
  let slots := plan.valueSlots outcome.document
  let sections := plan.sectionNodes.filterMap fun node =>
    (outcome.section? node.id).map
      (Report.sectionLines node.id (Report.progress slots outcome.document node.id))
  Report.pathwayLine outcome.pathway ++ "Sections:\n" ++ String.join sections ++
    Report.derivedLines outcome.derived

end FormFlow
