import FormFlow.Document.Pretty
import FormFlow.Document.Reader
import FormFlow.Flow.Export
import FormFlow.Flow.Report
import FormFlow.Function.Standard

/-!
# Commands

What can be asked of a form on the command line. The form and the data are the members `config`
and `data` of one document; without `data` the empty object is taken.
-/

namespace FormFlow

inductive Command where
  | check
  | report
  | state
  | next (id : String)
  | previous (id : String)
  | reachable (id : String)
  deriving Repr, DecidableEq

namespace Command

def usage : String :=
  "usage: check | state [--format report|json] | next ID | previous ID | reachable ID\n"

def ofArguments? : List String → Option Command
  | ["check"] => some check
  | ["state"] | ["state", "--format", "report"] => some report
  | ["state", "--format", "json"] => some state
  | ["next", id] => some (next id)
  | ["previous", id] => some (previous id)
  | ["reachable", id] => some (reachable id)
  | _ => none

def checkText (plan : Plan) : String :=
  "Configuration OK: " ++ Text.Natural.print plan.sections.length ++ " sections, " ++
    Text.Natural.print plan.decisions.length ++ " decisions, " ++
    Text.Natural.print plan.edges.length ++ " edges\n"

def destinationText : Option Destination → String
  | some destination => destination.toDocument.pretty ++ "\n"
  | none => "null\n"

def answer (flow : Flow) (data : Document) : Command → String
  | check => checkText flow.plan
  | report => (flow.run data).report flow.plan
  | state => (flow.run data).toDocument.pretty ++ "\n"
  | next id => destinationText ((flow.run data).next id)
  | previous id => destinationText ((flow.run data).previous id)
  | reachable id => if (flow.run data).isReached id then "true\n" else "false\n"

def run (command : Command) (input : String) : Except String String :=
  match Document.read? input with
  | none => .error "Failed to parse the input"
  | some document =>
    match Plan.ofDocument ((document.member? "config").getD .null) with
    | .error error => .error ("Invalid configuration: " ++ error.message)
    | .ok plan =>
      .ok (command.answer ⟨plan, Standard.table⟩ ((document.member? "data").getD Document.empty))

end Command

end FormFlow
