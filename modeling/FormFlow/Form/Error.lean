import FormFlow.Form.Fault
import FormFlow.Path.Pattern

/-!
# Errors of a form

Why a form is not accepted. The first thing wrong is reported, and no plan is made.
-/

namespace FormFlow

inductive Form.Part where
  | sections
  | decisions
  | edges
  | derived
  deriving Repr, DecidableEq

def Form.Part.name : Form.Part → String
  | sections => "sections"
  | decisions => "decisions"
  | edges => "edges"
  | derived => "derived"

inductive FormError where
  | noForm
  | formNotObject
  | noSections
  | sectionsNotArray
  | sectionsEmpty
  | edgesNotArray
  | edgesEmpty
  | malformed (part : Form.Part) (fault : Form.Fault)
  | duplicateId (id : String)
  | duplicatePath (path : Pattern)
  | reservedId (id : String)
  | severalBeforeStart (source target : String)
  | edgeToUnknown (id : String)
  | edgeFromUnknown (id : String)
  | missingCondition (source target : String)
  | unexpectedCondition (source target : String)
  | noStartEdge
  | noEdgeFrom (id : String)
  | severalEdgesFrom (id : String)
  | noEdgeTo (id : String)
  | noTrueEdge (id : String)
  | noFalseEdge (id : String)
  | tooManyEdges (id : String)
  | cycle (id : String)
  | preconditionCycle (path : Pattern)
  deriving Repr

namespace FormError

def message : FormError → String
  | noForm =>
    "Configuration undefined. `compile` must be called with a valid configuration object"
  | formNotObject =>
    "Configuration is not an object. `compile` must be called with a valid configuration object"
  | noSections =>
    "Configuration does not contain any sections. At least one section is required"
  | sectionsNotArray => "Sections property is not an array"
  | sectionsEmpty => "Sections array is empty"
  | edgesNotArray => "Decisions exist, but edges not an array"
  | edgesEmpty => "Decisions exist, but edges array is empty"
  | malformed part fault => "Malformed `" ++ part.name ++ "` definition: " ++ fault.message
  | duplicateId id => "Duplicate id: " ++ id ++ " encountered"
  | duplicatePath path =>
    "Duplicate reference path: " ++ path.print ++ " is declared more than once"
  | reservedId id => "Id '" ++ id ++ "' is reserved and cannot be used for a section or decision"
  | severalBeforeStart source target =>
    "Multiple nodes before START (from: " ++ source ++ ", to: " ++ target ++ ")"
  | edgeToUnknown id => "Edge `to` points to non-existent node: " ++ id
  | edgeFromUnknown id => "Edge `from` points to non-existent node: " ++ id
  | missingCondition source target =>
    "Edge from decision '" ++ source ++ "' to '" ++ target ++ "' does not declare `when_input_is`"
  | unexpectedCondition source target =>
    "Edge from '" ++ source ++ "' to '" ++ target ++
      "' declares `when_input_is`, but only decision edges may"
  | noStartEdge => "No edges defined going from START"
  | noEdgeFrom id => "No edges defined going from section: " ++ id
  | severalEdgesFrom id => "Multiple edges defined going from section: " ++ id
  | noEdgeTo id => "No edges defined going to section: " ++ id
  | noTrueEdge id => "No edges defined going from decision: " ++ id ++ " for true conditions"
  | noFalseEdge id => "No edges defined going from decision: " ++ id ++ " for false conditions"
  | tooManyEdges id => "Too many edges going from decision: " ++ id
  | cycle id => "Edge graph contains a cycle involving node '" ++ id ++ "'"
  | preconditionCycle path =>
    "Preconditions form a dependency cycle involving '" ++ path.print ++ "'"

end FormError

end FormFlow
