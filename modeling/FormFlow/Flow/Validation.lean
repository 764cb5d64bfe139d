import FormFlow.Flow.Pruning

/-!
# Validation

A section has two kinds of message. A required value that is blank gives one, and so does a value
that one of its own rules refuses. Values whose preconditions are not met give none, and no
location gets two messages from rules.
-/

namespace FormFlow

namespace Document

/-- Nothing there, null and the empty text are blank. -/
def isBlank : Option Document → Bool
  | none | some .null => true
  | some (.text value) => value = ""
  | some _ => false

/-- An empty array is vacant too, and so is one whose first element is blank. -/
def isVacant : Option Document → Bool
  | some (.array items) => isBlank items.head?
  | document => isBlank document

end Document

structure Message where
  path : String
  text : String
  deriving Repr, DecidableEq

def Message.at (location : Location) (text : String) : Message := ⟨location.print, text⟩

inductive Verdict where
  | valid
  | invalid
  | unreachable
  deriving Repr, DecidableEq

def Verdict.name : Verdict → String
  | valid => "valid"
  | invalid => "invalid"
  | unreachable => "unreachable"

structure SectionResult where
  verdict : Verdict
  messages : List Message
  deriving Repr, DecidableEq

namespace SectionResult

def ofMessages (messages : List Message) : SectionResult :=
  ⟨if messages.isEmpty then .valid else .invalid, messages⟩

def isValid (result : SectionResult) : Bool := result.verdict = .valid

end SectionResult

namespace Flow

/-! ## Required values -/

/-- The message of a requirement at a location; none if nothing is required there. -/
def requirementText? (flow : Flow) (document : Document) (node : Plan.Node)
    (requirement : Requirement) (location : Location) : Option String :=
  let scope := flow.scope document (some location)
  match requirement with
  | .message text =>
    match text.resolve scope with
    | .text message => if message = "" then none else some message
    | value => if value.isTruthy then some (node.id ++ " is required") else none
  | .oneOf rules =>
    (rules.find? fun rule => rule.message ≠ "" && rule.check.holds scope).map Rule.message

/-- The message for a node at one of its slots, if it is vacant and required. -/
def vacancy? (flow : Flow) (document : Document) (node : Plan.Node)
    (requirement : Requirement) (location : Location) : Option Message :=
  if Document.isVacant (document.at? location) then
    match flow.requirementText? document node requirement location with
    | some text =>
      if flow.isLive document location then some (.at location text) else none
    | none => none
  else none

def vacanciesOf (flow : Flow) (document : Document) (node : Plan.Node) : List Message :=
  match node.required with
  | some requirement =>
    (node.path.slots document).filterMap (flow.vacancy? document node requirement)
  | none => []

/-- The messages for the vacant slots of all nodes of a section. -/
def vacancies (flow : Flow) (document : Document) (position : Nat) : List Message :=
  ((flow.plan.subtree position).filterMap flow.plan.node?).flatMap
    (flow.vacanciesOf document)

/-! ## Rules -/

/-- Rules to be checked at a location, once for each location and scope of rules. -/
structure Check where
  location : Location
  /-- Whether the rules are those for the elements of an array. -/
  forElement : Bool
  rules : List Rule

/-- The checks that a leaf calls for: an element of an array value calls for the rules of elements
and then for the rules of its array, any other leaf for the rules of its node. -/
def checksAt (flow : Flow) (leaf : Location) : List Check :=
  match flow.plan.nodeAt? leaf with
  | none => []
  | some node =>
    if node.isArrayValue && leaf.getLast?.any Step.isIndex then
      [⟨leaf, true, node.itemValidations⟩, ⟨leaf.dropLast, false, node.validations⟩]
    else [⟨leaf, false, node.validations⟩]

/-- The first rule of a check that resolves to `false`, for a live value that is not blank. -/
def failingRule? (flow : Flow) (document : Document) (check : Check) : Option Rule :=
  if Document.isBlank (document.at? check.location) ||
      !flow.isLive document check.location then none
  else
    check.rules.find? fun rule =>
      match rule.check.resolve (flow.scope document (some check.location)) with
      | .bool value => !value
      | _ => false

/-- Runs checks in order. A check that was run before is not run again, and none is run for a path
that has a message. -/
def runChecks (flow : Flow) (document : Document) (seen : List (Location × Bool))
    (messages : List Message) : List Check → List Message
  | [] => messages
  | check :: rest =>
    let key := (check.location, check.forElement)
    if check.rules.isEmpty || seen.contains key then
      flow.runChecks document seen messages rest
    else
      let seen := key :: seen
      if messages.any (·.path = check.location.print) then
        flow.runChecks document seen messages rest
      else
        match flow.failingRule? document check with
        | some rule =>
          flow.runChecks document seen (messages ++ [.at check.location rule.message]) rest
        | none => flow.runChecks document seen messages rest

def refusals (flow : Flow) (document : Document) (id : String) : List Message :=
  match document.member? id with
  | some data =>
    flow.runChecks document [] []
      ((data.leaves [.field id]).flatMap fun leaf => flow.checksAt leaf.1)
  | none => []

/-! ## Sections -/

def sectionMessages (flow : Flow) (document : Document) (position : Nat) (id : String) :
    List Message :=
  flow.vacancies document position ++ flow.refusals document id

def validate (flow : Flow) (document : Document) : Members SectionResult :=
  Members.sorted (flow.plan.sections.filterMap fun position =>
    (flow.plan.node? position).map fun node =>
      (node.id, .ofMessages (flow.sectionMessages document position node.id)))

end Flow

end FormFlow
