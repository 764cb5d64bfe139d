import FormFlow.Decimal.Layout
import FormFlow.Document.Printer
import FormFlow.Form.Basic

/-!
# Faults in a declaration

What can be wrong with the shape of one declaration, and the words for it. A fault names what was
found and what was wanted there.
-/

namespace FormFlow.Form

/-- What a place in a declaration wants. -/
inductive Wanted where
  | text
  | truthValue
  | list
  | node
  | edge
  | decision
  | kind
  | nothing
  deriving Repr, DecidableEq

def Wanted.message : Wanted → String
  | text => "a string"
  | truthValue => "a boolean"
  | list => "a sequence"
  | node => "struct NodeDefinition"
  | edge => "struct EdgeDefinition"
  | decision => "struct DecisionDefinition"
  | kind => "string or map"
  | nothing => "unit"

inductive Fault where
  | wrongType (found : Document) (wanted : Wanted)
  | missing (member : String)
  | unknownKind (name : String)
  /-- A kind written as an object has one member. -/
  | notOneMember
  /-- An edge written as an array has a source and a target. -/
  | tooShort (length : Nat)
  | tooLong (length : Nat)
  /-- A collection that is no array. -/
  | noArray
  /-- A derived value without a text for its id. -/
  | derivedWithoutId
  | sectionWithoutId
  deriving Repr

namespace Fault

def describe : Document → String
  | .null => "null"
  | .bool true => "boolean `true`"
  | .bool false => "boolean `false`"
  | .number (.whole n) => "integer `" ++ Number.print (.whole n) ++ "`"
  | .number (.real x) => "floating point `" ++ Number.print (.real x) ++ "`"
  | .text value => "string " ++ Text.quoted value
  | .array _ => "sequence"
  | .object _ => "map"

def message : Fault → String
  | wrongType found wanted =>
    "invalid type: " ++ describe found ++ ", expected " ++ wanted.message
  | missing member => "missing field `" ++ member ++ "`"
  | unknownKind name =>
    "unknown variant `" ++ name ++ "`, expected one of " ++
      String.intercalate ", " (NodeKind.names.map fun (name, _) => "`" ++ name ++ "`")
  | notOneMember => "invalid value: map, expected map with a single key"
  | tooShort length =>
    "invalid length " ++ Text.Natural.print length ++
      ", expected struct EdgeDefinition with 3 elements"
  | tooLong length =>
    "invalid length " ++ Text.Natural.print length ++ ", expected fewer elements in array"
  | noArray => "expected an array"
  | derivedWithoutId => "derived entry is missing a string `id`"
  | sectionWithoutId => "top-level section is missing an `id`"

end Fault

end FormFlow.Form
