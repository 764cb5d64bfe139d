import FormFlow.Path.Access
import FormFlow.Path.Pattern

/-!
# Places that a pattern names

`Pattern.accepts` tells whether a location fits a pattern, `Pattern.locations` lists the places of
a document that do, in document order, and `Pattern.slots` lists the places where a node of that
pattern may hold a value, present or not.
-/

namespace FormFlow

/-- Whether a token fits a step. A member that is named by digits counts as an element. -/
def Token.accepts : Token → Step → Bool
  | .key name, step => name = step.name
  | .each, .index _ => true
  | .each, .field name => name ≠ "" && name.toList.all Text.isDigit
  | .same, _ => false

namespace Pattern

/-- Whether a location fits a pattern token by token. -/
def accepts : Pattern → Location → Bool
  | [], [] => true
  | token :: pattern, step :: location => token.accepts step && accepts pattern location
  | _, _ => false

/-- The places of a document that a pattern names, in document order. -/
def locations : Pattern → Document → List Location
  | [], _ => [[]]
  | .key name :: rest, .object members =>
    match Members.get? name members with
    | some child => (locations rest child).map (.field name :: ·)
    | none => []
  | .key name :: rest, .array items =>
    match Text.readIndex name.toList with
    | some position =>
      match items[position]? with
      | some child => (locations rest child).map (.index position :: ·)
      | none => []
    | none => []
  | .each :: rest, .array items =>
    items.zipIdx.flatMap fun (child, position) => (locations rest child).map (.index position :: ·)
  | _, _ => []

/-- A pattern cut behind its last `*`; the first part is empty when there is none. -/
def cutAtLastEach (pattern : Pattern) : Pattern × Pattern :=
  let isKey (token : Token) : Bool := token ≠ .each
  ((pattern.reverse.dropWhile isKey).reverse, (pattern.reverse.takeWhile isKey).reverse)

def keySteps (pattern : Pattern) : Location :=
  pattern.filterMap fun
    | .key name => some (.field name)
    | _ => none

/-- The places where a node may hold a value: the part up to the last `*` is looked up in the
document and the rest is added to each place found. A `*` at the end is left out first, so that
an array is one place. -/
def slots (pattern : Pattern) (document : Document) : List Location :=
  let target := pattern.withoutEach
  match target.cutAtLastEach with
  | ([], _) => target.location?.toList
  | (front, back) => (front.locations document).map (· ++ back.keySteps)

end Pattern

end FormFlow
