import FormFlow.Document.Basic
import FormFlow.Path.Location

/-!
# Reading and changing a document at a location

`at?` reads the value at a location, `insertAt` writes one and makes the containers on the way,
`removeAt` takes one out. Removing from an array leaves null in its place, so that the indexes of
the other elements stay what they are. `leaves` lists the places that hold no further place.
-/

namespace FormFlow.Document

/-- The value one step below. -/
def child? (step : Step) : Document → Option Document
  | .object members => Members.get? step.name members
  | .array items => step.position?.bind fun position => items[position]?
  | _ => none

def at? : Document → Location → Option Document
  | document, [] => some document
  | document, step :: rest => (document.child? step).bind fun child => child.at? rest

/-- Changes the element at an index; an array that is too short grows by nulls. -/
def changeItem (change : Document → Document) : Nat → List Document → List Document
  | 0, [] => [change .null]
  | 0, item :: rest => change item :: rest
  | position + 1, [] => .null :: changeItem change position []
  | position + 1, item :: rest => item :: changeItem change position rest

/-- Changes the value one step below, which is null before if there is none. A document that the
step cannot enter gives way to an empty array or object, as the step asks. -/
def changeChild (step : Step) (change : Document → Document) (document : Document) : Document :=
  match document, step with
  | .object members, step =>
    .object (Members.put step.name (change ((Members.get? step.name members).getD .null)) members)
  | .array items, .index position => .array (changeItem change position items)
  | _, .index position => .array (changeItem change position [])
  | _, .field name => .object [(name, change .null)]

def insertAt : Document → Location → Document → Document
  | _, [], value => value
  | document, step :: rest, value => document.changeChild step fun child => child.insertAt rest value

def replaceChild (document : Document) (step : Step) (value : Document) : Document :=
  match document with
  | .object members => .object (Members.put step.name value members)
  | .array items =>
    match step.position? with
    | some position => .array (items.set position value)
    | none => .array items
  | scalar => scalar

/-- The document without the value one step below: a member goes, an element becomes null. -/
def dropChild (step : Step) : Document → Document
  | .object members => .object (Members.erase step.name members)
  | document => document.replaceChild step .null

/-- The value taken from a location, and the document without it. Nothing can be taken from the
root, and nothing where there is no value. -/
def removeAt? : Location → Document → Option (Document × Document)
  | [], _ => none
  | [step], document => (document.child? step).map fun child => (child, document.dropChild step)
  | step :: next :: rest, document => do
    let child ← document.child? step
    let (removed, remaining) ← removeAt? (next :: rest) child
    some (removed, document.replaceChild step remaining)

/-- The document without the value at a location, if it has one there. -/
def without (location : Location) (document : Document) : Document :=
  match removeAt? location document with
  | some (_, remaining) => remaining
  | none => document

mutual

/-- The places below `base` that hold a scalar or an empty container, in document order. -/
def leaves (base : Location) : Document → List (Location × Document)
  | .object (member :: members) => memberLeaves base (member :: members)
  | .array (item :: items) => itemLeaves base 0 (item :: items)
  | leaf => [(base, leaf)]

def memberLeaves (base : Location) : List (String × Document) → List (Location × Document)
  | [] => []
  | (name, value) :: rest => value.leaves (base ++ [.field name]) ++ memberLeaves base rest

def itemLeaves (base : Location) (position : Nat) : List Document → List (Location × Document)
  | [] => []
  | item :: rest => item.leaves (base ++ [.index position]) ++ itemLeaves base (position + 1) rest

end

@[simp] theorem at?_nil (document : Document) : document.at? [] = some document := by
  cases document <;> rfl

theorem at?_cons (document : Document) (step : Step) (rest : Location) :
    document.at? (step :: rest) = (document.child? step).bind fun child => child.at? rest := by
  cases document <;> rfl

theorem at?_append (document : Document) (front back : Location) :
    document.at? (front ++ back) = (document.at? front).bind fun below => below.at? back := by
  induction front generalizing document with
  | nil => simp
  | cons step rest ih =>
    rw [List.cons_append, at?_cons, at?_cons, Option.bind_assoc]
    congr 1
    funext child
    exact ih child

end FormFlow.Document
