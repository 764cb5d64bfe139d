import FormFlow.Text.Segments
import FormFlow.Text.Natural

/-!
# Locations

A location leads from the root of a document to one place in it, step by step: by the name of a
member or by the index of an element. It is written with full stops, as in `assets.0.value`.
-/

namespace FormFlow

inductive Step where
  | field (name : String)
  | index (position : Nat)
  deriving Repr, DecidableEq

namespace Step

/-- The name under which an object is asked for this step. -/
def name : Step → String
  | .field name => name
  | .index position => Text.Natural.print position

/-- The index under which an array is asked for this step, if it denotes one. -/
def position? : Step → Option Nat
  | .field name => Text.readIndex name.toList
  | .index position => some position

def isIndex : Step → Bool
  | .index _ => true
  | .field _ => false

/-- A segment that reads as an index is one. -/
def read (segment : List Char) : Step :=
  match Text.readIndex segment with
  | some position => .index position
  | none => .field (String.ofList segment)

end Step

/-- The steps from the root to a place. -/
abbrev Location := List Step

namespace Location

/-- Reads a dotted text; empty segments are skipped. -/
def read (text : String) : Location :=
  ((Text.cut text.toList).filter fun segment => segment ≠ []).map Step.read

/-- The dotted text of a location. -/
def print (location : Location) : String :=
  String.ofList (Text.glue (location.map fun step => step.name.toList))

/-- The location one step up; the root has none. -/
def parent? (location : Location) : Option Location :=
  if location = [] then none else some location.dropLast

end Location

end FormFlow
