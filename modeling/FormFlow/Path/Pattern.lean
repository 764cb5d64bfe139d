import FormFlow.Path.Location

/-!
# Patterns

A pattern names places of a document without fixing every index: `*` stands for each element of an
array, and `^` takes the step that the place under evaluation has at the same position. It is
written from the root, as in `$.assets.*.value`.
-/

namespace FormFlow

inductive Token where
  /-- A member, or an element by its index. -/
  | key (name : String)
  /-- `*`: each element of an array. -/
  | each
  /-- `^`: the step at the same position of the place under evaluation. -/
  | same
  deriving Repr, DecidableEq

namespace Token

def read (segment : List Char) : Token :=
  if segment = ['*'] then .each
  else if segment = ['^'] then .same
  else .key (String.ofList segment)

def print : Token → String
  | .key name => name
  | .each => "*"
  | .same => "^"

end Token

abbrev Pattern := List Token

instance : LawfulBEq Pattern := inferInstanceAs (LawfulBEq (List Token))

namespace Pattern

/-- Reads a pattern; the leading `$.` or `$` may be left out. -/
def read (text : String) : Pattern :=
  let body := match text.toList with
    | '$' :: '.' :: rest => rest
    | '$' :: rest => rest
    | rest => rest
  if body = [] then [] else (Text.cut body).map Token.read

def print (pattern : Pattern) : String :=
  String.ofList ('$' :: pattern.flatMap fun token => '.' :: token.print.toList)

def hasEach (pattern : Pattern) : Bool := pattern.contains .each

def hasSame (pattern : Pattern) : Bool := pattern.contains .same

def endsWithEach (pattern : Pattern) : Bool := pattern.getLast? = some .each

/-- The pattern one token up; the root has none. -/
def parent? (pattern : Pattern) : Option Pattern :=
  if pattern = [] then none else some pattern.dropLast

def withEach (pattern : Pattern) : Pattern := pattern ++ [.each]

/-- The pattern without one `*` at its end, if it has one there. -/
def withoutEach (pattern : Pattern) : Pattern :=
  if pattern.endsWithEach then pattern.dropLast else pattern

/-- The pattern with `*` for every `^`: its shape, whatever place is under evaluation. -/
def absolute (pattern : Pattern) : Pattern :=
  pattern.map fun token => if token = .same then .each else token

/-- Takes every `^` from the location at the same position. Beyond its end `^` stays, and will
match nothing. -/
def relativeTo (location : Location) (pattern : Pattern) : Pattern :=
  pattern.zipIdx.map fun (token, position) =>
    match token, location[position]? with
    | .same, some step => .key step.name
    | token, _ => token

/-- The only location of a pattern without `*` and `^`. -/
def location? (pattern : Pattern) : Option Location :=
  pattern.mapM fun
    | .key name => some (.field name)
    | _ => none

/-- The pattern of the node that holds a location: `*` for every index, less one `*` at the end, so
that an element belongs to the node of its array. -/
def ofLocation (location : Location) : Pattern :=
  withoutEach <| location.map fun
    | .field name => .key name
    | .index _ => .each

end Pattern

end FormFlow
