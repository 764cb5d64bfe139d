import FormFlow.Document.Printer

/-!
# Documents over several lines

The text of a document for readers: each member and each element on a line of its own, two spaces
deeper than what holds it. Empty containers stay on one line.
-/

namespace FormFlow.Document

def newLine (depth : Nat) : String := String.ofList ('\n' :: List.replicate (2 * depth) ' ')

mutual

/-- The text of a document whose first line stands at a depth. -/
def prettyAt (depth : Nat) : Document → String
  | .array (item :: items) =>
    "[" ++ String.intercalate "," (prettyItems (depth + 1) (item :: items)) ++ newLine depth ++ "]"
  | .object (member :: members) =>
    "\x7b" ++ String.intercalate "," (prettyMembers (depth + 1) (member :: members)) ++
      newLine depth ++ "\x7d"
  | document => document.print

def prettyItems (depth : Nat) : List Document → List String
  | [] => []
  | item :: rest => (newLine depth ++ item.prettyAt depth) :: prettyItems depth rest

def prettyMembers (depth : Nat) : List (String × Document) → List String
  | [] => []
  | (name, value) :: rest =>
    (newLine depth ++ printText name ++ ": " ++ value.prettyAt depth) :: prettyMembers depth rest

end

def pretty (document : Document) : String := document.prettyAt 0

end FormFlow.Document
