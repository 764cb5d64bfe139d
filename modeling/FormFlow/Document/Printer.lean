import FormFlow.Document.Basic
import FormFlow.Decimal.Layout
import FormFlow.Text.Quoted

/-!
# Printing documents

The compact text of a document: no spaces, members in their order, numbers by `Layout.echo`. In a
text only quotes, backslashes and control characters are escaped.
-/

namespace FormFlow.Document

def escapedChar (c : Char) : List Char :=
  if c = '"' then ['\\', '"']
  else if c = '\\' then ['\\', '\\']
  else if c = '\n' then ['\\', 'n']
  else if c = '\r' then ['\\', 'r']
  else if c = '\t' then ['\\', 't']
  else if c = '\x08' then ['\\', 'b']
  else if c = '\x0c' then ['\\', 'f']
  else if c.toNat < 32 then
    ['\\', 'u', '0', '0', Nat.digitChar (c.toNat / 16), Nat.digitChar (c.toNat % 16)]
  else [c]

def printText (text : String) : String :=
  String.ofList ('"' :: text.toList.flatMap escapedChar ++ ['"'])

end FormFlow.Document

namespace FormFlow.Number

def print : Number → String
  | .whole value => String.ofList (Decimal.printInt value)
  | .real value => Decimal.print .echo value

end FormFlow.Number

namespace FormFlow.Document

mutual

def print : Document → String
  | .null => "null"
  | .bool true => "true"
  | .bool false => "false"
  | .number n => n.print
  | .text value => printText value
  | .array items => "[" ++ String.intercalate "," (printItems items) ++ "]"
  | .object members => "\x7b" ++ String.intercalate "," (printMembers members) ++ "\x7d"

def printItems : List Document → List String
  | [] => []
  | item :: rest => item.print :: printItems rest

def printMembers : List (String × Document) → List String
  | [] => []
  | (name, value) :: rest => (printText name ++ ":" ++ value.print) :: printMembers rest

end

end FormFlow.Document
