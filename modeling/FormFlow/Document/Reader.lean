import FormFlow.Document.Basic
import FormFlow.Decimal.Numeral

/-!
# Reading documents

`Document.read?` reads the text of a document. A number is whole when it has neither point nor
exponent, is not minus zero and fits into 64 bits; any other number is the nearest double.
-/

namespace FormFlow.Document

open FormFlow.Text (isDigit)

def isSpace (c : Char) : Bool := c = ' ' || c = '\t' || c = '\n' || c = '\r'

def skipSpace (chars : List Char) : List Char := chars.dropWhile isSpace

/-- The whole numbers that fit into 64 bits, signed or unsigned. -/
def fitsWhole (n : Int) : Bool := -(Nat.pow 2 63) ≤ n && n < Nat.pow 2 64

def number? (chars : List Char) : Option Number :=
  let (negative, unsigned) := match chars with
    | '-' :: rest => (true, rest)
    | rest => (false, rest)
  let signed (n : Nat) : Int := if negative then -n else n
  let whole? :=
    if unsigned ≠ [] ∧ unsigned.all isDigit then some (signed (Text.Natural.value unsigned)) else none
  match whole? with
  | some n =>
    if fitsWhole n && !(negative && n == 0) then some (.whole n)
    else (Decimal.readFloat? chars).map .real
  | none => (Decimal.readFloat? chars).map .real

def isNumberChar (c : Char) : Bool :=
  isDigit c || c = '-' || c = '+' || c = '.' || c = 'e' || c = 'E'

def hexValue? (c : Char) : Option Nat :=
  if isDigit c then some (Text.digitValue c)
  else if 'a' ≤ c ∧ c ≤ 'f' then some (c.toNat - 'a'.toNat + 10)
  else if 'A' ≤ c ∧ c ≤ 'F' then some (c.toNat - 'A'.toNat + 10)
  else none

def hexUnit? : List Char → Option (Nat × List Char)
  | a :: b :: c :: d :: rest => do
    let a ← hexValue? a
    let b ← hexValue? b
    let c ← hexValue? c
    let d ← hexValue? d
    some (((a * 16 + b) * 16 + c) * 16 + d, rest)
  | _ => none

/-- A character escaped by its code unit, or by two units for one beyond the first plane. -/
def hexChar? (chars : List Char) : Option (Char × List Char) := do
  let (high, rest) ← hexUnit? chars
  if 0xD800 ≤ high ∧ high < 0xDC00 then
    match rest with
    | '\\' :: 'u' :: tail => do
      let (low, rest) ← hexUnit? tail
      if 0xDC00 ≤ low ∧ low < 0xE000 then
        some (Char.ofNat (0x10000 + (high - 0xD800) * 0x400 + (low - 0xDC00)), rest)
      else none
    | _ => none
  else some (Char.ofNat high, rest)

/-- The characters of a text up to its closing quote, the last one first. -/
def textChars? : Nat → List Char → List Char → Option (List Char × List Char)
  | 0, _, _ => none
  | fuel + 1, sofar, chars =>
    match chars with
    | '"' :: rest => some (sofar, rest)
    | '\\' :: 'u' :: rest => do
      let (c, rest) ← hexChar? rest
      textChars? fuel (c :: sofar) rest
    | '\\' :: 'n' :: rest => textChars? fuel ('\n' :: sofar) rest
    | '\\' :: 't' :: rest => textChars? fuel ('\t' :: sofar) rest
    | '\\' :: 'r' :: rest => textChars? fuel ('\r' :: sofar) rest
    | '\\' :: 'b' :: rest => textChars? fuel ('\x08' :: sofar) rest
    | '\\' :: 'f' :: rest => textChars? fuel ('\x0c' :: sofar) rest
    | '\\' :: c :: rest =>
      if c = '"' ∨ c = '\\' ∨ c = '/' then textChars? fuel (c :: sofar) rest else none
    | c :: rest => textChars? fuel (c :: sofar) rest
    | [] => none

def textTail? (chars : List Char) : Option (String × List Char) := do
  let (chars, rest) ← textChars? (chars.length + 1) [] chars
  some (String.ofList chars.reverse, rest)

mutual

/-- Reads one document. Every two calls in a row take at least one character, so fuel of twice the
text's length is enough. -/
def value? : Nat → List Char → Option (Document × List Char)
  | 0, _ => none
  | fuel + 1, chars =>
    match skipSpace chars with
    | 'n' :: 'u' :: 'l' :: 'l' :: rest => some (.null, rest)
    | 't' :: 'r' :: 'u' :: 'e' :: rest => some (.bool true, rest)
    | 'f' :: 'a' :: 'l' :: 's' :: 'e' :: rest => some (.bool false, rest)
    | '"' :: rest => do
      let (value, rest) ← textTail? rest
      some (.text value, rest)
    | '[' :: rest =>
      match skipSpace rest with
      | ']' :: rest => some (.array [], rest)
      | rest => do
        let (items, rest) ← items? fuel [] rest
        some (.array items.reverse, rest)
    | '\x7b' :: rest =>
      match skipSpace rest with
      | '\x7d' :: rest => some (.object [], rest)
      | rest => do
        let (members, rest) ← members? fuel [] rest
        some (.object members.reverse, rest)
    | rest => do
      let value ← number? (rest.takeWhile isNumberChar)
      some (.number value, rest.dropWhile isNumberChar)

def items? : Nat → List Document → List Char → Option (List Document × List Char)
  | 0, _, _ => none
  | fuel + 1, sofar, chars => do
    let (item, rest) ← value? fuel chars
    match skipSpace rest with
    | ',' :: rest => items? fuel (item :: sofar) rest
    | ']' :: rest => some (item :: sofar, rest)
    | _ => none

def members? : Nat → Members Document → List Char → Option (Members Document × List Char)
  | 0, _, _ => none
  | fuel + 1, sofar, chars =>
    match skipSpace chars with
    | '"' :: rest => do
      let (name, rest) ← textTail? rest
      match skipSpace rest with
      | ':' :: rest => do
        let (value, rest) ← value? fuel rest
        match skipSpace rest with
        | ',' :: rest => members? fuel ((name, value) :: sofar) rest
        | '\x7d' :: rest => some ((name, value) :: sofar, rest)
        | _ => none
      | _ => none
    | _ => none

end

/-- Reads a text that is one document and nothing else. -/
def read? (input : String) : Option Document := do
  let chars := input.toList
  let (value, rest) ← value? (2 * chars.length + 2) chars
  if skipSpace rest = [] then some value else none

end FormFlow.Document
