import FormFlow.Document.Basic
import FormFlow.Decimal.Layout
import FormFlow.Decimal.Numeral
import FormFlow.Text.Blank
import FormFlow.Text.Segments

/-!
# Values

Expressions resolve to values. A value is a document's tree without the order of members, together
with `undefined`, for what is not there, and handles to functions. All numbers are doubles.

This module holds the coercions of a value: whether it is blank or truthy, its number, its text,
and its document.
-/

namespace FormFlow

/-- What identifies a function among values. Two handles are the same function exactly when their
identities are equal. -/
structure FunctionHandle where
  name : String
  identity : Nat
  deriving Repr, DecidableEq

/-- The fields of an object are sorted by name, each name once. -/
inductive Value where
  | undefined
  | null
  | bool (value : Bool)
  | number (value : Float)
  | text (value : String)
  | array (items : List Value)
  | object (fields : List (String × Value))
  | function (handle : FunctionHandle)
  deriving Repr, Inhabited

namespace Value

/-- An object with the given fields, in any order. -/
def ofFields (fields : Members Value) : Value := .object (Members.sorted fields)

mutual

def ofDocument : Document → Value
  | .null => .null
  | .bool value => .bool value
  | .number n => .number n.toFloat
  | .text value => .text value
  | .array items => .array (ofItems items)
  | .object members => ofFields (ofMembers members)

def ofItems : List Document → List Value
  | [] => []
  | item :: rest => ofDocument item :: ofItems rest

def ofMembers : List (String × Document) → List (String × Value)
  | [] => []
  | (name, value) :: rest => (name, ofDocument value) :: ofMembers rest

end

theorem ofItems_eq_map (items : List Document) : ofItems items = items.map ofDocument := by
  induction items with
  | nil => rfl
  | cons item rest ih => rw [ofItems, ih, List.map_cons]

theorem ofMembers_eq_map (members : Members Document) :
    ofMembers members = members.map fun member => (member.1, ofDocument member.2) := by
  induction members with
  | nil => rfl
  | cons member rest ih => rw [ofMembers, ih, List.map_cons]

def isUndefined : Value → Bool
  | .undefined => true
  | _ => false

/-- Undefined, null and the empty text are blank. -/
def isBlank : Value → Bool
  | .undefined | .null => true
  | .text value => value = ""
  | _ => false

/-- Blank values, `false`, zero and NaN are not truthy; all else is. -/
def isTruthy : Value → Bool
  | .undefined | .null => false
  | .bool value => value
  | .number value => value != 0.0 && !value.isNaN
  | .text value => value ≠ ""
  | .array _ | .object _ | .function _ => true

def text? : Value → Option String
  | .text value => some value
  | _ => none

def items? : Value → Option (List Value)
  | .array items => some items
  | _ => none

/-- The number that a text denotes, white space around it left out; a blank text is zero and any
other text that is no numeral is NaN. -/
def numberOfText (value : String) : Float :=
  match Text.trim value.toList with
  | [] => 0.0
  | chars => (Decimal.readFloat? chars).getD (0.0 / 0.0)

/-- The number of a value; NaN for one that has none. -/
def toNumber : Value → Float
  | .null => 0.0
  | .bool value => if value then 1.0 else 0.0
  | .number value => value
  | .text value => numberOfText value
  | .undefined | .array _ | .object _ | .function _ => 0.0 / 0.0

/-- The order of two numbers; NaN has none. -/
def compareNumbers (a b : Float) : Option Ordering :=
  if a < b then some .lt
  else if a == b then some .eq
  else if b < a then some .gt
  else none

/-- The order of two values: texts by code point, all else by number. -/
def compare? : Value → Value → Option Ordering
  | .text a, .text b => some (if a < b then .lt else if a = b then .eq else .gt)
  | a, b => compareNumbers a.toNumber b.toNumber

/-- The least and the greatest whole number of 64 bits with a sign. -/
def leastWhole : Int := -(Nat.pow 2 63)

def greatestWhole : Int := Nat.pow 2 63 - 1

/-- The text of a number: a whole number is cut off at 64 bits. -/
def printNumber (value : Float) : String :=
  match (Decimal.Binary.ofFloat value).toInt? with
  | some n => String.ofList (Decimal.printInt (max leastWhole (min greatestWhole n)))
  | none => Decimal.print .plain value

mutual

def print : Value → String
  | .undefined => "undefined"
  | .null => "null"
  | .bool true => "true"
  | .bool false => "false"
  | .number value => printNumber value
  | .text value => value
  | .array items => String.intercalate "," (printItems items)
  | .object _ => "[object Object]"
  | .function handle => "[function " ++ handle.name ++ "]"

def printItems : List Value → List String
  | [] => []
  | item :: rest => item.print :: printItems rest

end

/-- The document number of a double: whole below `2 ^ 63`, null if not finite. -/
def documentOfNumber (value : Float) : Document :=
  match Decimal.Binary.ofFloat value with
  | .finite negative mantissa exponent =>
    match (Decimal.Binary.finite negative mantissa exponent).toInt? with
    | some n => if n.natAbs < Nat.pow 2 63 then .number (.whole n) else .number (.real value)
    | none => .number (.real value)
  | _ => .null

mutual

/-- The document of a value. Undefined and functions have none and become null. -/
def toDocument : Value → Document
  | .undefined | .null | .function _ => .null
  | .bool value => .bool value
  | .number value => documentOfNumber value
  | .text value => .text value
  | .array items => .array (toItems items)
  | .object fields => .object (toMembers fields)

def toItems : List Value → List Document
  | [] => []
  | item :: rest => item.toDocument :: toItems rest

def toMembers : List (String × Value) → List (String × Document)
  | [] => []
  | (name, value) :: rest => (name, value.toDocument) :: toMembers rest

end

mutual

/-- Whether two values are equal. Kinds are never mixed, NaN differs from itself, and a function
equals only itself. -/
def equal : Value → Value → Bool
  | .undefined, .undefined => true
  | .null, .null => true
  | .bool a, .bool b => a == b
  | .number a, .number b => a == b
  | .text a, .text b => a == b
  | .array a, .array b => equalItems a b
  | .object a, .object b => equalFields a b
  | .function a, .function b => a.identity == b.identity
  | _, _ => false

def equalItems : List Value → List Value → Bool
  | [], [] => true
  | a :: as, b :: bs => equal a b && equalItems as bs
  | _, _ => false

def equalFields : List (String × Value) → List (String × Value) → Bool
  | [], [] => true
  | (nameA, a) :: as, (nameB, b) :: bs => nameA == nameB && equal a b && equalFields as bs
  | _, _ => false

end

def child? (segment : List Char) : Value → Option Value
  | .object fields => Members.get? (String.ofList segment) fields
  | .array items => (Text.readIndex segment).bind fun position => items[position]?
  | _ => none

/-- The value that a list of segments leads to; undefined where there is none. -/
def follow : Value → List (List Char) → Value
  | value, [] => value
  | value, segment :: rest =>
    match value.child? segment with
    | some next => next.follow rest
    | none => .undefined

/-- The value at a dotted text; empty segments are skipped. -/
def atPath (value : Value) (path : String) : Value :=
  value.follow ((Text.cut path.toList).filter fun segment => segment ≠ [])

end Value

end FormFlow
