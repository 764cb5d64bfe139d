import FormFlow.Function.Table

/-!
# Standard functions

The functions that every table starts with: comparisons, blank checks and logic, arrays, texts,
mapping and arithmetic. A missing argument is undefined.
-/

namespace FormFlow.Standard

def argument (arguments : List Value) (position : Nat) : Value :=
  arguments[position]?.getD .undefined

/-- A single array argument stands for its items. -/
def spread : List Value → List Value
  | [.array items] => items
  | arguments => arguments

/-- The numbers among the arguments: numbers as they are, texts and truth values by their number
unless that is NaN, and nothing else. -/
def numbers (arguments : List Value) : List Float :=
  (spread arguments).filterMap fun argument =>
    match argument with
    | .number value => some value
    | .text _ | .bool _ =>
      let value := argument.toNumber
      if value.isNaN then none else some value
    | _ => none

/-! ## Comparison -/

def orderTest (accepts : Ordering → Bool) (arguments : List Value) : Value :=
  .bool (((argument arguments 0).compare? (argument arguments 1)).any accepts)

def equals (arguments : List Value) : Value :=
  .bool ((argument arguments 0).equal (argument arguments 1))

def notEquals (arguments : List Value) : Value :=
  .bool (!(argument arguments 0).equal (argument arguments 1))

/-! ## Logic -/

def isBlank (arguments : List Value) : Value := .bool (argument arguments 0).isBlank

def not (arguments : List Value) : Value := .bool (!(argument arguments 0).isTruthy)

/-- False without arguments. -/
def and (arguments : List Value) : Value :=
  .bool (!arguments.isEmpty && arguments.all Value.isTruthy)

def or (arguments : List Value) : Value := .bool (arguments.any Value.isTruthy)

def ifTrueElse (arguments : List Value) : Value :=
  if (argument arguments 0).isTruthy then argument arguments 1 else argument arguments 2

/-! ## Arrays and texts -/

def isInArray (arguments : List Value) : Value :=
  match argument arguments 1 with
  | .array items => .bool (items.any fun item => item.equal (argument arguments 0))
  | _ => .bool false

def arrayOfProp (arguments : List Value) : Value :=
  match argument arguments 0 with
  | .array items =>
    let path := (argument arguments 1).print
    .array (items.map fun item => item.atPath path)
  | _ => .null

def arrayLength (arguments : List Value) : Value :=
  match argument arguments 0 with
  | .array items => .number (Float.ofNat items.length)
  | _ => .null

def length (arguments : List Value) : Value :=
  match argument arguments 0 with
  | .text value => .number (Float.ofNat value.length)
  | _ => .null

def isNumber (arguments : List Value) : Value := .bool (!(argument arguments 0).toNumber.isNaN)

/-- Whether the text of the argument is digits alone. -/
def isNumeric (arguments : List Value) : Value :=
  let chars := (argument arguments 0).print.toList
  .bool (!chars.isEmpty && chars.all Text.isDigit)

/-! ## Mapping -/

/-- Finds the first candidate that is the value, or an array that holds it, and answers what stands
at the same position in the second array. -/
def mapValueIn (arguments : List Value) : Value :=
  let value := argument arguments 0
  match argument arguments 1, argument arguments 2 with
  | .array sources, .array targets =>
    let isHit : Value → Bool
      | .array items => items.any fun item => item.equal value
      | candidate => candidate.equal value
    match sources.findIdx? isHit with
    | some position => targets[position]?.getD .undefined
    | none => .null
  | _, _ => .null

/-! ## Arithmetic -/

def arithmetic (operation : Float → Float → Float) (arguments : List Value) : Value :=
  .number (operation (argument arguments 0).toNumber (argument arguments 1).toNumber)

/-- Adds from left to right, from minus zero on, which is neutral also for minus zero. -/
def sum (arguments : List Value) : Value := .number ((numbers arguments).foldl (· + ·) (-0.0))

/-- The lesser of two numbers; NaN loses against any number. -/
def lesser (a b : Float) : Float :=
  if a.isNaN then b else if b.isNaN then a else if b < a then b else a

/-- The greater of two numbers; NaN loses against any number. -/
def greater (a b : Float) : Float :=
  if a.isNaN then b else if b.isNaN then a else if a < b then b else a

/-- Combines the numbers among the arguments; undefined when there is none. -/
def reduce (combine : Float → Float → Float) (arguments : List Value) : Value :=
  match numbers arguments with
  | [] => .undefined
  | first :: rest => .number (rest.foldl combine first)

/-! ## The table -/

def functions : List (String × (List Value → Value)) :=
  [("equals", equals), ("notEquals", notEquals),
    ("greaterThan", orderTest (· == .gt)), ("greaterThanOrEqual", orderTest (· != .lt)),
    ("lessThan", orderTest (· == .lt)), ("lessThanOrEqual", orderTest (· != .gt)),
    ("isBlank", isBlank), ("not", not), ("and", and), ("or", or),
    ("isInArray", isInArray), ("arrayOfProp", arrayOfProp), ("arrayLength", arrayLength),
    ("length", length), ("isNumber", isNumber), ("isNumeric", isNumeric),
    ("mapValueIn", mapValueIn), ("ifTrueElse", ifTrueElse),
    ("sum", sum), ("add", arithmetic (· + ·)), ("subtract", arithmetic (· - ·)),
    ("multiply", arithmetic (· * ·)), ("divide", arithmetic (· / ·)),
    ("min", reduce lesser), ("max", reduce greater)]

/-- The table of the standard functions; their identities are their positions. -/
def table : FunctionTable :=
  functions.zipIdx.foldl (fun table ((name, run), position) => table.register name position run)
    FunctionTable.empty

end FormFlow.Standard
