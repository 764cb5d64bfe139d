import FormFlow.Decimal.Binary
import FormFlow.Text.Natural

/-!
# Reading decimal numerals

A numeral is an optional sign, digits with an optional point (at least one digit in all) and an
optional exponent; beside it stand the words `inf`, `infinity` and `nan` in any case. The double
nearest to the numeral is its value.
-/

namespace FormFlow.Decimal

open FormFlow.Text (isDigit)

/-- The unsigned numeral `significand * 10 ^ exponent`. -/
structure Numeral where
  significand : Nat
  exponent : Int
  deriving Repr, DecidableEq

namespace Numeral

/-- An exponent after its letter: an optional sign and at least one digit, and nothing else. -/
def readExponent? (text : List Char) : Option Int :=
  let (negative, digits) := match text with
    | '-' :: rest => (true, rest)
    | '+' :: rest => (false, rest)
    | rest => (false, rest)
  if digits = [] ∨ !digits.all isDigit then none
  else
    let n : Int := Text.Natural.value digits
    some (if negative then -n else n)

def read? (text : List Char) : Option Numeral :=
  let whole := text.takeWhile isDigit
  let afterWhole := text.dropWhile isDigit
  let (fraction, rest) := match afterWhole with
    | '.' :: tail => (tail.takeWhile isDigit, tail.dropWhile isDigit)
    | tail => ([], tail)
  let exponent? := match rest with
    | [] => some 0
    | c :: tail => if c = 'e' ∨ c = 'E' then readExponent? tail else none
  let digits := whole ++ fraction
  if digits = [] then none
  else exponent?.map fun e => ⟨Text.Natural.value digits, e - fraction.length⟩

/-- A decimal with its last digit left of this place is below every positive double. -/
def leastPlace : Int := -400

/-- A decimal with its first digit left of this place is above every double. -/
def greatestPlace : Int := 400

/-- The double nearest to a numeral. -/
def toFloat (n : Numeral) : Float :=
  let place := n.exponent + (Text.Natural.digits n.significand).length
  if n.significand = 0 ∨ place < leastPlace then 0.0
  else if greatestPlace < place then 1.0 / 0.0
  else if 0 ≤ n.exponent then Float.ofScientific n.significand false n.exponent.toNat
  else Float.ofScientific n.significand true (-n.exponent).toNat

end Numeral

/-- The words that stand for no decimal number. -/
def readWord? (text : List Char) : Option Float :=
  let word := text.map Char.toLower
  if word = "inf".toList ∨ word = "infinity".toList then some (1.0 / 0.0)
  else if word = "nan".toList then some (0.0 / 0.0)
  else none

def readFloat? (text : List Char) : Option Float :=
  let unsigned (rest : List Char) : Option Float :=
    readWord? rest <|> (Numeral.read? rest).map Numeral.toFloat
  match text with
  | '-' :: rest => (unsigned rest).map fun x => -x
  | '+' :: rest => unsigned rest
  | rest => unsigned rest

end FormFlow.Decimal
