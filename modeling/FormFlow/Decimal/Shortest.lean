import FormFlow.Decimal.Binary
import FormFlow.Text.Natural

/-!
# The shortest decimal of a double

Among the decimals that read back as a given double, `shortest` takes one with the fewest digits
and, of those, the one nearest to the double. Two may be equally near, as for `2 ^ -25`; then a
`Tie` decides. For each number of digits only the two neighbours of the double on that decimal grid
have to be tried.
-/

namespace FormFlow.Decimal

/-- The positive decimal `digits * 10 ^ exponent`. -/
structure Scientific where
  digits : Nat
  exponent : Int
  deriving Repr, DecidableEq

/-- Which of two equally near neighbours is taken. -/
inductive Tie where
  /-- The one whose last digit is even. -/
  | toEven
  /-- The greater one. -/
  | up
  deriving Repr, DecidableEq

/-- The reals that round to a positive double, times a common denominator: from `low` to `high`,
ends included when `closed`. -/
structure Interval where
  low : Nat
  centre : Nat
  high : Nat
  denominator : Nat
  closed : Bool
  deriving Repr, DecidableEq

namespace Interval

/-- The neighbourhood of `mantissa * 2 ^ exponent`. A power of two has its lower neighbour at half
the distance, and a tie goes to the even mantissa. -/
def around (mantissa : Nat) (exponent : Int) : Interval :=
  let below := if mantissa = Binary.hiddenBit ∧ -1074 < exponent then 1 else 2
  let scaled (n : Nat) : Nat := if 0 ≤ exponent then n * Nat.pow 2 exponent.toNat else n
  { low := scaled (4 * mantissa - below)
    centre := scaled (4 * mantissa)
    high := scaled (4 * mantissa + 2)
    denominator := if 0 ≤ exponent then 4 else 4 * Nat.pow 2 (-exponent).toNat
    closed := mantissa % 2 = 0 }

def contains (i : Interval) (numerator denominator : Nat) : Bool :=
  let point := numerator * i.denominator
  let low := i.low * denominator
  let high := i.high * denominator
  if i.closed then low ≤ point && point ≤ high else low < point && point < high

end Interval

/-- The greatest `k` with `10 ^ k ≤ numerator / denominator`. -/
def magnitude (numerator denominator : Nat) : Int :=
  if denominator ≤ numerator then (Text.Natural.digits (numerator / denominator)).length - 1
  else
    let d := (Text.Natural.digits (denominator / numerator)).length
    if numerator * Nat.pow 10 (d - 1) = denominator then -(d - 1) else -d

/-- Whether a fraction rounds down to `floor`, of which it is `gap / 2` of a `unit` above. -/
def Tie.roundsDown (tie : Tie) (floor gap unit : Nat) : Bool :=
  if gap = unit then
    match tie with
    | toEven => floor % 2 = 0
    | up => false
  else gap < unit

/-- The point of the grid `10 ^ exponent` next to the centre that lies in the interval, the nearer
one if both do. -/
def onGrid (tie : Tie) (i : Interval) (exponent : Int) : Option Scientific :=
  let up := Nat.pow 10 exponent.toNat
  let down := Nat.pow 10 (-exponent).toNat
  let scaled := i.centre * down
  let unit := i.denominator * up
  let floor := scaled / unit
  let inside (n : Nat) : Bool := i.contains (n * up) down
  let gap := 2 * (scaled % unit)
  match inside floor, inside (floor + 1) with
  | true, true => some ⟨if tie.roundsDown floor gap unit then floor else floor + 1, exponent⟩
  | true, false => some ⟨floor, exponent⟩
  | false, true => some ⟨floor + 1, exponent⟩
  | false, false => none

def Scientific.normal : Nat → Scientific → Scientific
  | 0, s => s
  | fuel + 1, s =>
    if s.digits ≠ 0 ∧ s.digits % 10 = 0 then normal fuel ⟨s.digits / 10, s.exponent + 1⟩ else s

/-- Seventeen digits tell every double apart. -/
def maxDigits : Nat := 17

/-- The shortest decimal of the positive double `mantissa * 2 ^ exponent`. -/
def shortest (tie : Tie) (mantissa : Nat) (exponent : Int) : Scientific :=
  let i := Interval.around mantissa exponent
  let top := magnitude i.centre i.denominator
  let grids := (List.range maxDigits).map fun (n : Nat) => top - n
  ((grids.findSome? (onGrid tie i)).getD ⟨mantissa, 0⟩).normal (maxDigits + 1)

end FormFlow.Decimal
