/-!
# Double-precision numbers taken apart

A finite double is a sign, a whole mantissa and a power of two. `Binary.ofFloat` reads the three
from the bits; all exact reasoning about a double (its shortest decimal, whether it is a whole
number) goes through this view.
-/

namespace FormFlow.Decimal

/-- What a double denotes: `finite` is `± mantissa * 2 ^ exponent`. -/
inductive Binary where
  | nan
  | infinite (negative : Bool)
  | finite (negative : Bool) (mantissa : Nat) (exponent : Int)
  deriving Repr, DecidableEq

namespace Binary

/-- The greatest power of two that a mantissa reaches: mantissas have 53 bits. -/
def hiddenBit : Nat := Nat.pow 2 52

def ofBits (bits : Nat) : Binary :=
  let negative := bits / Nat.pow 2 63 % 2 == 1
  let biased : Nat := bits / Nat.pow 2 52 % Nat.pow 2 11
  let fraction : Nat := bits % Nat.pow 2 52
  if biased = 2047 then
    if fraction = 0 then .infinite negative else .nan
  else if biased = 0 then .finite negative fraction (-1074)
  else .finite negative (hiddenBit + fraction) ((biased : Int) - 1075)

def ofFloat (x : Float) : Binary := ofBits x.toBits.toNat

def toInt? : Binary → Option Int
  | .finite negative mantissa exponent =>
    let signed (n : Nat) : Int := if negative then -n else n
    if 0 ≤ exponent then some (signed (mantissa * Nat.pow 2 exponent.toNat))
    else
      let unit := Nat.pow 2 (-exponent).toNat
      if mantissa % unit = 0 then some (signed (mantissa / unit)) else none
  | _ => none

end Binary

end FormFlow.Decimal
