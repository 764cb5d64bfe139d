import FormFlow.Decimal.Shortest

/-!
# Layouts of decimal numbers

A layout says where positional notation ends, how a whole number is shown and which of two equally
near decimals is taken. Two layouts are in use: `Layout.echo` for numbers of a document and
`Layout.plain` for the text of a value.
-/

namespace FormFlow.Decimal

structure Layout where
  /-- Which powers of ten, as the place of the first digit, are written without an exponent. -/
  positional : Int → Bool
  /-- What follows a whole number in positional notation. -/
  wholeSuffix : List Char
  /-- Which of two shortest decimals is taken when both are equally near. -/
  tie : Tie

namespace Layout

/-- Positional from `0.00001` up to sixteen places, with at least one decimal; beyond that an
exponent with its sign. A tie goes to the even digit. -/
def echo : Layout := ⟨fun place => -5 ≤ place && place ≤ 15, ['.', '0'], .toEven⟩

/-- Never an exponent, and no decimals for a whole number. A tie goes up. -/
def plain : Layout := ⟨fun _ => true, [], .up⟩

end Layout

def printInt : Int → List Char
  | .ofNat n => Text.Natural.digits n
  | .negSucc n => '-' :: Text.Natural.digits (n + 1)

def Scientific.print (layout : Layout) (s : Scientific) : List Char :=
  let digits := Text.Natural.digits s.digits
  let place : Int := s.exponent + digits.length - 1
  if layout.positional place then
    if 0 ≤ s.exponent then digits ++ List.replicate s.exponent.toNat '0' ++ layout.wholeSuffix
    else if 0 ≤ place then
      let whole := place.toNat + 1
      digits.take whole ++ '.' :: digits.drop whole
    else ['0', '.'] ++ List.replicate (-place - 1).toNat '0' ++ digits
  else
    let fraction := match digits.drop 1 with
      | [] => []
      | rest => '.' :: rest
    let sign := if 0 ≤ place then ['+'] else []
    digits.take 1 ++ fraction ++ 'e' :: sign ++ printInt place

def print (layout : Layout) (x : Float) : String :=
  let signed (negative : Bool) (text : List Char) : String :=
    String.ofList (if negative then '-' :: text else text)
  match Binary.ofFloat x with
  | .nan => "NaN"
  | .infinite negative => signed negative ['i', 'n', 'f']
  | .finite negative 0 _ => signed negative ('0' :: layout.wholeSuffix)
  | .finite negative mantissa exponent =>
    signed negative ((shortest layout.tie mantissa exponent).print layout)

end FormFlow.Decimal
