import Dalvik.Bounds

/-!
# Decimal text of binary fractions

A floating-point number is shown with the fewest decimal digits that read back
as the same number, and among those with the digits nearest to it; of two
equally near ones the greater is taken. Everything is computed exactly, on
natural numbers.
-/

namespace Dalvik.Text

/-- A binary floating-point format: how many bits hold the fraction and how
many the exponent. -/
structure FloatFormat where
  fractionBits : Nat
  exponentBits : Nat

/-- The format with 32 bits. -/
def FloatFormat.single : FloatFormat := ⟨23, 8⟩

/-- The format with 64 bits. -/
def FloatFormat.double : FloatFormat := ⟨52, 11⟩

/-- A positive fraction with its exact neighbourhood: every number between
`low` and `high` over `denominator` is rounded to `value` over `denominator`;
the ends are among them if `closed`. -/
structure Neighbourhood where
  low : Nat
  value : Nat
  high : Nat
  denominator : Nat
  closed : Bool

namespace Neighbourhood

/-- The neighbourhood of `mantissa * 2 ^ exponent`, whose lower half has only
half the width when `narrow`. -/
def ofBinary (mantissa : Nat) (exponent : Int) (narrow : Bool) : Neighbourhood :=
  let scale := Nat.pow 2 (exponent - 2).toNat
  { low := (4 * mantissa - if narrow then 1 else 2) * scale
    value := 4 * mantissa * scale
    high := (4 * mantissa + 2) * scale
    denominator := Nat.pow 2 (2 - exponent).toNat
    closed := mantissa % 2 = 0 }

/-- Whether `count * 10 ^ place` is rounded to the value. -/
def holds (n : Neighbourhood) (count : Nat) (place : Int) : Bool :=
  let candidate := count * Nat.pow 10 place.toNat * n.denominator
  let shift := Nat.pow 10 (-place).toNat
  if n.closed then n.low * shift ≤ candidate && candidate ≤ n.high * shift
  else n.low * shift < candidate && candidate < n.high * shift

/-- The number of whole multiples of `10 ^ place` in the value. -/
def floor (n : Neighbourhood) (place : Int) : Nat :=
  n.value * Nat.pow 10 (-place).toNat / (n.denominator * Nat.pow 10 place.toNat)

/-- Whether the value is nearer to `count` than to `count + 1` multiples of
`10 ^ place`. -/
def nearerBelow (n : Neighbourhood) (count : Nat) (place : Int) : Bool :=
  2 * n.value * Nat.pow 10 (-place).toNat < (2 * count + 1) * (n.denominator * Nat.pow 10 place.toNat)

/-- The place of the first digit of the value. -/
def leadingPlace (n : Neighbourhood) : Int :=
  if n.denominator ≤ n.value then (Nat.toDigits 10 (n.value / n.denominator)).length - 1
  else -(Nat.toDigits 10 ((n.denominator - 1) / n.value)).length

/-- The better of the two multiples of `10 ^ place` next to the value, if one
of them is rounded to it. -/
def nearest? (n : Neighbourhood) (place : Int) : Option Nat :=
  let below := n.floor place
  match n.holds below place, n.holds (below + 1) place with
  | true, true => some (if n.nearerBelow below place then below else below + 1)
  | true, false => some below
  | false, true => some (below + 1)
  | false, false => none

/-- The fewest digits, as a count of `10 ^ place`. Seventeen digits are
always enough. -/
def shortest (n : Neighbourhood) : Nat × Int :=
  let top := n.leadingPlace
  ((List.range 18).findSome? fun (k : Nat) => (n.nearest? (top - k)).map (·, top - k)).getD (0, 0)

end Neighbourhood

/-- Digits with a point: at least one on either side of it. -/
def pointed (digits : List Char) (leading : Int) : List Char :=
  if leading < 0 then '0' :: '.' :: List.replicate (-leading - 1).toNat '0' ++ digits
  else
    let whole := leading.toNat + 1
    let fraction := digits.drop whole
    digits.take whole ++ List.replicate (whole - digits.length) '0' ++
      '.' :: (if fraction.isEmpty then ['0'] else fraction)

/-- Digits with an exponent. -/
def exponential (digits : List Char) (leading : Int) : List Char :=
  let mantissa :=
    match digits with
    | first :: second :: rest => first :: '.' :: second :: rest
    | _ => digits
  mantissa ++ 'e' :: (toString leading).toList

/-- A positive number: with a point from `0.0001` up to sixteen digits before
it, and with an exponent otherwise. -/
def positiveDecimal (n : Neighbourhood) : String :=
  let (count, place) := n.shortest
  let all := Nat.toDigits 10 count
  let leading := place + all.length - 1
  let digits := (all.reverse.dropWhile (· == '0')).reverse
  String.ofList (if -4 ≤ leading ∧ leading < 16 then pointed digits leading else exponential digits leading)

/-- The text of the number with the given bits. -/
def FloatFormat.text (format : FloatFormat) (bits : Nat) : String :=
  let fraction := bits % bitBound format.fractionBits
  let exponent := bits / bitBound format.fractionBits % bitBound format.exponentBits
  let sign := if bits / bitBound (format.fractionBits + format.exponentBits) % 2 = 1 then "-" else ""
  let bias : Int := bitBound (format.exponentBits - 1) - 1
  let lowest : Int := 1 - bias - format.fractionBits
  if exponent = bitBound format.exponentBits - 1 then if fraction = 0 then sign ++ "inf" else "NaN"
  else if exponent = 0 then
    if fraction = 0 then sign ++ "0.0"
    else sign ++ positiveDecimal (.ofBinary fraction lowest false)
  else
    let mantissa := bitBound format.fractionBits + fraction
    sign ++ positiveDecimal (.ofBinary mantissa (lowest + exponent - 1) (fraction = 0 && exponent > 1))

end Dalvik.Text
