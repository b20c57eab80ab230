import TensorFiles.Double
import TensorFiles.Text.Numeral
/-!
This module contains the shortest decimal that reads back as a binary floating point number: of the
decimals with the fewest digits between the two neighbours' midpoints, the one nearest to the number.
-/

namespace TensorFiles

/--
The number `digits * 10 ^ exponent`.
-/
structure Decimal where
  digits : Nat
  exponent : Int
  deriving DecidableEq

namespace Decimal

/--
What a number and the two ends of the interval that rounds to it are, each as a multiple of the same
unit, and whether the ends belong to it.
-/
structure Interval where
  low : Nat
  value : Nat
  high : Nat
  closed : Bool

namespace Interval

def contains (i : Interval) (x : Nat) : Bool :=
  if i.closed then i.low ≤ x && x ≤ i.high else i.low < x && x < i.high

def scale (i : Interval) (factor : Nat) : Interval :=
  { i with low := i.low * factor, value := i.value * factor, high := i.high * factor }

/--
The factor by which a multiple of `step` lies in the interval. Of two neighbours of the number that
do, the nearer one is taken, and of two equally near ones the even one.
-/
def multiple? (i : Interval) (step : Nat) : Option Nat :=
  let below := i.value / step
  let above := below + 1
  match i.contains (below * step), i.contains (above * step) with
  | true, true =>
    let left := i.value - below * step
    let right := above * step - i.value
    some (if left < right ∨ left = right ∧ below % 2 = 0 then below else above)
  | true, false => some below
  | false, true => some above
  | false, false => none

end Interval

/--
The interval of the number `mantissa * 2 ^ exponent`, in quarters of the last place. Below a power of
two the next number is only half as far away.
-/
def interval (mantissa : Nat) (atPower : Bool) : Interval where
  low := 4 * mantissa - (if atPower then 1 else 2)
  value := 4 * mantissa
  high := 4 * mantissa + 2
  closed := mantissa % 2 = 0

/--
The number of decimal places before the point of `mantissa * 2 ^ exponent`, which is negative if
zeros follow the point.
-/
def places (mantissa : Nat) (exponent : Int) : Int :=
  let down := (-exponent).toNat
  (Numeral.encode ((mantissa <<< exponent.toNat) * Nat.pow 5 down)).length - down

/--
Take the zeros at the end of the digits into the exponent.
-/
def trim (fuel : Nat) (d : Decimal) : Decimal :=
  match fuel with
  | 0 => d
  | fuel + 1 =>
    if d.digits % 10 = 0 ∧ d.digits ≠ 0 then
      trim fuel ⟨d.digits / 10, d.exponent + 1⟩
    else
      d

/--
The most digits that a double precision number needs.
-/
def maxDigits : Nat := 17

/--
The shortest decimal for `mantissa * 2 ^ exponent`, which is positive.
-/
def shortest (mantissa : Nat) (exponent : Int) (atPower : Bool) : Decimal :=
  let exponent' := exponent - 2
  let exact := (interval mantissa atPower).scale (1 <<< exponent'.toNat)
  let unit := 1 <<< (-exponent').toNat
  let top := places mantissa exponent
  let onGrid (digits : Nat) : Option Decimal :=
    let grid := top - (digits + 1)
    let scaled := exact.scale (Nat.pow 10 (-grid).toNat)
    (scaled.multiple? (unit * Nat.pow 10 grid.toNat)).map (fun n => trim maxDigits ⟨n, grid⟩)
  ((List.range maxDigits).findSome? onGrid).getD ⟨0, 0⟩

/--
The shortest decimal for the double precision number of the given bits, without its sign. The bits
are those of a finite number other than zero.
-/
def ofDouble (bits : Nat) : Decimal :=
  let field := Double.exponent bits
  let fraction := Double.fraction bits
  if field = 0 then
    shortest fraction (-1074) false
  else
    shortest (Double.fractionBound + fraction) ((field : Int) - 1075) (fraction = 0 && field != 1)

end Decimal

end TensorFiles
