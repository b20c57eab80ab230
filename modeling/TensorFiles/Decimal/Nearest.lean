import TensorFiles.Decimal.Shortest
import TensorFiles.Ieee
/-!
This module contains the double precision number nearest to a decimal, ties to even.
-/

namespace TensorFiles.Decimal

open Float.Model

/--
A binary number that rounds like the decimal, whose value is neither huge nor tiny: more digits than
any number needs, with an odd last one in place of all that follow.
-/
def toBinary (d : Decimal) : Nat × Int :=
  if 0 ≤ d.exponent then
    (d.digits * Nat.pow 10 d.exponent.toNat, 0)
  else
    let shift : Nat := 1200
    let numerator := d.digits <<< shift
    let denominator := Nat.pow 10 (-d.exponent).toNat
    let rest := if numerator % denominator = 0 then 0 else 1
    (2 * (numerator / denominator) + rest, -(shift : Int) - 1)

/--
The bits of the number nearest to a decimal, or none if that is not finite.
-/
def toDouble? (negative : Bool) (d : Decimal) : Option Nat :=
  let sign : UnpackedFloat.Sign := if negative then .negative else .positive
  let bits (x : UnpackedFloat) : Nat := (x.pack Ieee.double).toNat
  let magnitude := (Numeral.encode d.digits).length + d.exponent
  if d.digits = 0 ∨ magnitude < -330 then
    some (bits (.zero sign))
  else if 310 < magnitude then
    none
  else
    let (mantissa, exponent) := d.toBinary
    let nearest := bits (.round Ieee.double sign mantissa exponent)
    if Double.isFinite nearest then some nearest else none

end TensorFiles.Decimal
