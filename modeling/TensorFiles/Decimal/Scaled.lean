import TensorFiles.Decimal.Shortest
import TensorFiles.Ieee
/-!
This module contains the quick reading of decimals as double precision numbers. The digits and the power
of ten are rounded each on its own, and so is what comes of them. The result may be off in the last
place, and the largest numbers may be refused or accepted where exact reading would not.
-/

namespace TensorFiles.Decimal

/--
The exponent of the largest power of ten that double precision holds.
-/
def maxPower : Nat := 308

/--
The number nearest to ten to the power `n`.
-/
def power (n : Nat) : Float := Ieee.ofNat (Nat.pow 10 n)

/--
Divide by ten to the power `n`, which may take several steps. What is zero already stays so.
-/
def divide (x : Float) (n : Nat) : Float :=
  if n ≤ maxPower then
    x / power n
  else if x == 0 then
    x
  else
    divide (x / power maxPower) (n - maxPower)
termination_by n
decreasing_by
  simp only [maxPower] at *
  omega

/--
The bits of the number for a decimal, or none if that is not finite.
-/
def toScaled? (d : Decimal) : Option Nat :=
  let x := Ieee.ofNat d.digits
  match d.exponent with
  | .negSucc n => some (divide x (n + 1)).toBits.toNat
  | .ofNat n =>
    if maxPower < n then
      if d.digits = 0 then some x.toBits.toNat else none
    else
      let bits := (x * power n).toBits.toNat
      if Double.isFinite bits then some bits else none

end TensorFiles.Decimal
