/-!
This module contains the parts of the bits of a double precision number: a sign, an exponent of eleven
bits, and a fraction of 52 bits.
-/

namespace TensorFiles.Double

/--
The value of the lowest bit of the exponent, which is one more than the largest fraction.
-/
def fractionBound : Nat := 0x10000000000000

/--
The value of the sign bit.
-/
def signBit : Nat := 0x8000000000000000

/--
The exponent of infinities and of what is not a number.
-/
def maxExponent : Nat := 0x7FF

def fraction (bits : Nat) : Nat := bits % fractionBound

def exponent (bits : Nat) : Nat := bits / fractionBound % (maxExponent + 1)

def isNegative (bits : Nat) : Bool := signBit ≤ bits

/--
The bits without the sign.
-/
def magnitude (bits : Nat) : Nat := bits % signBit

def isFinite (bits : Nat) : Bool := exponent bits != maxExponent

end TensorFiles.Double
