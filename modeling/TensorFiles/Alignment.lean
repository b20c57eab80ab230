/-!
This module contains the rounding of offsets to a power of two boundary. Offsets are 64 bit words,
so the rounding is a mask over that many bits.
-/

namespace TensorFiles

/--
One more than the largest offset or size a 64 bit word holds.
-/
def wordBound : Nat := 0x10000000000000000

/--
One more than the largest number of 32 bits.
-/
def halfWordBound : Nat := 0x100000000

def isPowerOfTwo (n : Nat) : Bool :=
  n != 0 && n &&& (n - 1) == 0

/--
The first multiple of `align`, a power of two, that is not before `off`. An `align` of zero leaves
`off` alone.
-/
def alignUp (off align : Nat) : Nat :=
  if align = 0 then
    off
  else
    (off + align - 1) &&& (wordBound - align)

end TensorFiles
