import TensorFiles.Double
/-!
This module contains the binary floating point formats that tensors and GGUF blocks use besides the
two of `Float` and `Float32`, and the conversions between all of them. A conversion reads the exact
number and rounds it to the nearest one of the target format, ties to even; what is not a number
keeps its sign and its payload.
-/

namespace TensorFiles.Ieee

open Float.Model

abbrev single : Format := .binary32

abbrev double : Format := .binary64

/--
Half precision.
-/
abbrev half : Format := ⟨10, by decide, 5, by decide⟩

/--
The upper half of single precision.
-/
abbrev brain : Format := ⟨7, by decide, 8, by decide⟩

/--
Round an exact value to the nearest value of a format.
-/
def roundTo (format : Format) (x : UnpackedFloat) : UnpackedFloat :=
  match x with
  | .finite sign mantissa exponent _ => .round format sign mantissa exponent
  | x => x

/--
The value whose bits in a format are the low bits of a number.
-/
def unpack (format : Format) (bits : Nat) : UnpackedFloat :=
  .unpack format (BitVec.ofNat format.numBits bits)

/--
The bits in the format `target` of what is not a number in the format `source`. It keeps its sign and
the upper bits of its mantissa, and becomes quiet.
-/
def carry (source target : Format) (bits : Nat) : BitVec target.numBits :=
  let packed : BitVec source.numBits := .ofNat source.numBits bits
  let payload := (UnpackedFloat.unpackMantissa packed).toNat
  let kept :=
    payload <<< target.mantissaBitsWithoutImplicit >>> source.mantissaBitsWithoutImplicit
  let quiet := 1 <<< (target.mantissaBitsWithoutImplicit - 1)
  UnpackedFloat.packComponents target (.ofBitVec (UnpackedFloat.unpackSign packed))
    (.allOnes target.exponentBits) (.ofNat _ (quiet ||| kept))

/--
The bits in the format `target` of what the bits in the format `source` stand for.
-/
def convert (source target : Format) (bits : Nat) : Nat :=
  match unpack source bits with
  | .notANumber => (carry source target bits).toNat
  | x => (UnpackedFloat.pack target (roundTo target x)).toNat

example : convert single half (convert brain single 0xFFC0) = 0xFE00 := by decide +kernel

/--
A number of single precision as its bits. What is not a number has a sign and a payload here, which
`Float32` does not tell apart.
-/
structure Single where
  bits : Nat
  deriving DecidableEq

namespace Single

/--
The result of an operation on numbers. What is not a number becomes the one of `Float32`.
-/
def apply (f : Float32 → Float32 → Float32) (x y : Single) : Single :=
  ⟨(f (.ofBits (.ofNat x.bits)) (.ofBits (.ofNat y.bits))).toBits.toNat⟩

instance : Add Single := ⟨apply (· + ·)⟩

instance : Sub Single := ⟨apply (· - ·)⟩

instance : Mul Single := ⟨apply (· * ·)⟩

end Single

/--
The integer nearest to `n` that single precision holds.
-/
def ofInt (n : Int) : Single :=
  ⟨(UnpackedFloat.pack single (.normalize single n 0 .positive)).toNat⟩

instance (n : Nat) : OfNat Single n := ⟨ofInt n⟩

/--
The number nearest to `n` that double precision holds.
-/
def ofNat (n : Nat) : Float :=
  .ofBits (.ofNat (UnpackedFloat.pack double (.normalize double n 0 .positive)).toNat)

/--
The single precision value of the half precision bits.
-/
def ofHalf (bits : Nat) : Single :=
  ⟨convert half single bits⟩

/--
The bits of the half precision value nearest to `x`.
-/
def toHalf (x : Single) : Nat :=
  convert single half x.bits

/--
The bits in single precision of the double precision bits.
-/
def narrow (bits : Nat) : Nat := convert double single bits

end TensorFiles.Ieee
