import TensorFiles.Gguf.Block
import TensorFiles.Ieee
import TensorFiles.Tensor.Basic
import TensorFiles.Text.Split
/-!
This module contains the unpacking of quantized weights. The codes of the weights become a tensor of
packed unsigned integers; a scale and a bias per block become tensors of their own, so that a weight
is `scale * code + bias`.
-/

namespace TensorFiles.Gguf

/--
Where the bias of a block comes from: it is stored after the scale, or it is a multiple of it.
-/
inductive Bias where
  | stored
  | derived (multiplier : Int)
  deriving DecidableEq

/--
How the blocks of a payload type hold quantized weights.
-/
structure Scheme where
  type : TensorType
  weights : Nat
  bytes : Nat
  bits : Nat
  bias : Bias
  deriving DecidableEq

namespace Scheme

/--
The number of bytes in front of the codes.
-/
def headerLength (s : Scheme) : Nat :=
  match s.bias with
  | .stored => 4
  | .derived _ => 2

/--
The number of bytes the codes of a block take once unpacked.
-/
def packedLength (s : Scheme) : Nat :=
  s.weights * s.bits / 8

/--
The schemes whose weights are kept quantized.
-/
def all : List Scheme :=
  [⟨.q4_0, 32, 18, 4, .derived (-8)⟩, ⟨.q4_1, 32, 20, 4, .stored⟩, ⟨.q8_0, 32, 34, 8, .derived (-128)⟩]

def ofType? (type : TensorType) : Option Scheme :=
  all.find? (fun s => s.type == type)

/--
The last dimension of a shape, which must be a whole number of blocks.
-/
def lastDim (s : Scheme) (name : String) (shape : List Nat) : Except Error Nat :=
  match shape.getLast? with
  | some last =>
    if s.weights = 0 then
      .error (.panic .divisor)
    else if last % s.weights = 0 then
      .ok last
    else
      .error (.lastDim name last s.weights)
  | none => .error (.lastDim name 1 s.weights)

/--
The number of 32 bit words that the codes of `last` weights take, by way of the number of bits.
-/
def packedDim (s : Scheme) (last : Nat) : Except Error Nat :=
  if last * s.bits < wordBound then
    .ok (last * s.bits / 32)
  else
    .error (.panic .product)

end Scheme

/--
The ending of the names of tensors whose quantized weights are unpacked.
-/
def weightEnding : List Char := ".weight".toList

/--
What is left of a weight's name without its ending.
-/
def weightStem? (name : String) : Option String :=
  (Text.dropEnd? weightEnding name.toList).map String.ofList

/--
A weight's name has more than the ending.
-/
def isWeightName (name : String) : Bool :=
  match weightStem? name with
  | some stem => stem != ""
  | none => false

/--
How the payload of a tensor of some name and type is unpacked, and what its name begins with.
-/
def unpacking? (name : String) (type : TensorType) : Option (Scheme × String) :=
  if isWeightName name then
    match Scheme.ofType? type, weightStem? name with
    | some scheme, some stem => some (scheme, stem)
    | _, _ => none
  else
    none

def scalesName (stem : String) : String := stem ++ ".scales"

def biasesName (stem : String) : String := stem ++ ".biases"

/--
The tensors that hold quantized weights.
-/
structure Quantized where
  weights : Tensor
  scales : Tensor
  biases : Tensor
  deriving DecidableEq

namespace Quantized

/--
What one block gives: the bits of the scale and of the bias, and the bytes of the packed codes.
-/
structure Part where
  scale : Nat
  bias : Nat
  codes : List UInt8

/--
The packed bytes of four bit codes, of which `count` bytes are asked for from `start` on. Each byte
holds two neighbouring codes, the first of them in its low half.
-/
def packNibbles (codes : List UInt8) (start : Nat) : (count : Nat) → Except Error (List UInt8)
  | 0 => .ok []
  | count + 1 => do
    let low ← nibbleAt codes (2 * start)
    let high ← nibbleAt codes (2 * start + 1)
    let rest ← packNibbles codes (start + 1) count
    return (low ||| (high <<< 4)) :: rest

/--
Take one block apart.
-/
def part (name : String) (s : Scheme) (block : List UInt8) : Except Error Part := do
  let scale ← halfAt block 0
  let bias ←
    match s.bias with
    | .stored => halfAt block 2
    | .derived multiplier => .ok (Ieee.toHalf (Ieee.ofInt multiplier * Ieee.ofHalf scale))
  let codes := block.drop s.headerLength
  match s.bits with
  | 4 => return ⟨scale, bias, ← packNibbles codes 0 s.packedLength⟩
  | 8 => return ⟨scale, bias, codes.map (· ^^^ 0x80)⟩
  | bits => throw (.gguf (.widthUnsupported name bits))

/--
The bytes of a list of half precision numbers.
-/
def halves (bits : List Nat) : List UInt8 :=
  bits.flatMap (LittleEndian.encode 2)

/--
Check the numbers of bytes that the unpacked codes and numbers of `count` blocks take.
-/
def reserve (s : Scheme) (count : Nat) : Except Error Unit :=
  if s.weights * s.bits < wordBound ∧ count * s.packedLength < wordBound ∧ count * 2 < wordBound then
    .ok ()
  else
    .error (.panic .product)

/--
Unpack the payload of the tensor called `name`.
-/
def ofPayload (name : String) (s : Scheme) (shape : List Nat) (payload : List UInt8)
    : Except Error Quantized := do
  let last ← s.lastDim name shape
  let count := (← Shape.product shape) / s.weights
  let need := count * s.bytes
  if payload.length < need then
    throw (.about need .product (.gguf (.blocksMissing name s.type payload.length count need)))
  reserve s count
  let parts ← (blocks s.bytes count payload).mapM (part name s)
  let words ← s.packedDim last
  let groups := shape.dropLast ++ [last / s.weights]
  return {
    weights := ← Tensor.ofBytes .u32 (shape.dropLast ++ [words]) (parts.flatMap (·.codes))
    scales := ← Tensor.ofBytes .f16 groups (halves (parts.map (·.scale)))
    biases := ← Tensor.ofBytes .f16 groups (halves (parts.map (·.bias)))
  }

end Quantized

end TensorFiles.Gguf
