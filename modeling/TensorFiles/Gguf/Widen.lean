import TensorFiles.Bytes.Blocks
import TensorFiles.Gguf.Block
import TensorFiles.Ieee
import TensorFiles.Tensor.Basic
/-!
This module contains the widening of payloads that no element type can hold as they are: every
element is computed in single precision and stored in half precision.
-/

namespace TensorFiles.Gguf.Widen

/--
The `length` bytes of a block from `offset` on.
-/
def slice (block : List UInt8) (offset length : Nat) : List UInt8 :=
  (block.drop offset).take length

/--
The half precision number at `offset`.
-/
def half (block : List UInt8) (offset : Nat) : Ieee.Single :=
  Ieee.ofHalf (LittleEndian.decode (slice block offset 2))

/--
The codes packed in the bytes of a run: the low halves of all of them, then the high halves.
-/
def nibbles (run : List UInt8) : List Int :=
  run.map (fun (b : UInt8) => ((b &&& 0x0F).toNat : Int)) ++
    run.map (fun (b : UInt8) => ((b >>> (4 : UInt8)).toNat : Int))

def q4_0 (block : List UInt8) : List Ieee.Single :=
  let d := half block 0
  (nibbles (slice block 2 16)).map (fun q => (Ieee.ofInt q - Ieee.ofInt 8) * d)

def q4_1 (block : List UInt8) : List Ieee.Single :=
  let d := half block 0
  let m := half block 2
  (nibbles (slice block 4 16)).map (fun q => Ieee.ofInt q * d + m)

/--
The weights of five bits each. Their fifth bits are gathered in the word in front of the packed
nibbles, those of the low halves in its lower half.
-/
def q5 (d m : Ieee.Single) (offset : Int) (rest : List UInt8) : List Ieee.Single :=
  let high := LittleEndian.decode (slice rest 0 4)
  let run := (slice rest 4 16).zipIdx
  let low := run.map (fun ((b, j) : UInt8 × Nat) =>
    (b &&& 0x0F).toNat ||| (((high >>> j) <<< 4) &&& 0x10))
  let up := run.map (fun ((b, j) : UInt8 × Nat) =>
    (b >>> (4 : UInt8)).toNat ||| ((high >>> (j + 12)) &&& 0x10))
  (low ++ up).map (fun (q : Nat) => (Ieee.ofInt q - Ieee.ofInt offset) * d + m)

def q5_0 (block : List UInt8) : List Ieee.Single :=
  q5 (half block 0) (Ieee.ofInt 0) 16 (block.drop 2)

def q5_1 (block : List UInt8) : List Ieee.Single :=
  q5 (half block 0) (half block 2) 0 (block.drop 4)

def q8_0 (block : List UInt8) : List Ieee.Single :=
  let d := half block 0
  (slice block 2 32).map (fun b => Ieee.ofInt b.toInt8.toInt * d)

/--
The scale and the minimum of the sub-block `j`, of six bits each. The last four sub-blocks have
their upper two bits in what the fields of the first four leave free.
-/
def scaleMin (j : Nat) (q : List UInt8) : UInt8 × UInt8 :=
  let field (i : Nat) : UInt8 := q.getD i 0
  if j < 4 then
    (field j &&& (63 : UInt8), field (j + 4) &&& (63 : UInt8))
  else
    ((field (j + 4) &&& (0x0F : UInt8)) ||| ((field (j - 4) >>> (6 : UInt8)) <<< (4 : UInt8)),
      (field (j + 4) >>> (4 : UInt8)) ||| ((field j >>> (6 : UInt8)) <<< (4 : UInt8)))

def q4_k (block : List UInt8) : List Ieee.Single :=
  let d := half block 0
  let dmin := half block 2
  let fields := slice block 4 12
  (List.range 4).flatMap fun chunk =>
    let run := slice block (16 + 32 * chunk) 32
    let (scale1, min1) := scaleMin (2 * chunk) fields
    let (scale2, min2) := scaleMin (2 * chunk + 1) fields
    let d1 := d * Ieee.ofInt scale1.toNat
    let m1 := dmin * Ieee.ofInt min1.toNat
    let d2 := d * Ieee.ofInt scale2.toNat
    let m2 := dmin * Ieee.ofInt min2.toNat
    run.map (fun (b : UInt8) => d1 * Ieee.ofInt (b &&& 0x0F).toNat - m1) ++
      run.map (fun (b : UInt8) => d2 * Ieee.ofInt (b >>> (4 : UInt8)).toNat - m2)

/--
The weights of one quarter of half a block. Their lower four bits are in `low`, and their upper two
in `high`, `shift` bits up.
-/
def q6_kQuarter (d : Ieee.Single) (scales low high : List UInt8) (shift : UInt8) : List Ieee.Single :=
  (low.zip high).zipIdx.map fun ((l, h), i) =>
    let scale := d * Ieee.ofInt (scales.getD (i / 16) 0).toInt8.toInt
    scale * Ieee.ofInt (((l ||| (((h >>> shift) &&& 3) <<< 4)).toNat : Int) - 32)

def q6_k (block : List UInt8) : List Ieee.Single :=
  let d := half block 208
  (List.range 2).flatMap fun part =>
    let first := slice block (64 * part) 32
    let second := slice block (64 * part + 32) 32
    let lower (run : List UInt8) : List UInt8 := run.map (fun (b : UInt8) => b &&& 0x0F)
    let upper (run : List UInt8) : List UInt8 := run.map (fun (b : UInt8) => b >>> (4 : UInt8))
    let high := slice block (128 + 32 * part) 32
    let scales := slice block (192 + 8 * part) 8
    q6_kQuarter d scales (lower first) high 0 ++
      q6_kQuarter d (scales.drop 2) (lower second) high 2 ++
      q6_kQuarter d (scales.drop 4) (upper first) high 4 ++
      q6_kQuarter d (scales.drop 6) (upper second) high 6

/--
The elements of one block of a type that can be widened.
-/
def block? (type : TensorType) : Option (List UInt8 → List Ieee.Single) :=
  match type with
  | .q4_0 => some q4_0
  | .q4_1 => some q4_1
  | .q5_0 => some q5_0
  | .q5_1 => some q5_1
  | .q8_0 => some q8_0
  | .q4_k => some q4_k
  | .q6_k => some q6_k
  | .bf16 => some fun b =>
    [⟨Ieee.convert Ieee.brain Ieee.single (LittleEndian.decode b)⟩]
  | .f64 => some fun b => [⟨Ieee.narrow (LittleEndian.decode b)⟩]
  | .i64 => some fun b => [Ieee.ofInt (LittleEndian.decodeSigned b)]
  | _ => none

end Widen

/--
The half precision tensor of a payload of the tensor called `name`.
-/
def widen (name : String) (type : TensorType) (shape : List Nat) (payload : List UInt8)
    : Except Error Tensor :=
  match Widen.block? type with
  | none => .error (.gguf (.undecodable name type))
  | some decode => do
    let numel ← Shape.product shape
    let size ← type.byteSizeOf name numel
    if payload.length < size then
      throw (.gguf (.payloadTooShort name type payload.length numel size))
    let elements := (blocks type.blockBytes (numel / type.blockSize) payload).flatMap decode
    Tensor.ofBytes .f16 shape
      (elements.flatMap (fun x => LittleEndian.encode 2 (Ieee.toHalf x)))

end TensorFiles.Gguf
