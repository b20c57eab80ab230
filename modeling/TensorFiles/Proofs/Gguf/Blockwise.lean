import Mathlib.Data.Nat.ModEq
import TensorFiles.Proofs.Gguf.Widen
/-!
This module contains that payloads are widened block by block. What a payload gives is what its
blocks give, each on its own, one after the other, and nothing behind the last block has a part in
it.
-/

namespace TensorFiles.Gguf

/--
The number of bytes that the elements of a shape take, where they are whole blocks.
-/
def TensorType.lengthOf (type : TensorType) (shape : List Nat) : Nat :=
  Shape.numel shape / type.blockSize * type.blockBytes

/--
The types whose payloads can be widened.
-/
def widenedTypes : List TensorType :=
  [.q4_0, .q4_1, .q5_0, .q5_1, .q8_0, .q4_k, .q6_k, .bf16, .f64, .i64]

/--
The payload has all elements of the shape, in whole blocks of a type that can be widened.
-/
structure Widenable (type : TensorType) (shape : List Nat) (payload : List UInt8) : Prop where
  mem : type ∈ widenedTypes
  whole : type.blockSize ∣ Shape.numel shape
  long : type.lengthOf shape ≤ payload.length

/--
The half precision numbers of a block, as they are stored.
-/
def Widen.stored (decode : List UInt8 → List Ieee.Single) (block : List UInt8) : List UInt8 :=
  (decode block).flatMap (fun x => LittleEndian.encode 2 (Ieee.toHalf x))

theorem Widen.isSome_block?_iff_mem {type : TensorType}
    : (block? type).isSome ↔ type ∈ widenedTypes := by
  cases type <;> decide

section

variable {name : String} {type : TensorType} {shape : List Nat} {payload : List UInt8} {t : Tensor}
  {decode : List UInt8 → List Ieee.Single}

theorem exists_widen_iff_widenable (hsize : payload.length < wordBound)
    : (∃ t, widen name type shape payload = .ok t) ↔
        Shape.Small shape ∧ Widenable type shape payload := by
  rw [exists_widen_iff, Widen.isSome_block?_iff_mem]
  simp only [TensorType.byteSizeOf_eq_ok_iff, TensorType.byteSize_eq_ok_iff]
  constructor
  . rintro ⟨hmem, hsmall, _, ⟨hwhole, rfl, _⟩, hlong⟩
    exact ⟨hsmall, hmem, hwhole, hlong⟩
  . rintro ⟨hsmall, hmem, hwhole, hlong⟩
    exact ⟨hmem, hsmall, _, ⟨hwhole, rfl, Nat.lt_of_le_of_lt hlong hsize⟩, hlong⟩

theorem widen_eq_ok_iff_stored (hdecode : Widen.block? type = some decode)
    : widen name type shape payload = .ok t ↔
      (type.blockSize ∣ Shape.numel shape ∧ type.lengthOf shape < wordBound ∧
        type.lengthOf shape ≤ payload.length) ∧
      t.dtype = .f16 ∧ t.shape = shape ∧
      t.data = (blocks type.blockBytes (Shape.numel shape / type.blockSize) payload).flatMap
        (Widen.stored decode) := by
  rw [widen_eq_ok_iff, hdecode]
  simp only [Option.some.injEq, exists_eq_left', TensorType.byteSizeOf_eq_ok_iff,
    TensorType.byteSize_eq_ok_iff, Tensor.ofBytes_eq_ok_iff, List.flatMap_assoc]
  constructor
  . rintro ⟨_, ⟨hwhole, rfl, hlt⟩, hlong, ht⟩
    exact ⟨⟨hwhole, hlt, hlong⟩, ht⟩
  . rintro ⟨⟨hwhole, hlt, hlong⟩, ht⟩
    exact ⟨_, ⟨hwhole, rfl, hlt⟩, hlong, ht⟩

theorem exists_block?_of_widen (h : widen name type shape payload = .ok t)
    : ∃ decode, Widen.block? type = some decode := by
  obtain ⟨decode, hdecode, _⟩ := widen_eq_ok_iff.1 h
  exact ⟨decode, hdecode⟩

/--
The element `n` of the block `b` is found behind those of the blocks before it.
-/
theorem slice_of_widen (hdecode : Widen.block? type = some decode)
    (h : widen name type shape payload = .ok t) {b n : Nat}
    (hb : b < Shape.numel shape / type.blockSize) (hn : n < type.blockSize) {x : Ieee.Single}
    (hx : (decode (Widen.slice payload (b * type.blockBytes) type.blockBytes))[n]? = some x)
    : Widen.slice t.data (2 * (b * type.blockSize + n)) 2
        = LittleEndian.encode 2 (Ieee.toHalf x) := by
  obtain ⟨⟨_, _, hlong⟩, _, _, hdata⟩ := (widen_eq_ok_iff_stored hdecode).1 h
  have hall : ∀ row ∈ blocks type.blockBytes (Shape.numel shape / type.blockSize) payload,
      (decode row).length = type.blockSize := by
    intro row hrow
    exact Widen.length_of_block? hdecode (length_of_mem_blocks hlong row hrow)
  have helement := getElem?_flatMap_of_forall hall (getElem?_blocks payload hb) hn
  rw [← Widen.slice, hx] at helement
  unfold Widen.stored at hdata
  rw [hdata, ← List.flatMap_assoc, Widen.slice_flatMap_encode helement]

end

end TensorFiles.Gguf
