import TensorFiles.Bytes.LittleEndian
import TensorFiles.Error
/-!
This module contains the size of payloads and the bounds-checked access to their blocks.
-/

namespace TensorFiles.Gguf

/--
The number of bytes `numel` elements take, which have to be whole blocks.
-/
def TensorType.byteSize (t : TensorType) (numel : Nat) : Except Fault Nat :=
  if numel % t.blockSize ≠ 0 then
    .error (.partialBlock t numel)
  else if wordBound ≤ numel / t.blockSize * t.blockBytes then
    .error (.sizeOverflow t numel)
  else
    .ok (numel / t.blockSize * t.blockBytes)

/--
The number of bytes of the tensor called `name`.
-/
def TensorType.byteSizeOf (t : TensorType) (name : String) (numel : Nat) : Except Error Nat :=
  match t.byteSize numel with
  | .ok size => .ok size
  | .error fault => .error (.gguf (.ofTensor name fault))

namespace TensorType

variable {t : TensorType} {name : String} {numel size : Nat}

theorem byteSize_eq_ok_iff
    : t.byteSize numel = .ok size ↔ t.blockSize ∣ numel ∧
        size = numel / t.blockSize * t.blockBytes ∧ size < wordBound := by
  unfold byteSize
  rw [Nat.dvd_iff_mod_eq_zero]
  split
  . next hpart => simp [hpart]
  . next hwhole =>
    split
    . next hlarge =>
      simp only [reduceCtorEq, false_iff, not_and]
      rintro _ rfl
      exact Nat.not_lt.2 hlarge
    . next hsmall =>
      simp only [Except.ok.injEq]
      constructor
      . rintro rfl
        exact ⟨Decidable.not_not.1 hwhole, rfl, Nat.not_le.1 hsmall⟩
      . rintro ⟨_, rfl, _⟩
        rfl

theorem byteSizeOf_eq_ok_iff : t.byteSizeOf name numel = .ok size ↔ t.byteSize numel = .ok size := by
  unfold byteSizeOf
  cases t.byteSize numel with
  | error fault => simp
  | ok n => simp

theorem dvd_of_byteSize (h : t.byteSize numel = .ok size)
    : numel / t.blockSize * t.blockSize = numel ∧ size = numel / t.blockSize * t.blockBytes := by
  obtain ⟨hwhole, hsize, _⟩ := byteSize_eq_ok_iff.1 h
  exact ⟨Nat.div_mul_cancel hwhole, hsize⟩

end TensorType

/--
The bytes of the block `index` in a row of blocks of `length` bytes.
-/
def blockAt (payload : List UInt8) (index length : Nat) : Except Error (List UInt8) :=
  if index * length + length ≤ payload.length then
    .ok ((payload.drop (index * length)).take length)
  else
    .error (.gguf (.blockOutside index length payload.length))

/--
The bits of the half precision number at `offset`.
-/
def halfAt (block : List UInt8) (offset : Nat) : Except Error Nat :=
  if offset + 2 ≤ block.length then
    .ok (LittleEndian.decode ((block.drop offset).take 2))
  else
    .error (.about (offset + 2) .sum (.gguf (.halfOutside offset block.length)))

/--
The code of the weight `index` among the four bit codes packed in `codes`: the low halves of all the
bytes come first, then the high halves.
-/
def nibbleAt (codes : List UInt8) (index : Nat) : Except Error UInt8 :=
  if index < codes.length then
    .ok (codes.getD index 0 &&& 0x0F)
  else if index < 2 * codes.length then
    .ok (codes.getD (index - codes.length) 0 >>> 4)
  else
    .error (.gguf (.nibbleOutside index codes.length))

end TensorFiles.Gguf
