import Mathlib.Algebra.Group.Nat.Defs
import TensorFiles.Alignment
import TensorFiles.Bytes.LittleEndian
/-!
This module contains the numbers that the little-endian byte form has room for, and that the bytes
are known by the number.
-/

namespace TensorFiles.LittleEndian

theorem decode_encode_of_lt {width n : Nat} (h : n < bound width)
    : decode (encode width n) = n := by
  rw [decode_encode, Nat.mod_eq_of_lt h]

theorem bound_four : bound 4 = halfWordBound := rfl

theorem bound_eight : bound 8 = wordBound := rfl

/--
The bytes of a number are its digits.
-/
theorem decode_digit (bytes : List UInt8) (k : Nat)
    : decode bytes / 256 ^ k % 256 = (bytes.getD k 0).toNat := by
  induction bytes generalizing k with
  | nil => simp [decode]
  | cons b rest ih =>
    have hb := b.toNat_lt
    cases k with
    | zero =>
      simp only [decode, Nat.pow_zero, Nat.div_one, List.getD_cons_zero]
      omega
    | succ k =>
      have hrest : (b.toNat + 256 * decode rest) / 256 = decode rest := by omega
      rw [decode, Nat.pow_succ', ← Nat.div_div_eq_div_mul, hrest, ih, List.getD_cons_succ]

section

variable {bytes bytes' : List UInt8}

theorem decode_inj (hlength : bytes.length = bytes'.length) (h : decode bytes = decode bytes')
    : bytes = bytes' := by
  rw [← encode_decode bytes, hlength, h, encode_decode]

theorem decodeSigned_inj (hlength : bytes.length = bytes'.length)
    (h : decodeSigned bytes = decodeSigned bytes') : bytes = bytes' := by
  have hlt := decode_lt bytes
  have hlt' := decode_lt bytes'
  apply decode_inj hlength
  unfold decodeSigned at h
  rw [← hlength] at h hlt'
  rw [Int.bmod_def, Int.bmod_def, Int.emod_eq_of_lt (by omega) (by omega),
    Int.emod_eq_of_lt (by omega) (by omega)] at h
  split at h
  . split at h
    . omega
    . omega
  . split at h
    . omega
    . omega

theorem bound_le {width : Nat} (h : width ≤ 8) : bound width ≤ wordBound := by
  have hall : ∀ width ≤ 8, bound width ≤ wordBound := by decide
  exact hall width h

theorem decodeSigned_bounds (h : bytes.length ≤ 8)
    : -(wordBound / 2 : Nat) ≤ decodeSigned bytes ∧ decodeSigned bytes < wordBound := by
  have hbound := bound_le h
  have hpos := bound_pos bytes.length
  have hlow := Int.le_bmod (x := decode bytes) hpos
  have hhigh := Int.bmod_lt (x := decode bytes) hpos
  unfold decodeSigned
  omega

end

end TensorFiles.LittleEndian
