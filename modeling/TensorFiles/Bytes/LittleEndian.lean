/-!
This module contains the little-endian byte form of numbers.
-/

namespace TensorFiles.LittleEndian

/--
The `width` low bytes of `n`, least significant first.
-/
def encode (width n : Nat) : List UInt8 :=
  match width with
  | 0 => []
  | width + 1 => UInt8.ofNat n :: encode width (n / 256)

/--
The number whose bytes, least significant first, are `bytes`.
-/
def decode : List UInt8 → Nat
  | [] => 0
  | b :: rest => b.toNat + 256 * decode rest

/--
One more than the largest number of `width` bytes.
-/
def bound : (width : Nat) → Nat
  | 0 => 1
  | width + 1 => 256 * bound width

theorem bound_pos (width : Nat) : 0 < bound width := by
  induction width with
  | zero => decide
  | succ width ih =>
    unfold bound
    omega

@[simp]
theorem length_encode (width n : Nat) : (encode width n).length = width := by
  induction width generalizing n with
  | zero => rfl
  | succ width ih => simp [encode, ih]

theorem decode_encode (width n : Nat) : decode (encode width n) = n % bound width := by
  induction width generalizing n with
  | zero => simp [encode, decode, bound, Nat.mod_one]
  | succ width ih =>
    simp only [encode, decode, bound, ih, UInt8.toNat_ofNat']
    rw [Nat.mod_mul]

theorem decode_lt (bytes : List UInt8) : decode bytes < bound bytes.length := by
  induction bytes with
  | nil => decide
  | cons b rest ih =>
    have := b.toNat_lt
    simp only [decode, List.length_cons, bound]
    omega

theorem encode_decode (bytes : List UInt8) : encode bytes.length (decode bytes) = bytes := by
  induction bytes with
  | nil => rfl
  | cons b rest ih =>
    have hb := b.toNat_lt
    simp only [List.length_cons, encode, decode]
    congr 1
    . apply UInt8.toNat_inj.1
      simp only [UInt8.toNat_ofNat']
      omega
    . rw [show (b.toNat + 256 * decode rest) / 256 = decode rest by omega]
      exact ih

/--
The number that the little-endian two's complement bytes `bytes` stand for.
-/
def decodeSigned (bytes : List UInt8) : Int :=
  Int.bmod (decode bytes) (bound bytes.length)

end TensorFiles.LittleEndian
