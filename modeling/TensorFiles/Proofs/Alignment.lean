import Mathlib.Algebra.Group.Nat.Defs
import Mathlib.Order.Bounds.Defs
import TensorFiles.Config
/-!
This module contains the laws of rounding up to a boundary: as long as the sum does not leave the
machine word, the mask gives the least multiple that is not before the offset. Rounding up is
therefore monotone, and rounding up twice is rounding up once.
-/

namespace TensorFiles

theorem isPowerOfTwo_iff {n : Nat} : isPowerOfTwo n = true ↔ ∃ k, n = 2 ^ k := by
  have h := Nat.ne_zero_and_sub_one_eq_zero_iff_isPowerOfTwo (n := n)
  unfold Nat.isPowerOfTwo at h
  rw [← h]
  simp [isPowerOfTwo]

theorem pos_of_isPowerOfTwo {n : Nat} (h : isPowerOfTwo n = true) : 0 < n := by
  obtain ⟨k, rfl⟩ := isPowerOfTwo_iff.1 h
  exact Nat.two_pow_pos k

/--
A multiple of a power of two is a multiple of all smaller ones.
-/
theorem mod_eq_zero_of_le {m n k : Nat} (hm : isPowerOfTwo m = true) (hn : isPowerOfTwo n = true)
    (hle : m ≤ n) (h : k % n = 0) : k % m = 0 := by
  obtain ⟨i, rfl⟩ := isPowerOfTwo_iff.1 hm
  obtain ⟨j, rfl⟩ := isPowerOfTwo_iff.1 hn
  have hij := (Nat.pow_le_pow_iff_right (Nat.lt_succ_self 1)).1 hle
  exact Nat.mod_eq_zero_of_dvd (Nat.dvd_trans (Nat.pow_dvd_pow 2 hij) (Nat.dvd_of_mod_eq_zero h))

theorem wordBound_sub_two_pow {k : Nat} (hk : k ≤ 64)
    : wordBound - 2 ^ k = 2 ^ k * (2 ^ (64 - k) - 1) := by
  rw [Nat.mul_sub, ← Nat.pow_add, Nat.add_sub_cancel' hk, Nat.mul_one]
  rfl

theorem and_mask_eq {x k : Nat} (hk : k ≤ 64) (hx : x < wordBound)
    : x &&& (wordBound - 2 ^ k) = x / 2 ^ k * 2 ^ k := by
  rw [wordBound_sub_two_pow hk]
  -- below `k` the mask has no bits, and from 64 on the number has none
  apply Nat.eq_of_testBit_eq
  intro i
  rw [Nat.testBit_and, Nat.testBit_two_pow_mul, Nat.testBit_two_pow_sub_one,
    Nat.testBit_mul_two_pow, Nat.testBit_div_two_pow]
  by_cases hi : k ≤ i
  . rw [Nat.sub_add_cancel hi]
    by_cases hword : i < 64
    . have : i - k < 64 - k := by omega
      simp [hi, this]
    . have hlarge : 2 ^ 64 ≤ 2 ^ i :=
        Nat.pow_le_pow_right (Nat.two_pos) (Nat.not_lt.1 hword)
      rw [Nat.testBit_lt_two_pow (Nat.lt_of_lt_of_le hx hlarge)]
      simp
  . simp [hi]

/--
What the mask leaves is a multiple of the boundary, also if the sum has left the machine word.
-/
theorem alignUp_mod (off : Nat) {align : Nat} (h : isPowerOfTwo align = true)
    : alignUp off align % align = 0 := by
  have hpos := pos_of_isPowerOfTwo h
  obtain ⟨k, rfl⟩ := isPowerOfTwo_iff.1 h
  have hmask : ∃ m, wordBound - 2 ^ k = 2 ^ k * m := by
    by_cases hk : k ≤ 64
    . exact ⟨_, wordBound_sub_two_pow hk⟩
    . have hlarge : 2 ^ 64 ≤ 2 ^ k := Nat.pow_le_pow_right Nat.two_pos (by omega)
      exact ⟨0, Nat.sub_eq_zero_of_le hlarge⟩
  obtain ⟨m, hm⟩ := hmask
  unfold alignUp
  rw [if_neg (by omega), hm]
  -- below `k` the mask has no bits
  apply Nat.eq_of_testBit_eq
  intro i
  rw [Nat.testBit_mod_two_pow, Nat.testBit_and, Nat.testBit_two_pow_mul, Nat.zero_testBit]
  by_cases hi : i < k
  . simp [Nat.not_le.2 hi]
  . simp [hi]

theorem dvd_alignUp (off : Nat) {align : Nat} (h : isPowerOfTwo align = true)
    : align ∣ alignUp off align :=
  Nat.dvd_of_mod_eq_zero (alignUp_mod off h)

theorem alignUp_le_mask (off : Nat) {align : Nat} (hpos : 0 < align)
    : alignUp off align ≤ wordBound - align := by
  unfold alignUp
  rw [if_neg (by omega)]
  exact Nat.and_le_right

section

variable {off align : Nat} (h : isPowerOfTwo align = true) (hfits : off + align ≤ wordBound)
include h hfits

theorem alignUp_eq : alignUp off align = (off + align - 1) / align * align := by
  have hpos := pos_of_isPowerOfTwo h
  obtain ⟨k, rfl⟩ := isPowerOfTwo_iff.1 h
  have hle : 2 ^ k ≤ 2 ^ 64 := Nat.le_trans (Nat.le_add_left _ off) hfits
  have hk := (Nat.pow_le_pow_iff_right (Nat.lt_succ_self 1)).1 hle
  unfold alignUp
  rw [if_neg (by omega)]
  exact and_mask_eq hk (by omega)

theorem le_alignUp : off ≤ alignUp off align := by
  have hpos := pos_of_isPowerOfTwo h
  have hlt := Nat.lt_div_mul_add (a := off + align - 1) hpos
  rw [alignUp_eq h hfits]
  omega

theorem alignUp_lt : alignUp off align < off + align := by
  have hpos := pos_of_isPowerOfTwo h
  have hle := Nat.div_mul_le_self (off + align - 1) align
  rw [alignUp_eq h hfits]
  omega

/--
The multiples that are not before the offset are those that are not before what the mask gives.
-/
theorem alignUp_le_iff {m : Nat} (hdvd : align ∣ m) : alignUp off align ≤ m ↔ off ≤ m := by
  refine ⟨Nat.le_trans (le_alignUp h hfits), fun hle => ?_⟩
  have hlt := alignUp_lt h hfits
  obtain ⟨i, hi⟩ := dvd_alignUp off h
  obtain ⟨j, rfl⟩ := hdvd
  rw [hi] at hlt ⊢
  -- both are multiples, and less than one step apart
  have hij : align * i < align * (j + 1) := by
    rw [Nat.mul_succ]
    omega
  exact Nat.mul_le_mul_left align (Nat.le_of_lt_succ (Nat.lt_of_mul_lt_mul_left hij))

theorem isLeast_alignUp : IsLeast {m | align ∣ m ∧ off ≤ m} (alignUp off align) :=
  ⟨⟨dvd_alignUp off h, le_alignUp h hfits⟩, fun _ hm => (alignUp_le_iff h hfits hm.1).2 hm.2⟩

end

/--
Where rounding up leaves the machine word, the mask gives something that is before the offset.
-/
theorem add_le_wordBound_of_le_alignUp {off align : Nat} (h : isPowerOfTwo align = true)
    (hle : off ≤ alignUp off align) (hsmall : align < halfWordBound) : off + align ≤ wordBound := by
  have hmask := alignUp_le_mask off (pos_of_isPowerOfTwo h)
  unfold wordBound at hmask ⊢
  unfold halfWordBound at hsmall
  omega

theorem CodecConfig.validate_eq_ok_iff {c : CodecConfig}
    : c.validate = .ok () ↔
      isPowerOfTwo c.alignment = true ∧ c.alignment < halfWordBound ∧
        Gguf.minVersion ≤ c.version ∧ c.version ≤ Gguf.maxVersion := by
  unfold validate
  split
  . next hp => simp_all
  . next hp =>
    split
    . next ha =>
      simp only [reduceCtorEq, false_iff]
      omega
    . split
      . next hv =>
        simp only [reduceCtorEq, false_iff]
        omega
      . next ha hv =>
        simp only [true_iff]
        refine ⟨by simpa using hp, by omega, by omega, by omega⟩

end TensorFiles
