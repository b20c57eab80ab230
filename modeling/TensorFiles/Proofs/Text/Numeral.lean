import Mathlib.Algebra.Group.Nat.Defs
import TensorFiles.Text.Digits
import TensorFiles.Text.Numeral
/-!
This module contains the round trip of numbers through decimal numerals, and what characters a
numeral is made of.
-/

namespace TensorFiles.Numeral

theorem digit?_digitChar {n : Nat} (h : n < 10) : digit? (Nat.digitChar n) = some n := by
  revert n
  decide

theorem isDigit_digitChar {n : Nat} (h : n < 10) : Text.isDigit (Nat.digitChar n) = true := by
  revert n
  decide

theorem isDigit_of_mem_encode {n : Nat} {c : Char} (h : c ∈ encode n) : Text.isDigit c = true := by
  induction n using encode.induct with
  | case1 n hsmall =>
    unfold encode at h
    rw [if_pos hsmall, List.mem_singleton] at h
    rw [h]
    exact isDigit_digitChar hsmall
  | case2 n hlarge ih =>
    unfold encode at h
    rw [if_neg hlarge, List.mem_append, List.mem_singleton] at h
    cases h with
    | inl h => exact ih h
    | inr h =>
      rw [h]
      apply isDigit_digitChar
      omega

theorem encode_ne_nil (n : Nat) : encode n ≠ [] := by
  unfold encode
  split
  . simp
  . simp

theorem decodeFrom_append {bound acc n : Nat} {front : List Char} (rest : List Char)
    (h : decodeFrom bound acc front = .ok n)
    : decodeFrom bound acc (front ++ rest) = decodeFrom bound n rest := by
  induction front generalizing acc with
  | nil =>
    simp only [decodeFrom, Except.ok.injEq] at h
    rw [h, List.nil_append]
  | cons c front ih =>
    simp only [List.cons_append, decodeFrom] at h ⊢
    split at h
    . simp at h
    . split at h
      . next hlt =>
        simp only [if_pos hlt]
        exact ih h
      . simp at h

theorem decodeFrom_encode {bound n : Nat} (h : n < bound) : decodeFrom bound 0 (encode n) = .ok n := by
  induction n using encode.induct with
  | case1 n hsmall =>
    unfold encode
    rw [if_pos hsmall]
    simp only [decodeFrom, digit?_digitChar hsmall, Nat.zero_mul, Nat.zero_add, if_pos h]
  | case2 n hlarge ih =>
    have hlast : n / 10 * 10 + n % 10 = n := Nat.div_add_mod' n 10
    have hdigit := digit?_digitChar (Nat.mod_lt n (by decide : 0 < 10))
    unfold encode
    rw [if_neg hlarge, decodeFrom_append _ (ih (by omega))]
    simp only [decodeFrom, hdigit, hlast, if_pos h]

theorem decode_encode {bound n : Nat} (h : n < bound) : decode bound (encode n) = .ok n := by
  rw [← decodeFrom_encode h]
  have hdigit : ∀ c ∈ encode n, Text.isDigit c = true := fun _ hc => isDigit_of_mem_encode hc
  have hne := encode_ne_nil n
  -- a numeral has no sign in front
  generalize encode n = cs at hdigit hne
  unfold decode
  split
  . exact absurd rfl hne
  . exact absurd (hdigit '+' List.mem_cons_self) (by decide)
  . exact absurd (hdigit '+' List.mem_cons_self) (by decide)
  . rfl

theorem decodeFrom_lt {bound acc n : Nat} {cs : List Char} (hacc : acc < bound)
    (h : decodeFrom bound acc cs = .ok n) : n < bound := by
  induction cs generalizing acc with
  | nil =>
    rw [decodeFrom, Except.ok.injEq] at h
    rw [← h]
    exact hacc
  | cons c cs ih =>
    unfold decodeFrom at h
    split at h
    . simp at h
    . split at h
      . next hlt => exact ih hlt h
      . simp at h

/--
Only numbers in range are read.
-/
theorem decode_lt {bound n : Nat} {cs : List Char} (hbound : 0 < bound)
    (h : decode bound cs = .ok n) : n < bound := by
  unfold decode at h
  split at h
  . simp at h
  . simp at h
  . exact decodeFrom_lt hbound h
  . exact decodeFrom_lt hbound h

theorem head?_encode_ne_zero {n : Nat} (h : 0 < n) : (encode n).head? ≠ some '0' := by
  induction n using encode.induct with
  | case1 n hsmall =>
    have hall : ∀ k < 10, 0 < k → Nat.digitChar k ≠ '0' := by decide
    unfold encode
    rw [if_pos hsmall, List.head?_cons]
    simpa using hall n hsmall h
  | case2 n hlarge ih =>
    unfold encode
    rw [if_neg hlarge]
    have hfront := ih (by omega)
    cases hcs : encode (n / 10) with
    | nil => exact absurd hcs (encode_ne_nil _)
    | cons c cs =>
      rw [hcs] at hfront
      exact hfront

theorem digitValue?_digitChar {n : Nat} (h : n < 10)
    : Text.digitValue? (Nat.digitChar n) = some n := by
  revert n
  decide

theorem ofDigits_encode (n : Nat) : Text.ofDigits 10 (encode n) = n := by
  induction n using encode.induct with
  | case1 n hsmall =>
    unfold encode Text.ofDigits
    rw [if_pos hsmall, List.foldl_cons, List.foldl_nil, digitValue?_digitChar hsmall]
    simp
  | case2 n hlarge ih =>
    unfold Text.ofDigits at ih ⊢
    unfold encode
    rw [if_neg hlarge, List.foldl_append, ih, List.foldl_cons, List.foldl_nil,
      digitValue?_digitChar (Nat.mod_lt n (by decide)), Option.getD_some]
    exact Nat.div_add_mod' n 10

/--
A numeral has at most as many digits as any bound of the form of a power of ten.
-/
theorem length_encode_le {n k : Nat} (h : n < 10 ^ k) (hk : 0 < k) : (encode n).length ≤ k := by
  induction n using encode.induct generalizing k with
  | case1 n hsmall =>
    unfold encode
    rw [if_pos hsmall]
    exact hk
  | case2 n hlarge ih =>
    unfold encode
    rw [if_neg hlarge, List.length_append, List.length_singleton]
    cases k with
    | zero => simp at hk
    | succ k =>
      have hpos : 0 < k := by
        apply Nat.pos_of_ne_zero
        rintro rfl
        omega
      have hdiv : n / 10 < 10 ^ k := by
        rw [Nat.pow_succ] at h
        omega
      have := ih hdiv hpos
      omega

end TensorFiles.Numeral
