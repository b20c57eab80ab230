import TensorFiles.Error
/-!
This module contains the number of elements of a shape, and how machine words compute it.
-/

namespace TensorFiles.Shape

/--
The product of all dimensions.
-/
def numel : List Nat → Nat
  | [] => 1
  | d :: rest => d * numel rest

@[simp]
theorem numel_nil : numel [] = 1 := rfl

@[simp]
theorem numel_cons (d : Nat) (rest : List Nat) : numel (d :: rest) = d * numel rest := rfl

theorem numel_append (front rest : List Nat) : numel (front ++ rest) = numel front * numel rest := by
  induction front with
  | nil => simp
  | cons d front ih => simp [ih, Nat.mul_assoc]

/--
The product of `acc` and all dimensions, if it and all products on the way fit a machine word.
-/
def productFrom? (acc : Nat) : List Nat → Option Nat
  | [] => some acc
  | d :: rest => if acc * d < wordBound then productFrom? (acc * d) rest else none

theorem eq_of_productFrom? {acc n : Nat} {shape : List Nat} (h : productFrom? acc shape = some n)
    : n = acc * numel shape := by
  induction shape generalizing acc with
  | nil => simpa [productFrom?] using h.symm
  | cons d rest ih =>
    unfold productFrom? at h
    split at h
    . rw [ih h, numel_cons, Nat.mul_assoc]
    . simp at h

/--
The products of the first dimension, the first two and so on all fit a machine word.
-/
abbrev Small (shape : List Nat) : Prop := (productFrom? 1 shape).isSome

theorem productFrom?_one_eq_some_iff {n : Nat} {shape : List Nat}
    : productFrom? 1 shape = some n ↔ Small shape ∧ n = numel shape := by
  constructor
  . intro h
    exact ⟨Option.isSome_of_eq_some h, by rw [eq_of_productFrom? h, Nat.one_mul]⟩
  . rintro ⟨hsome, rfl⟩
    obtain ⟨n, hn⟩ := Option.isSome_iff_exists.1 hsome
    rw [hn, eq_of_productFrom? hn, Nat.one_mul]

/--
The product of all dimensions, as far as machine words can hold it.
-/
def product (shape : List Nat) : Except Error Nat :=
  match productFrom? 1 shape with
  | some n => .ok n
  | none => .error (.panic .product)

theorem product_eq_ok_iff {n : Nat} {shape : List Nat}
    : product shape = .ok n ↔ Small shape ∧ n = numel shape := by
  rw [← productFrom?_one_eq_some_iff]
  unfold product
  split
  . next m hm => rw [hm, Except.ok.injEq, Option.some.injEq]
  . next hnone => simp [hnone]

end TensorFiles.Shape
