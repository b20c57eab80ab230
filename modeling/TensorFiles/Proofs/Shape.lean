import Mathlib.Data.List.Infix
import TensorFiles.Proofs.Result
import TensorFiles.Shape
/-!
This module contains which shapes machine words can multiply. The products only grow until a dimension
is zero, so a shape with elements is only as large as their number; without elements nothing bounds the
products on the way.
-/

namespace TensorFiles.Shape

variable {acc acc' n : Nat} {shape shape' front : List Nat}

/--
The product of a shape stays within a machine word, whichever dimension it has come to.
-/
structure Fits (shape : List Nat) : Prop where
  dims : ∀ d ∈ shape, d < wordBound
  product : (Shape.productFrom? 1 shape).isSome

/--
The numbers that the multiplication of `acc` and all dimensions goes through.
-/
def products (acc : Nat) : List Nat → List Nat
  | [] => []
  | d :: rest => acc * d :: products (acc * d) rest

theorem isSome_productFrom?_iff
    : (productFrom? acc shape).isSome ↔ ∀ n ∈ products acc shape, n < wordBound := by
  induction shape generalizing acc with
  | nil => simp [productFrom?, products]
  | cons d rest ih =>
    unfold productFrom? products
    rw [List.forall_mem_cons]
    split
    . next hlt => rw [ih, and_iff_right hlt]
    . next hlt => simp [hlt]

theorem isSome_productFrom?_of_le (hshape : List.Forall₂ (· ≤ ·) shape' shape) (hacc : acc' ≤ acc)
    (h : (productFrom? acc shape).isSome) : (productFrom? acc' shape').isSome := by
  induction hshape generalizing acc acc' with
  | nil => rfl
  | cons hd _ ih =>
    have hle := Nat.mul_le_mul hacc hd
    unfold productFrom? at h ⊢
    split at h
    . next hlt =>
      rw [if_pos (Nat.lt_of_le_of_lt hle hlt)]
      exact ih hle h
    . simp at h

theorem productFrom?_eq (h : ∀ front, front <+: shape → acc * numel front < wordBound)
    : productFrom? acc shape = some (acc * numel shape) := by
  induction shape generalizing acc with
  | nil => simp [productFrom?]
  | cons d rest ih =>
    have hfirst : acc * d < wordBound := by
      have := h [d] (by simp)
      rw [numel_cons, numel_nil, Nat.mul_one] at this
      exact this
    have hrest (front : List Nat) (hfront : front <+: rest) : acc * d * numel front < wordBound := by
      have := h (d :: front) (List.cons_prefix_cons.2 ⟨rfl, hfront⟩)
      rw [numel_cons, ← Nat.mul_assoc] at this
      exact this
    unfold productFrom?
    rw [if_pos hfirst, ih hrest, numel_cons, Nat.mul_assoc]

theorem lt_of_isSome_productFrom? (hacc : acc < wordBound) (h : (productFrom? acc shape).isSome)
    (hfront : front <+: shape) : acc * numel front < wordBound := by
  induction front generalizing acc shape with
  | nil => simpa using hacc
  | cons d front ih =>
    obtain ⟨rest, rfl⟩ := hfront
    rw [List.cons_append] at h
    unfold productFrom? at h
    split at h
    . next hlt =>
      rw [numel_cons, ← Nat.mul_assoc]
      exact ih hlt h (List.prefix_append front rest)
    . simp at h

theorem mul_numel_le_of_isPrefix (hne : numel shape ≠ 0) (hfront : front <+: shape) (acc : Nat)
    : acc * numel front ≤ acc * numel shape := by
  obtain ⟨rest, rfl⟩ := hfront
  rw [numel_append] at hne ⊢
  have hrest : 0 < numel rest := Nat.pos_of_ne_zero (Nat.mul_ne_zero_iff.1 hne).2
  exact Nat.mul_le_mul_left acc (Nat.le_mul_of_pos_right _ hrest)

theorem productFrom?_replicate_one (rank : Nat)
    : productFrom? 1 (List.replicate rank 1) = some 1 := by
  induction rank with
  | zero => rfl
  | succ rank ih =>
    rw [List.replicate_succ, productFrom?, if_pos (by decide)]
    exact ih

theorem numel_replicate_one (rank : Nat) : numel (List.replicate rank 1) = 1 := by
  have hnumel := eq_of_productFrom? (productFrom?_replicate_one rank)
  rwa [Nat.one_mul, eq_comm] at hnumel

theorem product_of_not_small (h : ¬ Small shape)
    : product shape = .error (.panic .product) := by
  rw [Option.not_isSome_iff_eq_none] at h
  unfold product
  rw [h]

theorem Small.numel_lt (h : Small shape) : numel shape < wordBound := by
  have hlt := lt_of_isSome_productFrom? (by decide) h (List.prefix_refl shape)
  rwa [Nat.one_mul] at hlt

theorem small_of_numel_lt (hne : numel shape ≠ 0) (hlt : numel shape < wordBound)
    : Small shape := by
  have hall (front : List Nat) (hfront : front <+: shape) : 1 * numel front < wordBound := by
    refine Nat.lt_of_le_of_lt (mul_numel_le_of_isPrefix hne hfront 1) ?_
    rwa [Nat.one_mul]
  exact Option.isSome_of_eq_some (productFrom?_eq hall)

theorem small_singleton_iff : Small [n] ↔ n < wordBound := by
  unfold Small
  rw [isSome_productFrom?_iff]
  simp [products]

/--
A shape with another last dimension, which is not larger.
-/
theorem forall₂_dropLast_append {last : Nat} (hlast : shape.getLast? = some last) (hle : n ≤ last)
    : List.Forall₂ (· ≤ ·) (shape.dropLast ++ [n]) shape := by
  have hfront : List.Forall₂ (· ≤ ·) shape.dropLast shape.dropLast :=
    List.forall₂_same.2 fun d _ => Nat.le_refl d
  have hall : List.Forall₂ (· ≤ ·) (shape.dropLast ++ [n]) (shape.dropLast ++ [last]) :=
    List.rel_append hfront (.cons hle .nil)
  rwa [List.dropLast_append_getLast? _ hlast] at hall

theorem Small.dropLast_append {last : Nat} (h : Small shape) (hlast : shape.getLast? = some last)
    (hle : n ≤ last) : Small (shape.dropLast ++ [n]) :=
  isSome_productFrom?_of_le (forall₂_dropLast_append hlast hle) (Nat.le_refl 1) h

theorem Fits.of_le (h : Fits shape) (hle : List.Forall₂ (· ≤ ·) shape' shape) : Fits shape' := by
  refine ⟨?_, isSome_productFrom?_of_le hle (Nat.le_refl 1) h.product⟩
  intro d hd
  obtain ⟨d', hd', hdle⟩ := exists_left_of_forall₂ hle.flip hd
  exact Nat.lt_of_le_of_lt hdle (h.dims d' hd')

theorem Fits.dropLast_append {last : Nat} (h : Fits shape) (hlast : shape.getLast? = some last)
    (hle : n ≤ last) : Fits (shape.dropLast ++ [n]) :=
  h.of_le (forall₂_dropLast_append hlast hle)

end TensorFiles.Shape
