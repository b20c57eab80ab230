import TensorFiles.Proofs.Shape
import TensorFiles.Tensor.View
/-!
This module contains which bytes make tensors, and when views give bytes, and how many.
-/

namespace TensorFiles

@[ext]
theorem Tensor.ext {s t : Tensor} (hdtype : s.dtype = t.dtype) (hshape : s.shape = t.shape)
    (hdata : s.data = t.data) : s = t := by
  cases s
  cases t
  simp_all

namespace Tensor

variable {dtype : DType} {shape : List Nat} {data : List UInt8}

/--
Tensors are made of as many bytes as their shapes ask for, and of no others.
-/
theorem exists_ofBytes_iff
    : (∃ t, ofBytes dtype shape data = .ok t) ↔
        Shape.Small shape ∧ data.length = Shape.numel shape * dtype.size := by
  rw [← Shape.sized_iff]
  constructor
  . rintro ⟨t, ht⟩
    obtain ⟨rfl, rfl, rfl⟩ := ofBytes_eq_ok_iff.1 ht
    exact t.sized
  . intro h
    exact ⟨⟨dtype, shape, data, h⟩, ofBytes_eq_ok_iff.2 ⟨rfl, rfl, rfl⟩⟩

/--
The number of elements and the number of their bytes fit a machine word.
-/
structure FitsWord (dtype : DType) (shape : List Nat) : Prop where
  small : Shape.Small shape
  size : Shape.numel shape * dtype.size < wordBound

theorem product_of_not_fitsWord (h : ¬ FitsWord dtype shape)
    : Shape.product shape = .error (.panic .product) ∨
        Shape.product shape = .ok (Shape.numel shape) ∧
          ∀ e, Error.about (Shape.numel shape * dtype.size) .product e = .panic .product := by
  by_cases hsmall : Shape.Small shape
  . refine .inr ⟨Shape.product_eq_ok_iff.2 ⟨hsmall, rfl⟩, fun e => if_neg ?_⟩
    exact fun hlt => h ⟨hsmall, hlt⟩
  . exact .inl (Shape.product_of_not_small hsmall)

/--
If the number of bytes does not fit a machine word, making a tensor of any bytes breaks off.
-/
theorem ofBytes_of_not_fitsWord (h : ¬ FitsWord dtype shape) (hlength : data.length < wordBound)
    : ofBytes dtype shape data = .error (.panic .product) := by
  have hsized : ¬ (Shape.productFrom? 1 shape).map (· * dtype.size) = some data.length := by
    rw [Shape.sized_iff]
    rintro ⟨hsmall, hsize⟩
    exact h ⟨hsmall, hsize ▸ hlength⟩
  unfold ofBytes
  rw [dif_neg hsized]
  rcases product_of_not_fitsWord h with hproduct | ⟨hproduct, habout⟩
  . rw [hproduct]
    rfl
  . rw [hproduct]
    exact congrArg Except.error (habout _)

theorem ofBytes_eq_panic_iff (hlength : data.length < wordBound)
    : ofBytes dtype shape data = .error (.panic .product) ↔ ¬ FitsWord dtype shape := by
  refine ⟨fun h hfits => ?_, fun h => ofBytes_of_not_fitsWord h hlength⟩
  have hproduct := Shape.product_eq_ok_iff.2 ⟨hfits.small, rfl⟩
  unfold ofBytes at h
  split at h
  . cases h
  . rw [hproduct] at h
    simp only [bind, Except.bind, Error.about, if_pos hfits.size] at h
    cases h

theorem exists_reshape_iff {t : Tensor}
    : (∃ t', t.reshape shape = .ok t') ↔
        Shape.Small shape ∧ Shape.numel shape = t.numel := by
  unfold reshape numel
  rw [exists_ofBytes_iff, t.length_data, Nat.mul_left_inj (Nat.ne_of_gt t.dtype.size_pos)]
  exact and_congr_right fun _ => eq_comm

theorem exists_ofBools_iff {values : List Bool}
    : (∃ t, ofBools values shape = .ok t) ↔
        Shape.Small shape ∧ values.length = Shape.numel shape := by
  unfold ofBools
  rw [exists_ofBytes_iff, List.length_map]
  exact and_congr_right fun _ => Eq.congr_right (Nat.mul_one _)

end Tensor

namespace View

/--
The bytes come from the view: it holds them together, or it holds no bytes together and they are
those of a copy of the same form.
-/
def Offers (v : View) (bytes : List UInt8) : Prop :=
  v.contiguous? = some bytes ∨
    (v.contiguous? = none ∧
      ∃ t, v.copy = .ok t ∧ t.shape = v.shape ∧ t.dtype = v.dtype ∧ t.data = bytes)

/--
Whatever a view answers, the bytes that are taken from it are its own, and fit its shape.
-/
theorem contiguousData_eq_ok_iff {v : View} {name : String} {bytes : List UInt8}
    : v.contiguousData name = .ok bytes ↔
        v.eval = .ok () ∧ v.Offers bytes ∧ bytes.length = v.nbytes ∧
          Shape.Small v.shape := by
  unfold contiguousData Offers nbytes numel
  simp only [bind_eq_ok_iff, Shape.product_eq_ok_iff]
  constructor
  . rintro ⟨⟨⟩, heval, _, ⟨hsmall, rfl⟩, h⟩
    refine ⟨heval, ?_⟩
    split at h
    . next there hthere =>
      split at h
      . next hlength =>
        rw [pure_eq_ok_iff] at h
        rw [← h]
        exact ⟨.inl hthere, hlength, hsmall⟩
      . simp at h
    . next hnone =>
      split at h
      . simp at h
      . next t hcopy =>
        split at h
        . next hsame =>
          rw [pure_eq_ok_iff] at h
          rw [← h, t.length_data, hsame.1, hsame.2]
          exact ⟨.inr ⟨hnone, t, hcopy, hsame.1, hsame.2, rfl⟩, rfl, hsmall⟩
        . simp at h
  . rintro ⟨heval, hthere | ⟨hnone, t, hcopy, hshape, hdtype, rfl⟩, hlength, hsmall⟩
    . refine ⟨(), heval, _, ⟨hsmall, rfl⟩, ?_⟩
      rw [hthere]
      exact if_pos hlength
    . refine ⟨(), heval, _, ⟨hsmall, rfl⟩, ?_⟩
      rw [hnone, hcopy]
      exact if_pos ⟨hshape, hdtype⟩

/--
If the number of bytes does not fit a machine word, taking the bytes of a view breaks off, whatever it
answers.
-/
theorem contiguousData_of_not_fitsWord {v : View} (name : String) (heval : v.eval = .ok ())
    (h : ¬ Tensor.FitsWord v.dtype v.shape)
    (hlength : ∀ bytes, v.Offers bytes → bytes.length < wordBound)
    : v.contiguousData name = .error (.panic .product) := by
  unfold contiguousData
  rw [heval]
  rcases Tensor.product_of_not_fitsWord h with hproduct | ⟨hproduct, habout⟩
  . rw [hproduct]
    rfl
  . have hsmall := (Shape.product_eq_ok_iff.1 hproduct).1
    rw [hproduct]
    simp only [bind, Except.bind, habout]
    split
    . next bytes hthere =>
      have hother : ¬ bytes.length = Shape.numel v.shape * v.dtype.size := by
        intro hsize
        exact h ⟨hsmall, hsize ▸ hlength bytes (.inl hthere)⟩
      rw [if_neg hother]
      rfl
    . next hnone =>
      split
      . rfl
      . next t hcopy =>
        have hother : ¬ (t.shape = v.shape ∧ t.dtype = v.dtype) := by
          rintro ⟨hshape, hdtype⟩
          have hlt := hlength t.data (.inr ⟨hnone, t, hcopy, hshape, hdtype, rfl⟩)
          rw [t.length_data, hshape, hdtype] at hlt
          exact h ⟨hsmall, hlt⟩
        rw [if_neg hother]
        rfl

/--
If the number of bytes fits a machine word, taking the bytes of a view only breaks off where the view
itself does.
-/
theorem panic_of_contiguousData {v : View} {name : String} {cause : Panic}
    (hfits : Tensor.FitsWord v.dtype v.shape)
    (h : v.contiguousData name = .error (.panic cause))
    : v.eval = .error (.panic cause) ∨ v.copy = .error (.panic cause) := by
  have habout (e : Error) : Error.about (Shape.numel v.shape * v.dtype.size) .product e = e :=
    if_pos hfits.size
  have hproduct := Shape.product_eq_ok_iff.2 ⟨hfits.small, rfl⟩
  unfold contiguousData at h
  rw [hproduct] at h
  cases heval : v.eval with
  | error e =>
    rw [heval] at h
    cases h
    exact .inl rfl
  | ok _ =>
    rw [heval] at h
    simp only [bind, Except.bind, habout] at h
    split at h
    . split at h
      . cases h
      . cases h
    . split at h
      . next e hcopy =>
        unfold copyError at h
        split at h
        . cases h
          exact .inr hcopy
        . cases h
      . split at h
        . cases h
        . cases h

/--
The row-major bytes of a view can be had together: they are there and fit the shape, or they are
not there and the copy is of the same form.
-/
def Contiguous (v : View) : Prop :=
  (∃ bytes, v.contiguous? = some bytes ∧ bytes.length = v.numel * v.dtype.size) ∨
    (v.contiguous? = none ∧ ∃ t, v.copy = .ok t ∧ t.shape = v.shape ∧ t.dtype = v.dtype)

theorem exists_contiguousData_iff {v : View} (name : String)
    : (∃ bytes, v.contiguousData name = .ok bytes) ↔
        v.eval = .ok () ∧ v.Contiguous ∧ Shape.Small v.shape := by
  simp only [contiguousData_eq_ok_iff, Offers, Contiguous, exists_and_left]
  apply and_congr_right
  intro _
  constructor
  . rintro ⟨bytes, hthere | ⟨hnone, t, hcopy, hshape, hdtype, _⟩, hlength, hsmall⟩
    . exact ⟨.inl ⟨bytes, hthere, hlength⟩, hsmall⟩
    . exact ⟨.inr ⟨hnone, t, hcopy, hshape, hdtype⟩, hsmall⟩
  . rintro ⟨⟨bytes, hthere, hlength⟩ | ⟨hnone, t, hcopy, hshape, hdtype⟩, hsmall⟩
    . exact ⟨bytes, .inl hthere, hlength, hsmall⟩
    . refine ⟨t.data, .inr ⟨hnone, t, hcopy, hshape, hdtype, rfl⟩, ?_, hsmall⟩
      rw [t.length_data, hshape, hdtype]
      rfl

theorem length_of_contiguousData {v : View} {name : String} {bytes : List UInt8}
    (h : v.contiguousData name = .ok bytes) : bytes.length = v.nbytes :=
  (contiguousData_eq_ok_iff.1 h).2.2.1

theorem small_of_contiguousData {v : View} {name : String} {bytes : List UInt8}
    (h : v.contiguousData name = .ok bytes) : Shape.Small v.shape :=
  (contiguousData_eq_ok_iff.1 h).2.2.2

theorem contiguousData_toView (t : Tensor) (name : String)
    : t.toView.contiguousData name = .ok t.data :=
  contiguousData_eq_ok_iff.2 ⟨rfl, .inl rfl, t.length_data, t.small⟩

end View

end TensorFiles
