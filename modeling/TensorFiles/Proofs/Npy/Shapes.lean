import TensorFiles.Proofs.Gguf.Shapes
import TensorFiles.Proofs.Npy.RoundTrip
/-!
This module contains the shapes of the tensors that are read from `.npy` streams, and the room that
a shape takes in a header.
-/

namespace TensorFiles.Npy

namespace Header

open Text

theorem dims_of_parseShape {value : List Char} {shape : List Nat}
    (h : parseShape value = .ok shape) : ∀ d ∈ shape, d < wordBound := by
  unfold parseShape at h
  split at h
  . simp at h
  . rw [mapM_eq_ok_iff] at h
    intro d hd
    obtain ⟨dim, _, hdim⟩ := exists_left_of_forall₂ h hd
    split at hdim
    . next n hn =>
      rw [Except.ok.injEq] at hdim
      rw [← hdim]
      exact Numeral.decode_lt (by decide) hn
    . simp at hdim

theorem exists_parseShape_of_parse {text : List Char} {header : Header}
    (h : parse text = .ok header)
    : ∃ value, entry "shape" text = .ok value ∧ parseShape value = .ok header.shape := by
  unfold parse at h
  rw [bind_eq_ok_iff] at h
  obtain ⟨descr, _, h⟩ := h
  rw [bind_eq_ok_iff] at h
  obtain ⟨⟨dtype, swapped⟩, _, h⟩ := h
  dsimp only at h
  rw [bind_eq_ok_iff] at h
  obtain ⟨order, _, h⟩ := h
  split at h
  . simp at h
  . split at h
    . simp at h
    . simp only [bind_eq_ok_iff, pure_eq_ok_iff] at h
      obtain ⟨value, hvalue, shape, hshape, rfl⟩ := h
      exact ⟨value, hvalue, hshape⟩

/--
A numeral takes at most 20 bytes, and there are two between it and the next one.
-/
theorem length_innerText_le {shape : List Nat} (h : ∀ d ∈ shape, d < wordBound)
    : (innerText shape).length ≤ shape.length * 22 := by
  have hnumeral : ∀ d ∈ shape, (Numeral.encode d).length ≤ 20 := by
    intro d hd
    exact Numeral.length_encode_le (Nat.lt_trans (h d hd) (by decide)) (by decide)
  unfold innerText
  split
  . next d =>
    have := hnumeral d List.mem_cons_self
    rw [List.length_append, List.length_singleton, List.length_singleton]
    omega
  . have hpieces : ∀ p ∈ shape.map Numeral.encode, p.length ≤ 20 := List.forall_mem_map.2 hnumeral
    rw [← List.length_map Numeral.encode]
    exact length_intercalate_le hpieces

theorem le_length_innerText (shape : List Nat)
    : shape.length * 3 ≤ (innerText shape).length + 2 := by
  have hnumeral (d : Nat) : 1 ≤ (Numeral.encode d).length :=
    List.length_pos_of_ne_nil (Numeral.encode_ne_nil d)
  unfold innerText
  split
  . next d =>
    have := hnumeral d
    rw [List.length_append, List.length_singleton, List.length_singleton]
    omega
  . have hpieces : ∀ p ∈ shape.map Numeral.encode, 1 ≤ p.length :=
      List.forall_mem_map.2 fun d _ => hnumeral d
    have hle : (shape.map Numeral.encode).length * (1 + [',', ' '].length)
        ≤ ([',', ' '].intercalate (shape.map Numeral.encode)).length + [',', ' '].length :=
      le_length_intercalate hpieces
    rwa [List.length_map] at hle

theorem isAscii_innerText (shape : List Nat) : (innerText shape).all Utf8.isAscii = true := by
  rw [List.all_eq_true]
  intro c hc
  apply Decidable.byContradiction
  intro hlarge
  have hne (c' : Char) (hsmall : Utf8.isAscii c' = true) : c ≠ c' := by
    rintro rfl
    exact hlarge hsmall
  have hdigit : isDigit c = false := by
    have hnine : ¬ c ≤ '9' :=
      fun hle => hlarge (decide_eq_true (UInt32.le_trans hle (by decide)))
    unfold isDigit
    rw [decide_eq_false hnine, Bool.and_false]
  exact not_mem_innerText hdigit (hne ',' (by decide)) (hne ' ' (by decide)) shape hc

variable (dtype : DType) (shape : List Nat)

theorem isAscii_dictionary
    : (dictionary ((descr? dtype).getD "") shape).toList.all Utf8.isAscii = true := by
  have hdescr : ((descr? dtype).getD "").toList.all Utf8.isAscii = true := by
    cases dtype <;> decide
  rw [toList_dictionary, toList_shapeText]
  simp only [List.all_append, List.all_cons, List.all_nil, isAscii_innerText, hdescr]
  decide

theorem length_dictionary_le {shape : List Nat} (h : ∀ d ∈ shape, d < wordBound)
    : (dictionary ((descr? dtype).getD "") shape).toList.length ≤ shape.length * 22 + 60 := by
  have hdescr : ((descr? dtype).getD "").toList.length ≤ 3 := by
    cases dtype <;> decide
  have hinner := length_innerText_le h
  rw [toList_dictionary, toList_shapeText]
  simp only [List.length_append, List.length_cons, List.length_nil]
  have hfront : "\x7b'descr': '".toList.length = 11 := by decide
  have hmiddle : "', 'fortran_order': False, 'shape': ".toList.length = 36 := by decide
  have hback : ", \x7d".toList.length = 3 := by decide
  omega

end Header

/--
The header takes at most 22 bytes for each dimension, and at most 124 for everything else.
-/
theorem length_longHeader_le {t : Tensor} (h : ∀ d ∈ t.shape, d < wordBound)
    : (longHeader t).length ≤ t.rank * 22 + 124 := by
  have hdictionary := Header.length_dictionary_le t.dtype h
  have hspaces := spaces_lt 4 (Utf8.encode (Header.dictionary ((descr? t.dtype).getD "") t.shape))
  unfold boundary at hspaces
  unfold longHeader
  rw [length_padded]
  unfold Utf8.encode at hspaces ⊢
  rw [Utf8.length_encodeChars (Header.isAscii_dictionary t.dtype t.shape)]
  unfold Tensor.rank
  omega

theorem le_length_longHeader (t : Tensor) : t.rank * 3 ≤ (longHeader t).length := by
  have hinner := Header.le_length_innerText t.shape
  have hlength := Utf8.length_le_encodeChars
    (Header.dictionary ((descr? t.dtype).getD "") t.shape).toList
  have hfront : "\x7b'descr': '".toList.length = 11 := by decide
  rw [Header.toList_dictionary, Header.toList_shapeText] at hlength
  simp only [List.length_append, List.length_cons, hfront] at hlength
  unfold longHeader Utf8.encode Tensor.rank
  rw [length_padded, Header.toList_dictionary, Header.toList_shapeText]
  omega

theorem fits_of_decode {data : List UInt8} {t : Tensor} (h : decode data = .ok t)
    : Shape.Fits t.shape := by
  unfold decode at h
  rw [bind_eq_ok_iff] at h
  obtain ⟨⟨text, rest⟩, _, h⟩ := h
  dsimp only at h
  split at h
  . simp at h
  . next header hheader =>
    split at h
    . simp at h
    . next size hsize =>
      split at h
      . simp at h
      . rw [(Tensor.ofBytes_eq_ok_iff.1 h).2.1]
        obtain ⟨value, _, hvalue⟩ := Header.exists_parseShape_of_parse hheader
        refine ⟨Header.dims_of_parseShape hvalue, ?_⟩
        have hsome : (Shape.productFrom? header.dtype.size header.shape).isSome := by
          rw [hsize]
          rfl
        exact Shape.isSome_productFrom?_of_le (List.forall₂_same.2 fun d _ => Nat.le_refl d)
          header.dtype.size_pos hsome

end TensorFiles.Npy
