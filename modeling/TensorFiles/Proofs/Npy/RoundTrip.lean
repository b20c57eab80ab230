import Mathlib.Data.List.Infix
import TensorFiles.Proofs.Bytes.Utf8
import TensorFiles.Proofs.Disk
import TensorFiles.Proofs.Npy.Header
import TensorFiles.Proofs.Npy.Opening
import TensorFiles.Proofs.Shape
/-!
This module contains the round trip of tensors through `.npy` streams: what is written is read back,
whatever follows it.
-/

namespace TensorFiles

namespace Npy

/--
The header of a text is that text with blanks behind it.
-/
theorem Opening.Framed.exists_header {o : Opening} {cs : List Char}
    (h : o.Framed (Utf8.encodeChars cs))
    : ∃ blanks, (∀ c ∈ blanks, Text.isBlank c = true) ∧
        o.header = Utf8.encodeChars (cs ++ blanks) := by
  obtain ⟨count, _, hheader⟩ := h.header
  refine ⟨List.replicate count ' ' ++ ['\n'], ?_, ?_⟩
  . intro c hc
    rw [List.mem_append, List.mem_singleton, List.mem_replicate] at hc
    rcases hc with ⟨_, rfl⟩ | rfl
    . decide
    . decide
  . have hnewline : Utf8.encodeChars ['\n'] = [0x0A] := by decide
    rw [hheader, Utf8.encodeChars_append, Utf8.encodeChars_append, Utf8.encodeChars_spaces,
      hnewline, List.append_assoc]

/--
The dictionary of a tensor, whose element type has a code.
-/
theorem exists_descr? {dtype : DType} (h : dtype ≠ .bf16) : ∃ descr, descr? dtype = some descr := by
  cases dtype with
  | bf16 => exact absurd rfl h
  | _ => exact ⟨_, rfl⟩

/--
The header that is written for a tensor if the first version of the format has no room for it.
-/
def longHeader (t : Tensor) : List UInt8 :=
  padded 4 (Utf8.encode (Header.dictionary ((descr? t.dtype).getD "") t.shape))

theorem trimmed_dictionary (descr : String) (shape : List Nat)
    : Text.Trimmed (Header.dictionary descr shape).toList ∧
        (Header.dictionary descr shape).toList ≠ [] := by
  have hends : (Header.dictionary descr shape).toList
      = '\x7b' :: ("'descr': '".toList ++ descr.toList ++
          "', 'fortran_order': False, 'shape': ".toList ++ (Header.shapeText shape).toList ++
          [',', ' ']) ++ ['\x7d'] := by
    simp [Header.dictionary]
  rw [hends]
  exact ⟨Text.trimmed_of_ends (by decide) (by decide), by simp⟩

theorem length_header_ofDictionary_lt {dictionary : List UInt8}
    (h : (padded 4 dictionary).length < halfWordBound)
    : (Opening.ofDictionary dictionary).header.length < halfWordBound := by
  unfold Opening.ofDictionary
  split
  . next hshort => exact Nat.lt_of_le_of_lt hshort (by decide)
  . exact h

theorem encode_toView {t : Tensor} {descr : String} (hdescr : descr? t.dtype = some descr)
    : encode t.toView
        = .ok (preamble (Utf8.encode (Header.dictionary descr t.shape)) ++ t.data) := by
  rw [encode_eq_ok_iff]
  rw [Opening.preamble_eq]
  exact ⟨descr, t.data, hdescr, View.contiguousData_toView t _, rfl⟩

theorem exists_descr?_of_encode {t : Tensor} {stream : List UInt8}
    (h : encode t.toView = .ok stream)
    : ∃ descr, descr? t.dtype = some descr ∧
        stream = preamble (Utf8.encode (Header.dictionary descr t.shape)) ++ t.data := by
  obtain ⟨descr, payload, hdescr, hpayload, rfl⟩ := encode_eq_ok_iff.1 h
  rw [View.contiguousData_toView, Except.ok.injEq] at hpayload
  rw [← hpayload, ← Opening.preamble_eq]
  exact ⟨descr, hdescr, rfl⟩

/--
The header is read back from the opening that is written for a view, whatever follows it.
-/
theorem exists_headerText_ofView {v : View} {descr : String} (hdescr : descr? v.dtype = some descr)
    (hdims : ∀ d ∈ v.shape, d < wordBound)
    (hheader : (Opening.ofView v).header.length < halfWordBound) (rest : List UInt8)
    : ∃ text, headerText ((Opening.ofView v).bytes ++ rest) = .ok (text, rest) ∧
        Header.parse text = .ok ⟨v.dtype, v.shape, false⟩ := by
  rw [Opening.ofView_eq hdescr] at hheader ⊢
  have hframed := Opening.framed_ofDictionary hheader
  obtain ⟨blanks, hblanks, hfilled⟩ := hframed.exists_header
  obtain ⟨htrim, hne⟩ := trimmed_dictionary descr v.shape
  have htext := Utf8.decode_encodeChars ((Header.dictionary descr v.shape).toList ++ blanks)
  rw [← hfilled] at htext
  rw [Opening.headerText_bytes hframed.valid htext, htrim.trim_append hne hblanks]
  exact ⟨_, rfl, Header.parse_dictionary hdescr hdims⟩

/--
The header is read back from a stream that has been written, with the bytes of the elements and
whatever follows them behind it.
-/
theorem exists_headerText_of_encode {t : Tensor} {stream : List UInt8}
    (h : encode t.toView = .ok stream) (hdims : ∀ d ∈ t.shape, d < wordBound)
    (hheader : (longHeader t).length < halfWordBound) (rest : List UInt8)
    : ∃ text, headerText (stream ++ rest) = .ok (text, t.data ++ rest) ∧
        Header.parse text = .ok ⟨t.dtype, t.shape, false⟩ := by
  obtain ⟨descr, hdescr, rfl⟩ := exists_descr?_of_encode h
  have hopening := Opening.ofView_eq (v := t.toView) hdescr
  have hshort : (Opening.ofView t.toView).header.length < halfWordBound := by
    unfold longHeader at hheader
    rw [hdescr, Option.getD_some] at hheader
    rw [hopening]
    exact length_header_ofDictionary_lt hheader
  rw [Opening.preamble_eq, List.append_assoc]
  have hread := exists_headerText_ofView (v := t.toView) hdescr hdims hshort (t.data ++ rest)
  rw [hopening] at hread
  exact hread

section

variable {data rest : List UInt8} {text : List Char} {header : Header}

theorem decode_of_overflow (htext : headerText data = .ok (text, rest))
    (hparse : Header.parse text = .ok header)
    (hproduct : Shape.productFrom? header.dtype.size header.shape = none)
    : decode data = .error (.npy (.shapeOverflow header.shape)) := by
  unfold decode
  rw [htext]
  simp only [bind, Except.bind, hparse, hproduct]
  rfl

theorem decode_of_lt (htext : headerText data = .ok (text, rest))
    (hparse : Header.parse text = .ok header) {size : Nat}
    (hproduct : Shape.productFrom? header.dtype.size header.shape = some size)
    (hlt : rest.length < size)
    : decode data
        = .error (.npy (.payloadLength rest.length header.shape header.dtype size)) := by
  unfold decode
  rw [htext]
  simp only [bind, Except.bind, hparse, hproduct, if_pos hlt]
  rfl

/--
The bytes of the elements, and what follows them, behind a header that is read.
-/
theorem decode_of_append {payload : List UInt8}
    (htext : headerText data = .ok (text, payload ++ rest))
    (hparse : Header.parse text = .ok header)
    (hproduct : Shape.productFrom? header.dtype.size header.shape = some payload.length)
    : decode data = Tensor.ofBytes header.dtype header.shape
        (if header.swapped then swapBytes header.dtype payload else payload) := by
  have henough : ¬ (payload ++ rest).length < payload.length := by
    rw [List.length_append]
    omega
  unfold decode
  rw [htext]
  simp only [bind, Except.bind, hparse, hproduct, if_neg henough, List.take_left]

end

/--
A tensor that has been written is read back, whatever follows it.
-/
theorem decode_of_encode {t : Tensor} {stream : List UInt8} (h : encode t.toView = .ok stream)
    (hdims : ∀ d ∈ t.shape, d < wordBound)
    (hsize : ∀ front, front <+: t.shape → t.dtype.size * Shape.numel front < wordBound)
    (hheader : (longHeader t).length < halfWordBound) (rest : List UInt8)
    : decode (stream ++ rest) = .ok t := by
  obtain ⟨text, htext, hparse⟩ := exists_headerText_of_encode h hdims hheader rest
  have hlength : t.dtype.size * Shape.numel t.shape = t.data.length := by
    rw [t.length_data, Nat.mul_comm]
  have hproduct : Shape.productFrom? t.dtype.size t.shape = some t.data.length := by
    rw [Shape.productFrom?_eq hsize, hlength]
  rw [decode_of_append htext hparse hproduct]
  exact t.ofBytes_self

/--
A tensor is written, and read back from what is written, whatever follows it.
-/
theorem exists_encode_decode {t : Tensor} (hdtype : t.dtype ≠ .bf16)
    (hdims : ∀ d ∈ t.shape, d < wordBound)
    (hsize : ∀ front, front <+: t.shape → t.dtype.size * Shape.numel front < wordBound)
    (hheader : (longHeader t).length < halfWordBound)
    : ∃ stream, encode t.toView = .ok stream ∧ ∀ rest, decode (stream ++ rest) = .ok t := by
  obtain ⟨descr, hdescr⟩ := exists_descr? hdtype
  have hencode := encode_toView hdescr
  exact ⟨_, hencode, decode_of_encode hencode hdims hsize hheader⟩

theorem save_eq_ok_iff {d d' : Disk} {path written : String} {v : View}
    : save d path v = (.ok written, d') ↔ FileFormat.npy.normalize path = written ∧
        reserve v = .ok () ∧ ∃ stream, encode v = .ok stream ∧
          d.write (FileFormat.npy.normalize path) stream = .ok d' := by
  unfold save
  cases reserve v with
  | error e => simp [bind, Except.bind]
  | ok reserved =>
    cases encode v with
    | error e => simp [bind, Except.bind]
    | ok stream =>
      cases hwrite : d.write (FileFormat.npy.normalize path) stream with
      | error failure => simp [bind, Except.bind, hwrite]
      | ok d₁ => simp [bind, Except.bind, hwrite]

theorem load_eq_ok_iff {d : Disk} {path : String} {t : Tensor}
    : load d path = .ok t ↔
        ∃ id stream, d.find path = .ok (.file id stream) ∧ decode stream = .ok t := by
  unfold load
  split
  . next hfind => simp [hfind]
  . next hfind => simp [hfind]
  . next id stream hfind => simp [hfind]

theorem sizes_twoRows {front : List Nat} (h : front <+: twoRows.shape)
    : twoRows.dtype.size * Shape.numel front < wordBound := by
  have hsize : ∀ front ∈ [2, 1].inits, 2 * Shape.numel front < wordBound := by decide
  exact hsize front ((List.mem_inits front [2, 1]).2 h)

theorem exists_encode_decode_twoRows
    : ∃ stream, encode twoRows.toView = .ok stream ∧
        ∀ rest, decode (stream ++ rest) = .ok twoRows := by
  apply exists_encode_decode
  . decide
  . decide
  . exact fun _ => sizes_twoRows
  . decide +kernel

end Npy

end TensorFiles
