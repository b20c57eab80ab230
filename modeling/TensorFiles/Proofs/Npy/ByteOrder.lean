import TensorFiles.Proofs.Bytes.Blocks
import TensorFiles.Proofs.Npy.RoundTrip
/-!
This module contains the reading of elements whose bytes are most significant first. They are the same
elements as those with their bytes the other way around.
-/

namespace TensorFiles.Npy

/--
The bytes of an element, most significant first. A complex number has two halves, each of which is a
number of its own.
-/
def bigEndian (dtype : DType) (element : List UInt8) : List UInt8 :=
  if dtype = .c64 then
    (element.take 4).reverse ++ (element.drop 4).reverse
  else
    element.reverse

/--
The bytes of a tensor with each element most significant first.
-/
def bigEndianData (t : Tensor) : List UInt8 :=
  (blocks t.dtype.size t.numel t.data).flatMap (bigEndian t.dtype)

section Swapping

variable {dtype : DType} {data : List UInt8}

theorem swapWidth_pos (dtype : DType) : 0 < swapWidth dtype := by
  cases dtype <;> decide

theorem swapWidth_dvd_size (dtype : DType) : swapWidth dtype ∣ dtype.size := by
  cases dtype <;> decide

/--
The halves of complex numbers are the pieces of half their length.
-/
theorem flatMap_bigEndian_c64 (count : Nat) (data : List UInt8)
    : (blocks 8 count data).flatMap (bigEndian .c64)
        = ((blocks 4 (count * 2) data).map List.reverse).flatten := by
  induction count generalizing data with
  | zero => rfl
  | succ count ih =>
    have helement : bigEndian .c64 (data.take 8)
        = (data.take 4).reverse ++ ((data.drop 4).take 4).reverse := by
      rw [bigEndian, if_pos rfl, List.take_take, List.drop_take]
      rfl
    rw [Nat.succ_mul, blocks, blocks, blocks, List.flatMap_cons, helement, ih, List.drop_drop,
      List.map_cons, List.map_cons, List.flatten_cons, List.flatten_cons, List.append_assoc]

/--
To reverse the pieces of the bytes of elements is to reverse each element.
-/
theorem swapBytes_eq_flatMap {count : Nat} (h : data.length = count * dtype.size)
    : swapBytes dtype data = (blocks dtype.size count data).flatMap (bigEndian dtype) := by
  unfold swapBytes
  -- The pieces are the elements themselves, except for complex numbers.
  cases Decidable.em (dtype = .c64) with
  | inl hcomplex =>
    subst hcomplex
    have hcount : data.length / swapWidth .c64 = count * 2 := by
      have hlength : data.length = count * 8 := h
      have hwidth : swapWidth .c64 = 4 := rfl
      rw [hlength, hwidth]
      omega
    rw [hcount]
    exact (flatMap_bigEndian_c64 count data).symm
  | inr hsimple =>
    have hwidth : swapWidth dtype = dtype.size := if_neg hsimple
    have hreverse : bigEndian dtype = List.reverse := by
      funext element
      exact if_neg hsimple
    rw [hwidth, hreverse, h, Nat.mul_div_cancel count dtype.size_pos, List.flatMap_def]

example : swapBytes .c64 [1, 2, 3, 4, 5, 6, 7, 8] = [4, 3, 2, 1, 8, 7, 6, 5] := by decide

theorem swapBytes_flatten {pieces : List (List UInt8)}
    (h : ∀ p ∈ pieces, p.length = swapWidth dtype)
    : swapBytes dtype pieces.flatten = (pieces.map List.reverse).flatten := by
  have hlength : pieces.flatten.length = pieces.length * swapWidth dtype := by
    rw [← List.flatMap_id']
    exact length_flatMap_of_forall h
  unfold swapBytes
  rw [hlength, Nat.mul_div_cancel _ (swapWidth_pos dtype), blocks_flatten h]

/--
Bytes that are swapped twice are as they were.
-/
theorem swapBytes_swapBytes (h : swapWidth dtype ∣ data.length)
    : swapBytes dtype (swapBytes dtype data) = data := by
  obtain ⟨count, hcount⟩ := h
  rw [Nat.mul_comm] at hcount
  have hpieces : ∀ p ∈ blocks (swapWidth dtype) count data, p.length = swapWidth dtype :=
    length_of_mem_blocks (Nat.le_of_eq hcount.symm)
  have hdata : (blocks (swapWidth dtype) count data).flatten = data :=
    flatten_blocks_of_length_eq hcount
  have hreversed : ∀ p ∈ (blocks (swapWidth dtype) count data).map List.reverse,
      p.length = swapWidth dtype := by
    intro p hp
    obtain ⟨q, hq, rfl⟩ := List.mem_map.1 hp
    rw [List.length_reverse, hpieces q hq]
  have hback : ((blocks (swapWidth dtype) count data).map List.reverse).map List.reverse
      = blocks (swapWidth dtype) count data := by
    simp
  calc
    swapBytes dtype (swapBytes dtype data)
      = swapBytes dtype ((blocks (swapWidth dtype) count data).map List.reverse).flatten := by
        rw [← swapBytes_flatten hpieces, hdata]
    _ = (blocks (swapWidth dtype) count data).flatten := by
        rw [swapBytes_flatten hreversed, hback]
    _ = data := hdata

theorem swapBytes_of_size_eq_one (h : dtype.size = 1) : swapBytes dtype data = data := by
  have hwidth : swapWidth dtype = 1 := by
    have hdvd := swapWidth_dvd_size dtype
    rw [h] at hdvd
    exact Nat.dvd_one.1 hdvd
  have hreverse : (blocks 1 data.length data).map List.reverse = blocks 1 data.length data := by
    rw [List.map_congr_left, List.map_id]
    intro p hp
    have hlength := length_of_mem_blocks (by rw [Nat.mul_one]) p hp
    obtain ⟨b, rfl⟩ := List.length_eq_one_iff.1 hlength
    rfl
  unfold swapBytes
  rw [hwidth, Nat.div_one, hreverse, flatten_blocks_of_length_eq (Nat.mul_one _).symm]

variable (t : Tensor)

theorem bigEndianData_eq : bigEndianData t = swapBytes t.dtype t.data :=
  (swapBytes_eq_flatMap t.length_data).symm

theorem swapBytes_bigEndianData : swapBytes t.dtype (bigEndianData t) = t.data := by
  rw [bigEndianData_eq]
  apply swapBytes_swapBytes
  rw [t.length_data]
  exact Nat.dvd_mul_left_of_dvd (swapWidth_dvd_size t.dtype) _

theorem length_bigEndianData : (bigEndianData t).length = t.data.length := by
  have helement : ∀ element, (bigEndian t.dtype element).length = element.length := by
    intro element
    unfold bigEndian
    split
    . rw [List.length_append, List.length_reverse, List.length_reverse, ← List.length_append,
        List.take_append_drop]
    . exact List.length_reverse
  have hpieces : ∀ p ∈ blocks t.dtype.size t.numel t.data, p.length = t.dtype.size :=
    length_of_mem_blocks (Nat.le_of_eq t.length_data.symm)
  unfold bigEndianData
  rw [length_flatMap_of_forall fun p hp => (helement p).trans (hpieces p hp), length_blocks,
    t.length_data]
  rfl

end Swapping

/--
An opening whose header, however it is spelled, is that of a tensor.
-/
structure Opening.Announces (o : Opening) (s : Spelling) (t : Tensor) : Prop where
  valid : o.Valid
  header : o.header = Utf8.encodeChars s.text
  dtype : s.dtype = t.dtype
  shape : s.shape = t.shape

/--
The opening of the second version with a header as it is spelled.
-/
def Opening.spelled (s : Spelling) : Opening where
  major := 2
  minor := 0
  field := LittleEndian.encode 4 (Utf8.encodeChars s.text).length
  header := Utf8.encodeChars s.text

theorem Opening.announces_spelled {s : Spelling} {t : Tensor} (hdtype : s.dtype = t.dtype)
    (hshape : s.shape = t.shape) (h : (Utf8.encodeChars s.text).length < halfWordBound)
    : (Opening.spelled s).Announces s t := by
  refine ⟨⟨?_, LittleEndian.decode_encode_of_lt h⟩, rfl, hdtype, hshape⟩
  exact .inr ⟨.inl rfl, LittleEndian.length_encode _ _⟩

/--
Behind such an opening the tensor is read from its bytes in the order that the header tells, unless it
is too large for the reader.
-/
theorem Opening.Announces.decode_eq {o : Opening} {s : Spelling} {t : Tensor}
    (h : o.Announces s t) {payload : List UInt8} (hlength : payload.length = t.data.length)
    (hpayload : (if s.header.swapped then swapBytes t.dtype payload else payload) = t.data)
    (rest : List UInt8)
    : decode (o.bytes ++ (payload ++ rest))
        = if (Shape.productFrom? t.dtype.size t.shape).isSome then .ok t
          else .error (.npy (.shapeOverflow t.shape)) := by
  have hdecoded : Utf8.decode o.header = .ok s.text := by
    rw [h.header, Utf8.decode_encodeChars]
  have htext := Opening.headerText_bytes h.valid hdecoded (payload ++ rest)
  rw [s.trim_text] at htext
  have hparse := s.bare.parse_text
  have hdtype : s.bare.header.dtype = t.dtype := h.dtype
  have hshape : s.bare.header.shape = t.shape := h.shape
  cases hproduct : Shape.productFrom? t.dtype.size t.shape with
  | none =>
    rw [← hdtype, ← hshape] at hproduct
    rw [decode_of_overflow htext hparse hproduct, hshape]
    rfl
  | some size =>
    have hsize : size = payload.length := by
      rw [Shape.eq_of_productFrom? hproduct, hlength, t.length_data, Nat.mul_comm]
    rw [← hdtype, ← hshape, hsize] at hproduct
    rw [decode_of_append htext hparse hproduct, hdtype, hshape]
    exact (congrArg (Tensor.ofBytes t.dtype t.shape) hpayload).trans t.ofBytes_self

/--
The order of the bytes does not change what is read: the same tensor comes from a stream with its
elements most significant first, and from one with its bytes as they are and any other sign.
-/
theorem decode_bigEndianData {t : Tensor} {big other : Spelling} {o o' : Opening}
    (h : o.Announces big t) (h' : o'.Announces other t) (hbig : big.order = .big)
    (hother : other.order ≠ .big) (rest rest' : List UInt8)
    : decode (o.bytes ++ (bigEndianData t ++ rest)) = decode (o'.bytes ++ (t.data ++ rest')) ∧
        ((∀ front, front <+: t.shape → t.dtype.size * Shape.numel front < wordBound) →
          decode (o'.bytes ++ (t.data ++ rest')) = .ok t) := by
  have hswapped : big.header.swapped = decide (1 < t.dtype.size) := by
    unfold Spelling.header
    simp only [hbig, h.dtype, true_and]
  have hkept : other.header.swapped = false := by
    unfold Spelling.header
    simp [hother]
  -- Single bytes are not swapped, but to reverse them changes nothing.
  have hpayload : (if big.header.swapped then swapBytes t.dtype (bigEndianData t)
      else bigEndianData t) = t.data := by
    rw [hswapped, swapBytes_bigEndianData]
    cases Nat.lt_or_ge 1 t.dtype.size with
    | inl hlt => rw [decide_eq_true hlt, if_pos rfl]
    | inr hge =>
      have hone : t.dtype.size = 1 := Nat.le_antisymm hge t.dtype.size_pos
      rw [bigEndianData_eq, swapBytes_of_size_eq_one hone, ite_self]
  have hread := h'.decode_eq rfl (by rw [hkept]; rfl) rest'
  rw [h.decode_eq (length_bigEndianData t) hpayload rest, hread]
  refine ⟨rfl, ?_⟩
  intro hsizes
  rw [Shape.productFrom?_eq hsizes]
  rfl

theorem decode_bigEndianData_twoRows
    : decode ((Opening.spelled roomy).bytes ++ [2, 1, 4, 3]) = .ok twoRows ∧
        decode ((Opening.spelled { roomy with order := .little }).bytes ++ [1, 2, 3, 4])
          = .ok twoRows := by
  have hbig : (Opening.spelled roomy).Announces roomy twoRows :=
    Opening.announces_spelled rfl rfl (by decide +kernel)
  have hlittle : (Opening.spelled { roomy with order := .little }).Announces
      { roomy with order := .little } twoRows :=
    Opening.announces_spelled rfl rfl (by decide +kernel)
  obtain ⟨hsame, hread⟩ := decode_bigEndianData hbig hlittle rfl (by decide) [] []
  have hok := hread fun _ => sizes_twoRows
  exact ⟨hsame.trans hok, hok⟩

end TensorFiles.Npy
