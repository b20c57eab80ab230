import TensorFiles.Proofs.Npy.RoundTrip
/-!
This module contains what becomes of a stream whose end is cut off. Each part of it is missed where it
is read, so that nothing is taken for a shorter header or a smaller tensor.
-/

namespace TensorFiles.Npy

/--
The beginning of two parts ends in the first of them, or has all of it in front.
-/
theorem cases_of_isPrefix_append {cut front back : List UInt8} (h : cut <+: front ++ back)
    : cut.length < front.length ∨ ∃ rest, cut = front ++ rest ∧ rest <+: back := by
  cases Nat.lt_or_ge cut.length front.length with
  | inl hlt => exact .inl hlt
  | inr hge =>
    obtain ⟨rest, rfl⟩ := List.prefix_of_prefix_length_le (List.prefix_append front back) h hge
    exact .inr ⟨rest, rfl, (List.prefix_append_right_inj front).1 h⟩

namespace Opening

variable {o : Opening} {cut : List UInt8}

/--
The part of an opening in which its first `n` bytes end.
-/
def partAt (o : Opening) (n : Nat) : Part :=
  if n < 6 then .magic
  else if n < 8 then .version
  else if n < 8 + o.field.length then .headerLength
  else .header

theorem headerText_of_magic (h : cut.length < magic.length)
    : headerText cut = .error (.npy (.truncated .magic)) := by
  unfold headerText
  rw [take_of_lt h]
  rfl

theorem headerText_of_version {rest : List UInt8} (h : rest.length < 2)
    : headerText (magic ++ rest) = .error (.npy (.truncated .version)) := by
  unfold headerText
  rw [take_append .magic magic rest]
  simp only [bind, Except.bind, ne_eq, not_true_eq_false, if_false, take_of_lt h]

theorem headerText_of_field (hversion : IsVersion o.major o.field.length) {rest : List UInt8}
    (h : rest.length < o.field.length)
    : headerText (magic ++ ([o.major, o.minor] ++ rest))
        = .error (.npy (.truncated .headerLength)) := by
  unfold headerText
  rw [take_append .magic magic]
  simp only [take_version, bind, Except.bind, ne_eq, not_true_eq_false, if_false,
    List.getD_cons_zero, hversion.toNat, take_of_lt h]

theorem headerText_of_header (hvalid : o.Valid) {rest : List UInt8}
    (h : rest.length < o.header.length)
    : headerText (magic ++ ([o.major, o.minor] ++ (o.field ++ rest)))
        = .error (.npy (.truncated .header)) := by
  rw [← hvalid.field] at h
  exact headerText_append_of_error hvalid.version (take_of_lt h)

/--
An opening that is cut off is missed in the part where it ends.
-/
theorem headerText_of_isPrefix (hvalid : o.Valid) (hcut : cut <+: o.bytes)
    (hlt : cut.length < o.bytes.length)
    : headerText cut = .error (.npy (.truncated (o.partAt cut.length))) := by
  have hmagic : magic.length = 6 := rfl
  have hfront : ([o.major, o.minor] : List UInt8).length = 2 := rfl
  rw [length_bytes] at hlt
  unfold bytes at hcut
  rw [List.append_assoc, List.append_assoc] at hcut
  unfold partAt
  -- One part after the other is either the one that ends early or stands in front of the rest.
  rcases cases_of_isPrefix_append hcut with hshort | ⟨rest, rfl, hrest⟩
  . rw [headerText_of_magic hshort, if_pos (hmagic ▸ hshort)]
  rw [List.length_append, hmagic] at hlt ⊢
  rw [if_neg (by omega)]
  rcases cases_of_isPrefix_append hrest with hshort | ⟨rest', rfl, hrest'⟩
  . rw [headerText_of_version hshort, if_pos (by omega)]
  rw [List.length_append, hfront] at hlt ⊢
  rw [if_neg (by omega)]
  rcases cases_of_isPrefix_append hrest' with hshort | ⟨rest'', rfl, -⟩
  . rw [headerText_of_field hvalid.version hshort, if_pos (by omega)]
  rw [List.length_append] at hlt ⊢
  rw [headerText_of_header hvalid (by omega), if_neg (by omega)]

end Opening

theorem decode_of_headerText {data : List UInt8} {e : Error} (h : headerText data = .error e)
    : decode data = .error e := by
  unfold decode
  rw [h]
  rfl

section

variable {v : View}

/--
What is wrong with the first `n` bytes of the stream of a view: they end in a part of the opening, or
else in the bytes of the tensor, unless it is too large for the reader.
-/
def missing (v : View) (n : Nat) : Fault :=
  if n < (Opening.ofView v).bytes.length then
    .truncated ((Opening.ofView v).partAt n)
  else if (Shape.productFrom? v.dtype.size v.shape).isSome then
    .payloadLength (n - (Opening.ofView v).bytes.length) v.shape v.dtype v.nbytes
  else
    .shapeOverflow v.shape

theorem decode_of_isPrefix_bytes {cut : List UInt8} (hvalid : (Opening.ofView v).Valid)
    (hcut : cut <+: (Opening.ofView v).bytes) (hlt : cut.length < (Opening.ofView v).bytes.length)
    : decode cut = .error (.malformed (.npy (missing v cut.length))) := by
  unfold missing
  rw [if_pos hlt]
  exact decode_of_headerText (Opening.headerText_of_isPrefix hvalid hcut hlt)

/--
Behind the opening of a view, fewer bytes than the view has are refused.
-/
theorem decode_ofView_of_short {descr : String} (hdescr : descr? v.dtype = some descr)
    (hdims : ∀ d ∈ v.shape, d < wordBound)
    (hheader : (Opening.ofView v).header.length < halfWordBound) {rest : List UInt8}
    (hshort : rest.length < v.nbytes)
    : decode ((Opening.ofView v).bytes ++ rest)
        = .error (.malformed (.npy (missing v ((Opening.ofView v).bytes ++ rest).length))) := by
  obtain ⟨text, htext, hparse⟩ := exists_headerText_ofView hdescr hdims hheader rest
  have hopened : ¬ ((Opening.ofView v).bytes ++ rest).length < (Opening.ofView v).bytes.length := by
    rw [List.length_append]
    omega
  unfold missing
  rw [if_neg hopened, List.length_append, Nat.add_sub_cancel_left]
  cases hproduct : Shape.productFrom? v.dtype.size v.shape with
  | none => exact decode_of_overflow htext hparse hproduct
  | some size =>
    have hsize : size = v.nbytes := by
      rw [Shape.eq_of_productFrom? hproduct, Nat.mul_comm]
      rfl
    subst hsize
    exact decode_of_lt htext hparse hproduct hshort

/--
A stream that has been written and is cut off is refused, wherever the cut is.
-/
theorem decode_of_isPrefix {stream cut : List UInt8} (h : encode v = .ok stream)
    (hdims : ∀ d ∈ v.shape, d < wordBound)
    (hheader : (Opening.ofView v).header.length < halfWordBound) (hcut : cut <+: stream)
    (hne : cut ≠ stream) : decode cut = .error (.malformed (.npy (missing v cut.length))) := by
  obtain ⟨descr, payload, hdescr, hpayload, rfl⟩ := encode_eq_ok_iff.1 h
  have hopening := Opening.ofView_eq hdescr
  rw [← hopening] at hcut hne
  -- Either the opening is not whole, or it is read and bytes of the tensor are missing.
  rcases cases_of_isPrefix_append hcut with hlt | ⟨rest, rfl, hrest⟩
  . have hvalid : (Opening.ofView v).Valid := by
      rw [hopening] at hheader ⊢
      exact (Opening.framed_ofDictionary hheader).valid
    have hopened : cut <+: (Opening.ofView v).bytes :=
      List.prefix_of_prefix_length_le hcut (List.prefix_append _ _) (Nat.le_of_lt hlt)
    exact decode_of_isPrefix_bytes hvalid hopened hlt
  . have hshort : rest.length < v.nbytes := by
      rw [← View.length_of_contiguousData hpayload]
      apply Nat.lt_of_le_of_ne hrest.length_le
      intro hlength
      exact hne (by rw [hrest.eq_of_length hlength])
    exact decode_ofView_of_short hdescr hdims hheader hshort

end

/--
The last byte of the second row is missing.
-/
theorem decode_twoRows_of_isPrefix
    : decode ((Opening.ofView twoRows.toView).bytes ++ [1, 2, 3])
        = .error (.malformed (.npy (.payloadLength 3 [2, 1] .u16 4))) := by
  have hheader : (Opening.ofView twoRows.toView).header.length < halfWordBound := by
    decide +kernel
  have hcut : (Opening.ofView twoRows.toView).bytes ++ [1, 2, 3]
      <+: (Opening.ofView twoRows.toView).bytes ++ [1, 2, 3, 4] :=
    (List.prefix_append_right_inj _).2 ⟨[4], rfl⟩
  have hne : (Opening.ofView twoRows.toView).bytes ++ [1, 2, 3]
      ≠ (Opening.ofView twoRows.toView).bytes ++ [1, 2, 3, 4] :=
    fun heq => by simp at heq
  have hopened : ¬ ((Opening.ofView twoRows.toView).bytes ++ [1, 2, 3]).length
      < (Opening.ofView twoRows.toView).bytes.length := by simp
  have hdecode := decode_of_isPrefix encode_twoRows (by decide) hheader hcut hne
  unfold missing at hdecode
  rw [if_neg hopened, List.length_append, Nat.add_sub_cancel_left] at hdecode
  exact hdecode

end TensorFiles.Npy
