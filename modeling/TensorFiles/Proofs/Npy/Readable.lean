import TensorFiles.Proofs.Npy.Shapes
/-!
This module contains which tensors are read back from the streams they are written to. The reader
multiplies the size of an element with one dimension after the other, so a tensor without elements can
be too large for it. A header whose length does not fit its field is cut before the end of the shape.
-/

namespace TensorFiles

namespace Npy

namespace Header

open Text

theorem isPrefix_of_untilEnd? {depth : Nat} {text value : List Char}
    (h : untilEnd? depth text = some value) : value <+: text := by
  induction text generalizing depth value with
  | nil => simp [untilEnd?] at h
  | cons c text ih =>
    unfold untilEnd? at h
    split at h
    . rw [Option.some.injEq] at h
      rw [← h]
      exact List.nil_prefix
    . rw [Option.map_eq_some_iff] at h
      obtain ⟨value', hvalue, rfl⟩ := h
      rw [List.prefix_cons_inj]
      exact ih hvalue

/--
The value of a key is a piece of the header.
-/
theorem isInfix_of_entry {key : String} {header value : List Char}
    (h : entry key header = .ok value) : value <:+: header := by
  unfold entry at h
  split at h
  . simp at h
  . next behind hbehind =>
    split at h
    . next rest hrest =>
      split at h
      . next text htext =>
        rw [Except.ok.injEq] at h
        have hcolon : rest <:+ trimStart behind := hrest ▸ List.suffix_cons ':' rest
        have hstart : trimStart rest <:+ header :=
          (List.dropWhile_suffix _).trans
            (hcolon.trans ((List.dropWhile_suffix _).trans (isSuffix_of_after? hbehind)))
        rw [← h]
        exact (isInfix_trim text).trans
          ((isPrefix_of_untilEnd? htext).isInfix.trans hstart.isInfix)
      . simp at h
    . simp at h

theorem mem_of_parseShape {value : List Char} {shape : List Nat}
    (h : parseShape value = .ok shape) : ')' ∈ value := by
  unfold parseShape at h
  split at h
  . simp at h
  . next inner hinner =>
    obtain ⟨opened, hopened, hclosed⟩ := Option.bind_eq_some_iff.1 hinner
    rw [dropStart?_eq_some_iff] at hopened
    rw [dropEnd?_eq_some_iff] at hclosed
    rw [hopened, hclosed]
    simp

/--
A header that is read has the end of a shape in it.
-/
theorem mem_of_parse {text : List Char} {header : Header} (h : parse text = .ok header)
    : ')' ∈ text := by
  obtain ⟨value, hvalue, hshape⟩ := exists_parseShape_of_parse h
  exact (isInfix_of_entry hvalue).subset (mem_of_parseShape hshape)

/--
A dictionary up to the end of its shape.
-/
def unclosed (descr : String) (shape : List Nat) : List Char :=
  "\x7b'descr': '".toList ++ descr.toList ++ "', 'fortran_order': False, 'shape': ".toList ++
    '(' :: innerText shape

theorem toList_dictionary_eq (descr : String) (shape : List Nat)
    : (dictionary descr shape).toList = unclosed descr shape ++ ')' :: ", \x7d".toList := by
  rw [toList_dictionary, toList_shapeText]
  unfold unclosed
  simp only [List.append_assoc, List.cons_append, List.nil_append]

theorem not_mem_unclosed {dtype : DType} {descr : String} (h : descr? dtype = some descr)
    (shape : List Nat) : ')' ∉ unclosed descr shape := by
  have hinner : ')' ∉ innerText shape :=
    not_mem_innerText (by decide) (by decide) (by decide) shape
  have hdescr : ')' ∉ descr.toList := by
    cases dtype <;> cases h <;> decide
  unfold unclosed
  simp [hinner, hdescr]

end Header

variable {t : Tensor} {stream : List UInt8}

/--
What a tensor must be like to be read back: the length of its header fits the length field, and the
size of an element times any number of leading dimensions fits a machine word.
-/
structure Readable (t : Tensor) : Prop where
  header : (longHeader t).length < halfWordBound
  sizes : ∀ front, front <+: t.shape → t.dtype.size * Shape.numel front < wordBound

theorem Readable.of_numel_ne_zero (hne : t.numel ≠ 0) (hbytes : t.data.length < wordBound)
    (hheader : (longHeader t).length < halfWordBound) : Readable t := by
  refine ⟨hheader, ?_⟩
  intro front hfront
  have hle := Shape.mul_numel_le_of_isPrefix hne hfront t.dtype.size
  rw [Nat.mul_comm _ (Shape.numel t.shape), ← t.length_data] at hle
  exact Nat.lt_of_le_of_lt hle hbytes

/--
Sizes that do not fit a machine word are refused, whether or not there are elements.
-/
theorem decode_of_encode_of_overflow (h : encode t.toView = .ok stream)
    (hdims : ∀ d ∈ t.shape, d < wordBound)
    (hheader : (longHeader t).length < halfWordBound)
    (hsizes : ¬ ∀ front, front <+: t.shape → t.dtype.size * Shape.numel front < wordBound)
    : decode stream = .error (.npy (.shapeOverflow t.shape)) := by
  obtain ⟨text, htext, hparse⟩ := exists_headerText_of_encode h hdims hheader []
  rw [List.append_nil] at htext
  have hword : t.dtype.size < wordBound := by
    cases t.dtype <;> decide
  have hproduct : Shape.productFrom? t.dtype.size t.shape = none := by
    rw [← Option.not_isSome_iff_eq_none]
    exact fun hsome => hsizes fun front hfront =>
      Shape.lt_of_isSome_productFrom? hword hsome hfront
  exact decode_of_overflow htext hparse hproduct

/--
Of a header that its length field is too small for only the beginning is read.
-/
theorem exists_headerText_of_cut {major : UInt8} {width count : Nat}
    (hversion : IsVersion major width) {cs : List Char} (hascii : cs.all Utf8.isAscii = true)
    (hcount : (padded width (Utf8.encodeChars cs)).length % LittleEndian.bound width = count)
    (hcut : count ≤ cs.length) (rest : List UInt8)
    : ∃ behind, headerText ((Opening.filled major width (Utf8.encodeChars cs)).bytes ++ rest)
        = .ok (Text.trim (cs.take count), behind) := by
  have hlength := Utf8.length_encodeChars hascii
  have hfield : LittleEndian.decode
      (Opening.filled major width (Utf8.encodeChars cs)).field = count := by
    rw [← hcount]
    exact LittleEndian.decode_encode _ _
  have hread : IsVersion (Opening.filled major width (Utf8.encodeChars cs)).major
      (Opening.filled major width (Utf8.encodeChars cs)).field.length := by
    unfold Opening.filled
    rw [LittleEndian.length_encode]
    exact hversion
  have htake : (padded width (Utf8.encodeChars cs) ++ rest).take count
      = Utf8.encodeChars (cs.take count) := by
    unfold padded
    rw [List.append_assoc, List.append_assoc, List.take_append_of_le_length (by omega),
      Utf8.take_encodeChars hascii hcut]
  have henough : count ≤ (padded width (Utf8.encodeChars cs) ++ rest).length := by
    rw [List.length_append, length_padded]
    omega
  have hpart : take .header
      (LittleEndian.decode (Opening.filled major width (Utf8.encodeChars cs)).field)
      (padded width (Utf8.encodeChars cs) ++ rest)
        = .ok (Utf8.encodeChars (cs.take count),
            (padded width (Utf8.encodeChars cs) ++ rest).drop count) := by
    unfold take
    rw [hfield, if_pos henough, htake]
  unfold Opening.bytes
  rw [List.append_assoc, List.append_assoc, List.append_assoc]
  exact ⟨_, Opening.headerText_append_of_ok hread hpart (Utf8.decode_encodeChars _)⟩

theorem ofDictionary_of_long {dictionary : List UInt8}
    (h : halfWordBound ≤ (padded 4 dictionary).length)
    : Opening.ofDictionary dictionary = Opening.filled 2 4 dictionary := by
  have hspaces := spaces_lt 4 dictionary
  have hshort : ¬ (padded 2 dictionary).length ≤ maxShortHeader := by
    rw [length_padded] at h ⊢
    unfold boundary at hspaces
    unfold halfWordBound at h
    unfold maxShortHeader
    omega
  exact if_neg hshort

/--
What is cut off from a header that is too long includes the end of the shape.
-/
theorem exists_headerText_of_long {descr : String} (hdescr : descr? t.dtype = some descr)
    (hlong : halfWordBound ≤ (longHeader t).length) (rest : List UInt8)
    : ∃ count behind, headerText
        (preamble (Utf8.encode (Header.dictionary descr t.shape)) ++ rest)
          = .ok (Text.trim ((Header.unclosed descr t.shape).take count), behind) := by
  have hascii := Header.isAscii_dictionary t.dtype t.shape
  unfold longHeader at hlong
  rw [hdescr, Option.getD_some] at hlong hascii
  unfold Utf8.encode at hlong ⊢
  rw [Header.toList_dictionary_eq] at hlong hascii ⊢
  have hback : (')' :: ", \x7d".toList).length = 4 := by decide
  have hlength := Utf8.length_encodeChars hascii
  rw [List.length_append, hback] at hlength
  have hspaces := spaces_lt 4 (Utf8.encodeChars
    (Header.unclosed descr t.shape ++ ')' :: ", \x7d".toList))
  have hcut : (padded 4 (Utf8.encodeChars
      (Header.unclosed descr t.shape ++ ')' :: ", \x7d".toList))).length
        % LittleEndian.bound 4 ≤ (Header.unclosed descr t.shape).length := by
    rw [length_padded] at hlong ⊢
    rw [LittleEndian.bound_four]
    unfold boundary at hspaces
    unfold halfWordBound at hlong ⊢
    omega
  obtain ⟨behind, htext⟩ := exists_headerText_of_cut (.inr ⟨.inl rfl, rfl⟩) hascii rfl
    (Nat.le_trans hcut (by rw [List.length_append]; exact Nat.le_add_right _ _)) rest
  rw [List.take_append_of_le_length hcut] at htext
  rw [Opening.preamble_eq, ofDictionary_of_long hlong]
  exact ⟨_, behind, htext⟩

theorem decode_ne_ok_of_long (h : encode t.toView = .ok stream)
    (hlong : halfWordBound ≤ (longHeader t).length) (t' : Tensor) : decode stream ≠ .ok t' := by
  obtain ⟨descr, hdescr, rfl⟩ := exists_descr?_of_encode h
  obtain ⟨count, rest, htext⟩ := exists_headerText_of_long hdescr hlong t.data
  intro hdecode
  unfold decode at hdecode
  rw [htext, bind_eq_ok_iff] at hdecode
  obtain ⟨_, hread, hdecode⟩ := hdecode
  rw [Except.ok.injEq] at hread
  subst hread
  dsimp only at hdecode
  split at hdecode
  . simp at hdecode
  . next header hparse =>
    have hmem := (Text.isInfix_trim _).subset (Header.mem_of_parse hparse)
    exact Header.not_mem_unclosed hdescr t.shape (List.mem_of_mem_take hmem)

theorem Readable.decode_eq (hreadable : Readable t) (h : encode t.toView = .ok stream)
    (hdims : ∀ d ∈ t.shape, d < wordBound) : decode stream = .ok t := by
  have hdecode := decode_of_encode h hdims hreadable.sizes hreadable.header []
  rw [List.append_nil] at hdecode
  exact hdecode

theorem readable_of_decode {t' : Tensor} (h : encode t.toView = .ok stream)
    (hdims : ∀ d ∈ t.shape, d < wordBound) (hdecode : decode stream = .ok t') : Readable t := by
  have hheader : (longHeader t).length < halfWordBound := by
    apply Decidable.byContradiction
    intro hlong
    exact decode_ne_ok_of_long h (Nat.not_lt.1 hlong) t' hdecode
  refine ⟨hheader, ?_⟩
  apply Classical.byContradiction
  intro hsizes
  rw [decode_of_encode_of_overflow h hdims hheader hsizes] at hdecode
  simp at hdecode

/--
Which tensors are read back after they have been written. Those with elements are, if the length of
the header fits its field; the others may have sizes on the way to zero that are refused.
-/
theorem readable_iff_of_encode (h : encode t.toView = .ok stream)
    (hdims : ∀ d ∈ t.shape, d < wordBound) (hbytes : t.data.length < wordBound)
    : ((∃ t', decode stream = .ok t') ↔ Readable t) ∧
      (Readable t → decode stream = .ok t) ∧
      ((longHeader t).length < halfWordBound →
        (t.numel ≠ 0 → Readable t) ∧
        (¬ Readable t → decode stream = .error (.npy (.shapeOverflow t.shape)))) := by
  refine ⟨⟨?_, ?_⟩, ?_, ?_⟩
  . rintro ⟨t', hdecode⟩
    exact readable_of_decode h hdims hdecode
  . exact fun hreadable => ⟨t, hreadable.decode_eq h hdims⟩
  . exact fun hreadable => hreadable.decode_eq h hdims
  . intro hheader
    refine ⟨fun hne => .of_numel_ne_zero hne hbytes hheader, ?_⟩
    intro hnot
    exact decode_of_encode_of_overflow h hdims hheader (fun hsizes => hnot ⟨hheader, hsizes⟩)

/--
A tensor of 2^62 rows without elements.
-/
def emptyRows : Tensor := ⟨.f32, [4611686018427387904, 0], [], rfl⟩

theorem readable_iff_of_encode_emptyRows
    : Shape.Fits emptyRows.shape ∧ ∃ stream, encode emptyRows.toView = .ok stream ∧
        decode stream = .error (.npy (.shapeOverflow [4611686018427387904, 0])) := by
  obtain ⟨stream, hstream⟩ : ∃ stream, encode emptyRows.toView = .ok stream :=
    ⟨_, encode_toView rfl⟩
  have hheader : (longHeader emptyRows).length < halfWordBound := by decide +kernel
  have hnot : ¬ Readable emptyRows := by
    intro hreadable
    exact absurd (hreadable.sizes [4611686018427387904] ⟨[0], rfl⟩) (by decide)
  obtain ⟨_, _, hrest⟩ := readable_iff_of_encode hstream (by decide) (by decide)
  exact ⟨⟨by decide, by decide⟩, stream, hstream, (hrest hheader).2 hnot⟩

theorem one_lt_wordBound : 1 < wordBound := by decide

theorem typeCode?_u8 : typeCode? .u8 = some "u1" := rfl

theorem fields_perm_self : [Field.descr, .order, .shape].Perm [.descr, .order, .shape] := .refl _

/--
A header of `rank` dimensions of one element each, without a blank in it.
-/
def compact (rank : Nat) : Spelling where
  dtype := .u8
  code := "u1"
  code_eq := typeCode?_u8
  order := .irrelevant
  quote := .single
  dims := List.replicate rank ⟨.spaces 0, 1, .spaces 0, one_lt_wordBound⟩
  dimsEnding := none
  fields := [.descr, .order, .shape]
  fields_perm := fields_perm_self
  margins := fun _ => ⟨.spaces 0, .spaces 0, .spaces 0, .spaces 0⟩
  fieldsEnding := none
  before := .spaces 0
  behind := .spaces 0

theorem text_compact (rank : Nat)
    : (compact rank).text
        = "\x7b'descr':'|u1','fortran_order':False,'shape':(".toList ++
            [','].intercalate (List.replicate rank ['1']) ++ ")\x7d".toList := by
  have hone : Numeral.encode 1 = ['1'] := by decide +kernel
  have hdims : (compact rank).dims.map Dim.text = List.replicate rank ['1'] := by
    simp [compact, Dim.text, Blanks.spaces, hone]
  have hvalue : (compact rank).value .shape
      = '(' :: [','].intercalate (List.replicate rank ['1']) ++ [')'] := by
    unfold Spelling.value commaSeparated
    rw [hdims]
    simp [compact]
  have hfields : (compact rank).fields.map (compact rank).entry
      = ["'descr':'|u1'".toList, "'fortran_order':False".toList,
          "'shape':".toList ++ (compact rank).value .shape] := by
    simp [compact, Spelling.entry, Spelling.value, Spelling.signed, ByteOrder.sign, Quote.mark,
      Field.key, Blanks.spaces]
  unfold Spelling.text commaSeparated
  rw [hfields, hvalue]
  simp [compact, Blanks.spaces]

theorem length_text_compact_le (rank : Nat) : (compact rank).text.length ≤ rank * 2 + 48 := by
  have hdims : ([','].intercalate (List.replicate rank ['1'])).length
      ≤ (List.replicate rank ['1']).length * (1 + [','].length) := by
    apply Text.length_intercalate_le
    intro p hp
    rw [List.eq_of_mem_replicate hp]
    exact Nat.le_refl 1
  have hfront : "\x7b'descr':'|u1','fortran_order':False,'shape':(".toList.length = 46 := by decide
  have hback : ")\x7d".toList.length = 2 := by decide
  rw [List.length_replicate, List.length_singleton] at hdims
  rw [text_compact, List.length_append, List.length_append, hfront, hback]
  omega

theorem isAscii_text_compact (rank : Nat) : (compact rank).text.all Utf8.isAscii = true := by
  have hdims : ([','].intercalate (List.replicate rank ['1'])).all Utf8.isAscii = true := by
    rw [List.all_eq_true]
    intro c hc
    rcases Text.mem_intercalate hc with hc | ⟨p, hp, hc⟩
    . rw [List.mem_singleton.1 hc]
      decide
    . rw [List.eq_of_mem_replicate hp] at hc
      rw [List.mem_singleton.1 hc]
      decide
  rw [text_compact, List.all_append, List.all_append, hdims]
  decide

/--
One byte in `rank` dimensions.
-/
def flat (rank : Nat) : Tensor where
  dtype := .u8
  shape := List.replicate rank 1
  data := [7]
  sized := by rw [Shape.productFrom?_replicate_one]; rfl

/--
The stream of that tensor with the compact header.
-/
def compactStream (rank : Nat) : List UInt8 :=
  let header := Utf8.encodeChars (compact rank).text
  let opening : Opening := ⟨2, 0, LittleEndian.encode 4 header.length, header⟩
  opening.bytes ++ [7]

theorem decode_compactStream {rank : Nat} (hrank : rank * 2 + 48 < halfWordBound)
    : decode (compactStream rank) = .ok (flat rank) := by
  have hlength := Utf8.length_encodeChars (isAscii_text_compact rank)
  have hle := length_text_compact_le rank
  have hfield : LittleEndian.decode
      (LittleEndian.encode 4 (Utf8.encodeChars (compact rank).text).length)
        = (Utf8.encodeChars (compact rank).text).length := by
    apply LittleEndian.decode_encode_of_lt
    rw [LittleEndian.bound_four]
    omega
  have hvalid : Opening.Valid ⟨2, 0,
      LittleEndian.encode 4 (Utf8.encodeChars (compact rank).text).length,
      Utf8.encodeChars (compact rank).text⟩ :=
    ⟨.inr ⟨.inl rfl, LittleEndian.length_encode _ _⟩, hfield⟩
  have htext := Opening.headerText_bytes hvalid (Utf8.decode_encodeChars _) [7]
  rw [(compact rank).trim_text] at htext
  have hshape : (compact rank).bare.shape = List.replicate rank 1 := List.map_replicate
  have hproduct : Shape.productFrom? DType.u8.size (compact rank).bare.shape = some 1 := by
    rw [hshape]
    exact Shape.productFrom?_replicate_one rank
  have hdecode : decode (compactStream rank)
      = Tensor.ofBytes .u8 (compact rank).bare.shape [7] :=
    decode_of_append htext (compact rank).bare.parse_text hproduct
  exact hdecode.trans (Tensor.ofBytes_eq_ok_iff.2 ⟨rfl, hshape.symm, rfl⟩)

end Npy

end TensorFiles
