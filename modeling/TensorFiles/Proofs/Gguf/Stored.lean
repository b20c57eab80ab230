import TensorFiles.Proofs.Gguf.Delimited
/-!
This module contains the form in which metadata values stand in a file. A value that has been read
is written again as the bytes it was read from, but for what reading has lost: the precision of wide
floats, and bytes of texts that are not UTF-8. Arrays without numbers are read and not written.
-/

namespace TensorFiles.Gguf

/--
The bytes of a text with their number in front.
-/
def storedText (raw : List UInt8) : List UInt8 :=
  LittleEndian.encode 8 raw.length ++ raw

/--
The text that is read from bytes.
-/
def lossyText (raw : List UInt8) : String :=
  String.ofList (Utf8.decodeLossy raw)

/--
The bytes of `count` texts that stand behind each other.
-/
def cutTexts : (count : Nat) → (bytes : List UInt8) → List (List UInt8)
  | 0, _ => []
  | count + 1, bytes =>
    let length := LittleEndian.decode (bytes.take 8)
    (bytes.drop 8).take length :: cutTexts count (bytes.drop (8 + length))

theorem cutTexts_flatMap {raws : List (List UInt8)} (h : ∀ raw ∈ raws, raw.length < wordBound)
    : cutTexts raws.length (raws.flatMap storedText) = raws := by
  induction raws with
  | nil => rfl
  | cons raw raws ih =>
    rw [List.forall_mem_cons] at h
    have hfront : ((raw :: raws).flatMap storedText).take 8
        = LittleEndian.encode 8 raw.length := by
      rw [List.flatMap_cons, storedText, List.append_assoc,
        List.take_left' (LittleEndian.length_encode 8 _)]
    have hback : ((raw :: raws).flatMap storedText).drop 8
        = raw ++ raws.flatMap storedText := by
      rw [List.flatMap_cons, storedText, List.append_assoc,
        List.drop_left' (LittleEndian.length_encode 8 _)]
    rw [List.length_cons, cutTexts, hfront, LittleEndian.decode_encode_of_lt h.1, ← List.drop_drop,
      hback, List.take_left, List.drop_left, ih h.2]

theorem encodeString_eq (s : String) : encodeString s = storedText (Utf8.encode s) := by
  unfold encodeString storedText
  rw [Utf8.length_encode]

theorem encodeString_lossyText {raw : List UInt8} (h : Utf8.IsValid raw)
    : encodeString (lossyText raw) = storedText raw := by
  rw [encodeString_eq, lossyText, Utf8.isValid_iff.1 h]

theorem flatMap_encodeString {raws : List (List UInt8)} (h : ∀ raw ∈ raws, Utf8.IsValid raw)
    : (raws.map lossyText).flatMap encodeString = raws.flatMap storedText := by
  rw [List.flatMap_map]
  exact List.flatMap_congr fun raw hraw => encodeString_lossyText (h raw hraw)

/--
Texts that are written as they were read have lost nothing.
-/
theorem isValid_of_flatMap_eq {raws : List (List UInt8)}
    (hsize : (raws.flatMap storedText).length < wordBound)
    (h : (raws.map lossyText).flatMap encodeString = raws.flatMap storedText)
    : ∀ raw ∈ raws, Utf8.IsValid raw := by
  induction raws with
  | nil => simp
  | cons raw raws ih =>
    have hlength := congrArg List.length h
    rw [List.map_cons, List.flatMap_cons, List.flatMap_cons, encodeString_eq, storedText, storedText,
      List.append_assoc, List.append_assoc] at h
    rw [List.flatMap_cons, List.length_append, storedText, List.length_append] at hsize
    rw [List.map_cons, List.flatMap_cons, List.flatMap_cons, List.length_append, List.length_append,
      encodeString_eq, storedText, storedText, List.length_append, List.length_append] at hlength
    simp only [LittleEndian.length_encode] at hsize hlength
    -- the length in front tells the text apart from the others
    obtain ⟨hfront, hback⟩ := List.append_inj h (by simp)
    have hsame : (Utf8.encode (lossyText raw)).length = raw.length := by
      have hdecoded := congrArg LittleEndian.decode hfront
      rw [LittleEndian.decode_encode_of_lt (by rw [LittleEndian.bound_eight]; omega),
        LittleEndian.decode_encode_of_lt (by rw [LittleEndian.bound_eight]; omega)] at hdecoded
      exact hdecoded
    obtain ⟨htext, hrest⟩ := List.append_inj hback hsame
    rw [List.forall_mem_cons]
    exact ⟨⟨_, htext⟩, ih (by omega) hrest⟩

/--
Wide floats become half as many bytes.
-/
theorem length_narrowDoubles (bytes : List UInt8)
    : (Read.narrowDoubles bytes).length = bytes.length / 8 * 4 := by
  fun_induction Read.narrowDoubles bytes with
  | case1 b0 b1 b2 b3 b4 b5 b6 b7 rest ih =>
    rw [List.length_append, LittleEndian.length_encode, ih]
    simp only [List.length_cons]
    omega
  | case2 bytes hshort =>
    have hlt : bytes.length < 8 := by
      match bytes with
      | [] | [_] | [_, _] | [_, _, _] | [_, _, _, _] | [_, _, _, _, _] | [_, _, _, _, _, _]
      | [_, _, _, _, _, _, _] => simp
      | b0 :: b1 :: b2 :: b3 :: b4 :: b5 :: b6 :: b7 :: rest =>
        exact absurd rfl (hshort b0 b1 b2 b3 b4 b5 b6 b7 rest)
    rw [Nat.div_eq_of_lt hlt]
    rfl

namespace ValueType

/--
The bytes of numbers of the type as they are held once they have been read.
-/
def loaded (type : ValueType) (data : List UInt8) : List UInt8 :=
  if type = .float64 then Read.narrowDoubles data else data

/--
The type that numbers are written as once they have been read.
-/
def narrowed (type : ValueType) : ValueType :=
  if type = .float64 then .float32 else type

theorem ofDType?_of_layout {type : ValueType} {width : Nat} {dtype : DType}
    (h : type.layout = .number width dtype) : ofDType? dtype = some type.narrowed := by
  cases type <;> simp only [layout, Layout.number.injEq, reduceCtorEq] at h <;>
    obtain ⟨_, rfl⟩ := h <;> rfl

theorem ne_float64_of_narrowed {type : ValueType} (h : type.narrowed = type)
    : type ≠ .float64 := by
  rintro rfl
  simp [narrowed] at h

theorem eq_string_of_layout {type : ValueType} (h : type.layout = .text) : type = .string := by
  cases type <;> simp only [layout, reduceCtorEq] at h
  rfl

theorem eq_array_of_layout {type : ValueType} (h : type.layout = .list) : type = .array := by
  cases type <;> simp only [layout, reduceCtorEq] at h
  rfl

theorem ne_of_layout {type : ValueType} {width : Nat} {dtype : DType}
    (h : type.layout = .number width dtype) : type ≠ .string ∧ type ≠ .array := by
  cases type <;> simp [layout] at h ⊢

end ValueType

/--
The value `v` stands in a file as `w`, and is of the type in front of it.
-/
inductive Stored : (type : ValueType) → (w : List UInt8) → (v : MetaValue) → Prop where
  | number {type : ValueType} {width : Nat} {dtype : DType} {data : List UInt8} {t : Tensor}
    (hlayout : type.layout = .number width dtype) (hlength : data.length = width)
    (ht : Tensor.ofBytes dtype [] (type.loaded data) = .ok t)
    : Stored type data (.scalar t)
  | text {raw : List UInt8} (hraw : raw.length < wordBound)
    : Stored .string (storedText raw) (.string (lossyText raw))
  | numbers {type : ValueType} {width count : Nat} {dtype : DType} {data : List UInt8} {t : Tensor}
    (hlayout : type.layout = .number width dtype) (hcount : count < wordBound)
    (hlength : data.length = count * width)
    (ht : Tensor.ofBytes dtype [count] (type.loaded data) = .ok t)
    : Stored .array (LittleEndian.encode 4 type.code ++ (LittleEndian.encode 8 count ++ data))
        (.array t)
  | texts {raws : List (List UInt8)} (hcount : raws.length < wordBound)
    (hraws : ∀ raw ∈ raws, raw.length < wordBound)
    : Stored .array (LittleEndian.encode 4 ValueType.string.code ++
        (LittleEndian.encode 8 raws.length ++ raws.flatMap storedText))
        (.strings (raws.map lossyText))

section

variable {c c' : Cursor}

theorem exec_numbers_eq_ok {type : ValueType} {width count : Nat} {bytes : List UInt8}
    (h : exec (Read.numbers type width count) c = (.ok bytes, c'))
    : ∃ data, data.length = count * width ∧ bytes = type.loaded data ∧ c.Passes data c' := by
  unfold Read.numbers at h
  obtain ⟨data, c₁, hdata, h⟩ := exec_bind_eq_ok h
  obtain ⟨hlength, hpasses⟩ := exec_bytes_eq_ok hdata
  unfold ValueType.loaded
  split at h
  . next hwide =>
    obtain ⟨rfl, rfl⟩ := exec_pure_eq_ok_iff.1 h
    exact ⟨data, hlength, (if_pos hwide).symm, hpasses⟩
  . next hnarrow =>
    obtain ⟨rfl, rfl⟩ := exec_pure_eq_ok_iff.1 h
    exact ⟨data, hlength, (if_neg hnarrow).symm, hpasses⟩

theorem exec_strings_eq_ok {count : Nat} {texts : List String} (hc : c.offset ≤ c.data.length)
    (h : exec (Read.strings count) c = (.ok texts, c'))
    : ∃ raws : List (List UInt8), raws.length = count ∧ (∀ raw ∈ raws, raw.length < wordBound) ∧
        texts = raws.map lossyText ∧ c.Passes (raws.flatMap storedText) c' := by
  induction count generalizing c texts with
  | zero =>
    unfold Read.strings at h
    obtain ⟨rfl, rfl⟩ := exec_pure_eq_ok_iff.1 h
    exact ⟨[], rfl, by simp, rfl, c.passes_nil hc⟩
  | succ count ih =>
    unfold Read.strings at h
    obtain ⟨s, c₁, hs, h⟩ := exec_bind_eq_ok h
    obtain ⟨rest, c₂, hrest, h⟩ := exec_bind_eq_ok h
    obtain ⟨rfl, rfl⟩ := exec_pure_eq_ok_iff.1 h
    obtain ⟨raw, hraw, _, rfl, hpasses⟩ := exec_string_eq_ok hs
    obtain ⟨raws, hcount, hraws, rfl, hpasses'⟩ := ih hpasses.offset_le hrest
    refine ⟨raw :: raws, ?_, List.forall_mem_cons.2 ⟨hraw, hraws⟩, rfl, hpasses.append hpasses'⟩
    rw [List.length_cons, hcount]

theorem exec_array_eq_ok {v : MetaValue} (h : exec Read.array c = (.ok v, c'))
    : ∃ w, c.Passes w c' ∧ Stored .array w v := by
  unfold Read.array at h
  obtain ⟨code, c₁, hcode, h⟩ := exec_bind_eq_ok h
  obtain ⟨_, hfront⟩ := exec_u32_eq_ok hcode
  split at h
  . simp at h
  . next type htype =>
    rw [← ValueType.code_of_ofCode? htype] at hfront
    split at h
    . simp at h
    . next hlayout =>
      obtain ⟨count, c₂, hcount, h⟩ := exec_bind_eq_ok h
      obtain ⟨texts, c₃, htexts, h⟩ := exec_bind_eq_ok h
      obtain ⟨rfl, rfl⟩ := exec_pure_eq_ok_iff.1 h
      obtain ⟨hn, hlength⟩ := exec_length_eq_ok hcount
      obtain ⟨raws, rfl, hraws, rfl, hdata⟩ := exec_strings_eq_ok hlength.offset_le htexts
      cases ValueType.eq_string_of_layout hlayout
      exact ⟨_, hfront.append (hlength.append hdata), .texts hn hraws⟩
    . next width dtype hlayout =>
      obtain ⟨count, c₂, hcount, h⟩ := exec_bind_eq_ok h
      obtain ⟨bytes, c₃, hbytes, h⟩ := exec_bind_eq_ok h
      obtain ⟨t, c₄, ht, h⟩ := exec_bind_eq_ok h
      rw [exec_lift_eq_iff] at ht
      rw [exec_pure_eq_ok_iff, ← ht.2] at h
      obtain ⟨rfl, rfl⟩ := h
      obtain ⟨hn, hlength⟩ := exec_length_eq_ok hcount
      obtain ⟨data, hdata, rfl, hpasses⟩ := exec_numbers_eq_ok hbytes
      exact ⟨_, hfront.append (hlength.append hpasses), .numbers hlayout hn hdata ht.1⟩

/--
A value that is read stands there in its form, and the cursor has come to its end.
-/
theorem exec_value_eq_ok {code : Nat} {v : MetaValue}
    (h : exec (Read.value code) c = (.ok v, c'))
    : ∃ type w, ValueType.ofCode? code = some type ∧ c.Passes w c' ∧ Stored type w v := by
  unfold Read.value at h
  split at h
  . simp at h
  . next type htype =>
    split at h
    . next hlayout =>
      cases ValueType.eq_array_of_layout hlayout
      obtain ⟨w, hpasses, hstored⟩ := exec_array_eq_ok h
      exact ⟨.array, w, htype, hpasses, hstored⟩
    . next hlayout =>
      cases ValueType.eq_string_of_layout hlayout
      obtain ⟨s, hs, rfl⟩ := exec_map_eq_ok_iff.1 h
      obtain ⟨raw, hraw, _, rfl, hpasses⟩ := exec_string_eq_ok hs
      exact ⟨.string, storedText raw, htype, hpasses, .text hraw⟩
    . next width dtype hlayout =>
      obtain ⟨bytes, c₁, hbytes, h⟩ := exec_bind_eq_ok h
      obtain ⟨t, c₂, ht, h⟩ := exec_bind_eq_ok h
      rw [exec_lift_eq_iff] at ht
      rw [exec_pure_eq_ok_iff, ← ht.2] at h
      obtain ⟨rfl, rfl⟩ := h
      obtain ⟨data, hdata, rfl, hpasses⟩ := exec_numbers_eq_ok hbytes
      rw [Nat.one_mul] at hdata
      exact ⟨type, data, htype, hpasses, .number hlayout hdata ht.1⟩

end

/--
The type of the elements of an array that stands in a file as `w`.
-/
def elementType? (type : ValueType) (w : List UInt8) : Option ValueType :=
  if type = .array then ValueType.ofCode? (LittleEndian.decode (w.take 4)) else none

/--
The bytes of each text in a value that stands in a file as `w`.
-/
def storedTexts (type : ValueType) (w : List UInt8) : List (List UInt8) :=
  if type = .string then
    cutTexts 1 w
  else if elementType? type w = some .string then
    cutTexts (LittleEndian.decode ((w.drop 4).take 8)) (w.drop 12)
  else
    []

/--
The value is a wide float, or an array of these.
-/
def HoldsDoubles (type : ValueType) (w : List UInt8) : Prop :=
  type = .float64 ∨ elementType? type w = some .float64

/--
The value is an array of numbers, of which there are none.
-/
def MetaValue.IsEmptyArray (v : MetaValue) : Prop :=
  ∃ t, v = .array t ∧ t.numel = 0

theorem elementType?_append (type : ValueType) (rest : List UInt8)
    : elementType? .array (LittleEndian.encode 4 type.code ++ rest) = some type := by
  unfold elementType?
  rw [if_pos rfl, List.take_left' (LittleEndian.length_encode 4 _),
    LittleEndian.decode_encode_of_lt type.code_lt, ValueType.ofCode?_code]

theorem storedTexts_eq_nil {type : ValueType} {w : List UInt8} (hstring : type ≠ .string)
    (helement : elementType? type w ≠ some .string) : storedTexts type w = [] := by
  unfold storedTexts
  rw [if_neg hstring, if_neg helement]

theorem storedTexts_string {raw : List UInt8} (h : raw.length < wordBound)
    : storedTexts .string (storedText raw) = [raw] := by
  have hcut := cutTexts_flatMap (List.forall_mem_singleton.2 h)
  rw [List.flatMap_singleton] at hcut
  exact hcut

theorem storedTexts_array {raws : List (List UInt8)} (hcount : raws.length < wordBound)
    (hraws : ∀ raw ∈ raws, raw.length < wordBound)
    : storedTexts .array (LittleEndian.encode 4 ValueType.string.code ++
        (LittleEndian.encode 8 raws.length ++ raws.flatMap storedText)) = raws := by
  have htwelve : (12 : Nat) = 4 + 8 := rfl
  unfold storedTexts
  rw [if_neg (by decide), if_pos (elementType?_append _ _), htwelve, ← List.drop_drop,
    List.drop_left' (LittleEndian.length_encode 4 _),
    List.take_left' (LittleEndian.length_encode 8 _),
    List.drop_left' (LittleEndian.length_encode 8 _), LittleEndian.decode_encode_of_lt hcount,
    cutTexts_flatMap hraws]

section

variable {type : ValueType} {width count : Nat} {dtype : DType} {t : Tensor} {data : List UInt8}

theorem numel_of_ofBytes (ht : Tensor.ofBytes dtype [count] data = .ok t)
    : t.rank = 1 ∧ t.numel = count := by
  have hshape := (Tensor.ofBytes_eq_ok_iff.1 ht).2.1
  simp [Tensor.rank, Tensor.numel, hshape]

theorem encode_scalar_of_layout (hlayout : type.layout = .number width dtype)
    (ht : Tensor.ofBytes dtype [] data = .ok t) (key : String)
    : (MetaValue.scalar t).encode key = .ok (type.narrowed, data) := by
  obtain ⟨hdtype, hshape, hdata⟩ := Tensor.ofBytes_eq_ok_iff.1 ht
  have hsingle : ¬(t.numel ≠ 1 ∨ 1 < t.rank) := by
    simp [Tensor.numel, Tensor.rank, hshape]
  rw [MetaValue.encode, if_neg hsingle, hdtype, ValueType.ofDType?_of_layout hlayout, hdata]

theorem encode_array_of_layout (hlayout : type.layout = .number width dtype)
    (ht : Tensor.ofBytes dtype [count] data = .ok t) (hcount : count ≠ 0) (key : String)
    : (MetaValue.array t).encode key
        = .ok (.array, LittleEndian.encode 4 type.narrowed.code ++
            (LittleEndian.encode 8 count ++ data)) := by
  obtain ⟨hdtype, _, hdata⟩ := Tensor.ofBytes_eq_ok_iff.1 ht
  obtain ⟨hrank, hnumel⟩ := numel_of_ofBytes ht
  rw [MetaValue.encode, if_neg (not_not.2 hrank), hnumel, if_neg hcount, hdtype,
    ValueType.ofDType?_of_layout hlayout, hdata, ← List.append_assoc]

theorem encode_array_of_empty (ht : Tensor.ofBytes dtype [0] data = .ok t) (key : String)
    : (MetaValue.array t).encode key = .error (.layout key .noElements) := by
  obtain ⟨hrank, hnumel⟩ := numel_of_ofBytes ht
  rw [MetaValue.encode, if_neg (not_not.2 hrank), if_pos hnumel]

theorem encode_strings_lossyText (raws : List (List UInt8)) (key : String)
    : (MetaValue.strings (raws.map lossyText)).encode key
        = .ok (.array, LittleEndian.encode 4 ValueType.string.code ++
            (LittleEndian.encode 8 raws.length ++ (raws.map lossyText).flatMap encodeString)) := by
  rw [MetaValue.encode, List.length_map, List.append_assoc]

end

namespace Stored

variable {type : ValueType} {w : List UInt8} {v : MetaValue} {key : String}

theorem exists_encode_eq_error_iff (h : Stored type w v)
    : (∃ e, v.encode key = .error e) ↔ v.IsEmptyArray := by
  unfold MetaValue.IsEmptyArray
  cases h with
  | number hlayout hlength ht => simp [encode_scalar_of_layout hlayout ht]
  | text hraw => simp [MetaValue.encode]
  | texts hcount hraws => simp [MetaValue.encode]
  | @numbers _ _ count _ _ t hlayout hcount hlength ht =>
    by_cases hzero : count = 0
    . subst hzero
      simp [encode_array_of_empty ht, (numel_of_ofBytes ht).2]
    . simp [encode_array_of_layout hlayout ht hzero, (numel_of_ofBytes ht).2, hzero]

/--
The bytes are written again that were read, where nothing was lost.
-/
theorem eq_of_encode (h : Stored type w v) {out : ValueType × List UInt8}
    (hout : v.encode key = .ok out) (hdoubles : ¬HoldsDoubles type w)
    (hvalid : ∀ raw ∈ storedTexts type w, Utf8.IsValid raw) : out = (type, w) := by
  unfold HoldsDoubles at hdoubles
  rw [not_or] at hdoubles
  cases h with
  | number hlayout hlength ht =>
    rw [encode_scalar_of_layout hlayout ht, Except.ok.injEq] at hout
    rw [← hout, ValueType.narrowed, ValueType.loaded, if_neg hdoubles.1, if_neg hdoubles.1]
  | text hraw =>
    rw [storedTexts_string hraw, List.forall_mem_singleton] at hvalid
    rw [MetaValue.encode, Except.ok.injEq, encodeString_lossyText hvalid] at hout
    exact hout.symm
  | texts hcount hraws =>
    rw [storedTexts_array hcount hraws] at hvalid
    rw [encode_strings_lossyText, Except.ok.injEq, flatMap_encodeString hvalid] at hout
    exact hout.symm
  | @numbers type _ count _ _ t hlayout hcount hlength ht =>
    have hnarrow : type ≠ .float64 := by
      intro hwide
      rw [elementType?_append, hwide] at hdoubles
      exact hdoubles.2 rfl
    have hsome : count ≠ 0 := by
      rintro rfl
      rw [encode_array_of_empty ht] at hout
      simp at hout
    rw [encode_array_of_layout hlayout ht hsome, Except.ok.injEq] at hout
    rw [← hout, ValueType.narrowed, ValueType.loaded, if_neg hnarrow, if_neg hnarrow]

/--
If the bytes are written again that were read, then nothing was lost.
-/
theorem lossless_of_encode (h : Stored type w v) (hsize : w.length < wordBound)
    (hout : v.encode key = .ok (type, w))
    : ¬HoldsDoubles type w ∧ ∀ raw ∈ storedTexts type w, Utf8.IsValid raw := by
  unfold HoldsDoubles
  rw [not_or]
  cases h with
  | number hlayout hlength ht =>
    rw [encode_scalar_of_layout hlayout ht, Except.ok.injEq, Prod.mk.injEq] at hout
    obtain ⟨hstring, harray⟩ := ValueType.ne_of_layout hlayout
    have helement : elementType? type w = none := if_neg harray
    rw [storedTexts_eq_nil hstring (by simp [helement]), helement]
    exact ⟨⟨ValueType.ne_float64_of_narrowed hout.1, by simp⟩, by simp⟩
  | @text raw hraw =>
    rw [MetaValue.encode, Except.ok.injEq, Prod.mk.injEq] at hout
    rw [storedTexts_string hraw]
    refine ⟨⟨by decide, by simp [elementType?]⟩, isValid_of_flatMap_eq ?_ ?_⟩
    . simpa using hsize
    . simpa using hout.2
  | @texts raws hcount hraws =>
    rw [encode_strings_lossyText, Except.ok.injEq, Prod.mk.injEq, List.append_right_inj,
      List.append_right_inj] at hout
    simp only [List.length_append] at hsize
    rw [storedTexts_array hcount hraws, elementType?_append]
    exact ⟨⟨by decide, by decide⟩, isValid_of_flatMap_eq (by omega) hout.2⟩
  | @numbers type _ count _ data t hlayout hcount hlength ht =>
    have hsome : count ≠ 0 := by
      rintro rfl
      rw [encode_array_of_empty ht] at hout
      simp at hout
    rw [encode_array_of_layout hlayout ht hsome, Except.ok.injEq, Prod.mk.injEq] at hout
    have helement := congrArg (elementType? .array) hout.2
    rw [elementType?_append, elementType?_append, Option.some.injEq] at helement
    have hstring := (ValueType.ne_of_layout hlayout).1
    rw [storedTexts_eq_nil (by decide) (by simpa [elementType?_append] using hstring),
      elementType?_append]
    refine ⟨⟨by decide, ?_⟩, by simp⟩
    simpa using ValueType.ne_float64_of_narrowed helement

end Stored

/--
A value that has been read cannot be written if and only if it is an array without numbers. Any
other is written as the bytes it was read from if these hold no wide floats and nothing but UTF-8 in
their texts, and, unless there are more bytes than can be counted, only then.
-/
theorem encode_of_exec_value {c c' : Cursor} {code : Nat} {v : MetaValue}
    (h : exec (Read.value code) c = (.ok v, c')) (key : String)
    : ∃ type w, ValueType.ofCode? code = some type ∧ c.Passes w c' ∧
        ((∃ e, v.encode key = .error e) ↔ v.IsEmptyArray) ∧
        (∀ out, v.encode key = .ok out → ¬HoldsDoubles type w →
          (∀ raw ∈ storedTexts type w, Utf8.IsValid raw) → out = (type, w)) ∧
        (w.length < wordBound → v.encode key = .ok (type, w) →
          ¬HoldsDoubles type w ∧ ∀ raw ∈ storedTexts type w, Utf8.IsValid raw) := by
  obtain ⟨type, w, htype, hpasses, hstored⟩ := exec_value_eq_ok h
  refine ⟨type, w, htype, hpasses, hstored.exists_encode_eq_error_iff, ?_, ?_⟩
  . exact fun out hout hdoubles hvalid => hstored.eq_of_encode hout hdoubles hvalid
  . exact fun hsize hout => hstored.lossless_of_encode hsize hout

/--
An array of a text of two bytes and an empty one, with a byte in front and a byte behind.
-/
def paddedTexts : Cursor :=
  ⟨[7, 8, 0, 0, 0, 2, 0, 0, 0, 0, 0, 0, 0, 2, 0, 0, 0, 0, 0, 0, 0, 0xC3, 0xA9,
    0, 0, 0, 0, 0, 0, 0, 0, 7], 1, 2⟩

theorem encode_of_exec_value_paddedTexts
    : exec (Read.value 9) paddedTexts = (.ok twoTexts, { paddedTexts with offset := 31 }) ∧
        twoTexts.encode "k" = .ok (.array, (paddedTexts.data.drop 1).take 30) := by
  have hexec : exec (Read.value 9) paddedTexts
      = (.ok twoTexts, { paddedTexts with offset := 31 }) := by
    rfl
  obtain ⟨type, w, htype, hpasses, _, hback, _⟩ := encode_of_exec_value hexec "k"
  cases htype
  have hw : (paddedTexts.data.drop 1).take 30 = w := by
    have hlength : 31 = 1 + w.length := congrArg Cursor.offset hpasses.2
    rw [show 30 = w.length by omega]
    exact hpasses.1.take_drop
  subst hw
  have htexts : storedTexts .array ((paddedTexts.data.drop 1).take 30) = [[0xC3, 0xA9], []] := by
    rfl
  have hvalid : ∀ raw ∈ storedTexts .array ((paddedTexts.data.drop 1).take 30),
      Utf8.IsValid raw := by
    rw [htexts]
    simp only [List.forall_mem_cons]
    exact ⟨⟨['é'], rfl⟩, ⟨[], rfl⟩, by simp⟩
  have hdoubles : ¬HoldsDoubles .array ((paddedTexts.data.drop 1).take 30) := by
    unfold HoldsDoubles
    decide
  obtain ⟨out, hout⟩ : ∃ out, twoTexts.encode "k" = .ok out := ⟨_, rfl⟩
  refine ⟨hexec, ?_⟩
  rw [hout, hback out hout hdoubles hvalid]

end TensorFiles.Gguf
