import TensorFiles.Npy.Stream
import TensorFiles.Proofs.Bytes.LittleEndian
import TensorFiles.Proofs.Result
import TensorFiles.Proofs.Tensor.View
/-!
This module contains the openings of streams, which stand in front of the bytes of the tensor: how a
reader takes one apart, and how it is laid out if it has been written.
-/

namespace TensorFiles.Npy

/--
The number of spaces behind a dictionary.
-/
def spaces (width : Nat) (dictionary : List UInt8) : Nat :=
  (boundary - (magic.length + 2 + width + dictionary.length + 1) % boundary) % boundary

/--
A dictionary that is filled up to a header whose length takes `width` bytes.
-/
def padded (width : Nat) (dictionary : List UInt8) : List UInt8 :=
  dictionary ++ List.replicate (spaces width dictionary) 0x20 ++ [0x0A]

theorem spaces_lt (width : Nat) (dictionary : List UInt8) : spaces width dictionary < boundary :=
  Nat.mod_lt _ (by decide)

theorem length_padded (width : Nat) (dictionary : List UInt8)
    : (padded width dictionary).length = dictionary.length + spaces width dictionary + 1 := by
  unfold padded
  rw [List.length_append, List.length_append, List.length_replicate, List.length_singleton]

/--
What the first version has no room for does not fit it by being filled up for a longer length field.
-/
theorem lt_length_padded {dictionary : List UInt8}
    (h : maxShortHeader < (padded 2 dictionary).length)
    : maxShortHeader < (padded 4 dictionary).length := by
  rw [length_padded] at h ⊢
  unfold spaces boundary maxShortHeader magic at h
  unfold spaces boundary maxShortHeader magic
  simp only [List.length_cons, List.length_nil] at h ⊢
  omega

theorem take_append (part : Part) (front rest : List UInt8)
    : take part front.length (front ++ rest) = .ok (front, rest) := by
  unfold take
  rw [if_pos (by simp), List.take_left, List.drop_left]

theorem take_version (major minor : UInt8) (rest : List UInt8)
    : take .version 2 ([major, minor] ++ rest) = .ok ([major, minor], rest) :=
  take_append .version [major, minor] rest

theorem take_of_lt {part : Part} {length : Nat} {data : List UInt8} (h : data.length < length)
    : take part length data = .error (.npy (.truncated part)) := by
  unfold take
  rw [if_neg (Nat.not_le.2 h)]

/--
A version of the format that is read, and the number of bytes it has for the length of a header.
-/
def IsVersion (major : UInt8) (width : Nat) : Prop :=
  (major = 1 ∧ width = 2) ∨ ((major = 2 ∨ major = 3) ∧ width = 4)

theorem IsVersion.toNat {major : UInt8} {width : Nat} (h : IsVersion major width)
    : ¬ (major.toNat < 1 ∨ 3 < major.toNat) ∧ (if major.toNat = 1 then 2 else 4) = width := by
  rcases h with ⟨rfl, rfl⟩ | ⟨rfl | rfl, rfl⟩
  . decide
  . decide
  . decide

/--
What a stream has in front of the bytes of the tensor: a version, the length of the header in
`field`, and the header.
-/
structure Opening where
  major : UInt8
  minor : UInt8
  field : List UInt8
  header : List UInt8

namespace Opening

def bytes (o : Opening) : List UInt8 :=
  magic ++ [o.major, o.minor] ++ o.field ++ o.header

/--
The length field has the size of the version, and holds the length of the header.
-/
structure Valid (o : Opening) : Prop where
  version : IsVersion o.major o.field.length
  field : LittleEndian.decode o.field = o.header.length

section

variable {o : Opening} {data : List UInt8}

theorem headerText_append_of_error (hversion : IsVersion o.major o.field.length) {e : Error}
    (htake : take .header (LittleEndian.decode o.field) data = .error e)
    : headerText (magic ++ ([o.major, o.minor] ++ (o.field ++ data))) = .error e := by
  unfold headerText
  simp only [take_append .magic magic, take_version, take_append .headerLength o.field, bind,
    Except.bind, ne_eq, not_true_eq_false, if_false, List.getD_cons_zero, hversion.toNat, htake]

theorem headerText_append_of_ok (hversion : IsVersion o.major o.field.length)
    {header rest : List UInt8} {cs : List Char}
    (htake : take .header (LittleEndian.decode o.field) data = .ok (header, rest))
    (htext : Utf8.decode header = .ok cs)
    : headerText (magic ++ ([o.major, o.minor] ++ (o.field ++ data)))
        = .ok (Text.trim cs, rest) := by
  unfold headerText
  simp only [take_append .magic magic, take_version, take_append .headerLength o.field, bind,
    Except.bind, pure, Except.pure, ne_eq, not_true_eq_false, if_false, List.getD_cons_zero,
    hversion.toNat, htake, htext]

theorem headerText_bytes (h : o.Valid) {cs : List Char} (htext : Utf8.decode o.header = .ok cs)
    (rest : List UInt8) : headerText (o.bytes ++ rest) = .ok (Text.trim cs, rest) := by
  have htake := take_append .header o.header rest
  rw [← h.field] at htake
  unfold bytes
  rw [List.append_assoc, List.append_assoc, List.append_assoc]
  exact headerText_append_of_ok h.version htake htext

end

/--
The opening with a dictionary that is filled up behind a length field of `width` bytes.
-/
def filled (major : UInt8) (width : Nat) (dictionary : List UInt8) : Opening where
  major := major
  minor := 0
  field := LittleEndian.encode width (padded width dictionary).length
  header := padded width dictionary

theorem bytes_filled (major : UInt8) (width : Nat) (dictionary : List UInt8)
    : (filled major width dictionary).bytes = magic ++ frame major width dictionary := by
  simp [bytes, filled, frame, padded, spaces]

/--
The opening that is written for a dictionary. The second version is used if the first one has no room
for it.
-/
def ofDictionary (dictionary : List UInt8) : Opening :=
  if (padded 2 dictionary).length ≤ maxShortHeader then
    filled 1 2 dictionary
  else
    filled 2 4 dictionary

theorem preamble_eq (dictionary : List UInt8)
    : preamble dictionary = (ofDictionary dictionary).bytes := by
  have hlength : (frame 1 2 dictionary).length - 4 = (padded 2 dictionary).length := by
    have hframe : frame 1 2 dictionary
        = [1, 0] ++ LittleEndian.encode 2 (padded 2 dictionary).length ++ padded 2 dictionary := rfl
    rw [hframe]
    simp only [List.length_append, List.length_cons, List.length_nil, LittleEndian.length_encode]
    omega
  unfold preamble ofDictionary
  dsimp only
  rw [hlength]
  split
  . rw [bytes_filled]
  . rw [bytes_filled]

/--
An opening as the format lays it out: the version is the first one that has room for the header, the
length of the header is exact, and the header is the dictionary, spaces up to a multiple of 64 and a
newline.
-/
structure Framed (o : Opening) (dictionary : List UInt8) : Prop where
  version : (o.major = 1 ∧ o.field.length = 2 ∧ o.header.length ≤ 65535) ∨
    (o.major = 2 ∧ o.field.length = 4 ∧ 65535 < (padded 2 dictionary).length ∧
      65535 < o.header.length)
  minor : o.minor = 0
  field : LittleEndian.decode o.field = o.header.length
  header : ∃ count < 64, o.header = dictionary ++ List.replicate count 0x20 ++ [0x0A]
  payload : 64 ∣ o.bytes.length

theorem Framed.valid {o : Opening} {dictionary : List UInt8} (h : o.Framed dictionary)
    : o.Valid := by
  refine ⟨?_, h.field⟩
  rcases h.version with ⟨hmajor, hfield, _⟩ | ⟨hmajor, hfield, _⟩
  . exact .inl ⟨hmajor, hfield⟩
  . exact .inr ⟨.inl hmajor, hfield⟩

theorem length_bytes (o : Opening) : o.bytes.length = 8 + o.field.length + o.header.length := by
  simp [bytes, magic]
  omega

theorem length_bytes_filled_le (major : UInt8) (width : Nat) (dictionary : List UInt8)
    : (filled major width dictionary).bytes.length ≤ dictionary.length + (width + 72) := by
  have hspaces := spaces_lt width dictionary
  rw [length_bytes]
  unfold filled
  rw [LittleEndian.length_encode, length_padded]
  unfold boundary at hspaces
  omega

theorem length_preamble_le (dictionary : List UInt8)
    : (preamble dictionary).length ≤ dictionary.length + 76 := by
  rw [preamble_eq]
  unfold ofDictionary
  split
  . exact Nat.le_trans (length_bytes_filled_le 1 2 dictionary) (by omega)
  . exact length_bytes_filled_le 2 4 dictionary

theorem dvd_length_bytes_filled (major : UInt8) (width : Nat) (dictionary : List UInt8)
    : 64 ∣ (filled major width dictionary).bytes.length := by
  rw [length_bytes]
  unfold filled
  rw [LittleEndian.length_encode, length_padded]
  unfold spaces boundary magic
  simp only [List.length_cons, List.length_nil]
  omega

theorem framed_ofDictionary {dictionary : List UInt8}
    (h : (ofDictionary dictionary).header.length < halfWordBound)
    : (ofDictionary dictionary).Framed dictionary := by
  unfold ofDictionary at h ⊢
  split at h
  . next hshort =>
    rw [if_pos hshort]
    refine ⟨.inl ⟨rfl, LittleEndian.length_encode _ _, hshort⟩, rfl, ?_,
      ⟨_, spaces_lt 2 dictionary, rfl⟩, dvd_length_bytes_filled _ _ _⟩
    apply LittleEndian.decode_encode_of_lt
    exact Nat.lt_succ_of_le hshort
  . next hlong =>
    rw [if_neg hlong]
    have hshort := Nat.lt_of_not_le hlong
    exact ⟨.inr ⟨rfl, LittleEndian.length_encode _ _, hshort, lt_length_padded hshort⟩, rfl,
      LittleEndian.decode_encode_of_lt h, ⟨_, spaces_lt 4 dictionary, rfl⟩,
      dvd_length_bytes_filled _ _ _⟩

/--
The opening of the stream that is written for a view.
-/
def ofView (v : View) : Opening :=
  ofDictionary (Utf8.encode (Header.dictionary ((descr? v.dtype).getD "") v.shape))

theorem ofView_eq {v : View} {descr : String} (h : descr? v.dtype = some descr)
    : ofView v = ofDictionary (Utf8.encode (Header.dictionary descr v.shape)) := by
  unfold ofView
  rw [h, Option.getD_some]

end Opening

theorem encode_eq_ok_iff {v : View} {stream : List UInt8}
    : encode v = .ok stream ↔ ∃ descr payload, descr? v.dtype = some descr ∧
        v.contiguousData tensorName = .ok payload ∧
        stream = (Opening.ofDictionary (Utf8.encode (Header.dictionary descr v.shape))).bytes
          ++ payload := by
  unfold encode
  cases hdescr : descr? v.dtype with
  | none => simp
  | some descr =>
    simp only [bind_eq_ok_iff, pure_eq_ok_iff, Opening.preamble_eq, Option.some.injEq]
    constructor
    . rintro ⟨payload, hpayload, rfl⟩
      exact ⟨descr, payload, rfl, hpayload, rfl⟩
    . rintro ⟨_, payload, rfl, hpayload, rfl⟩
      exact ⟨payload, hpayload, rfl⟩

/--
What is written for a view is laid out as the format says, with the bytes of the view behind a
multiple of 64 bytes.
-/
theorem framed_of_encode {v : View} {stream : List UInt8} (h : encode v = .ok stream)
    (hheader : (Opening.ofView v).header.length < halfWordBound)
    : ∃ descr payload, descr? v.dtype = some descr ∧ v.contiguousData tensorName = .ok payload ∧
        stream = (Opening.ofView v).bytes ++ payload ∧
        (Opening.ofView v).Framed (Utf8.encode (Header.dictionary descr v.shape)) := by
  obtain ⟨descr, payload, hdescr, hpayload, rfl⟩ := encode_eq_ok_iff.1 h
  have hopening := Opening.ofView_eq hdescr
  rw [hopening] at hheader ⊢
  exact ⟨descr, payload, hdescr, hpayload, rfl, Opening.framed_ofDictionary hheader⟩

/--
A tensor of two rows.
-/
def twoRows : Tensor := ⟨.u16, [2, 1], [1, 2, 3, 4], rfl⟩

theorem encode_twoRows
    : encode twoRows.toView = .ok ((Opening.ofView twoRows.toView).bytes ++ [1, 2, 3, 4]) :=
  encode_eq_ok_iff.2 ⟨"<u2", [1, 2, 3, 4], rfl, View.contiguousData_toView twoRows tensorName, rfl⟩

theorem framed_twoRows
    : (Opening.ofView twoRows.toView).header.length < halfWordBound ∧
      ∃ descr, (Opening.ofView twoRows.toView).Framed
        (Utf8.encode (Header.dictionary descr [2, 1])) := by
  have hheader : (Opening.ofView twoRows.toView).header.length < halfWordBound := by
    decide +kernel
  obtain ⟨descr, _, _, _, _, hframed⟩ := framed_of_encode encode_twoRows hheader
  exact ⟨hheader, descr, hframed⟩

end TensorFiles.Npy
