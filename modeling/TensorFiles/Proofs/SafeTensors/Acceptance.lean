import TensorFiles.Proofs.Gguf.SaveLoad
import TensorFiles.Proofs.SafeTensors.Shapes
/-!
This module contains which archives are stored in files, and which files that are written are read
back. Tensors and the table of strings share the fields of the header, so a tensor must not have the
name of the table, which nothing checks before the file is written.
-/

namespace TensorFiles.SafeTensors

/--
The tensor that is written for an entry of a table, unless its element type cannot be stored.
-/
def Prepared.ofTensor? (e : String × Tensor) : Option Prepared :=
  (ElementType.ofDType? e.2.dtype).map (fun type => ⟨e.1, type, e.2.shape, e.2.data⟩)

theorem Prepared.isSome_ofTensor?_iff {e : String × Tensor}
    : (ofTensor? e).isSome ↔ e.2.dtype ≠ .c64 := by
  unfold ofTensor?
  rw [Option.isSome_map]
  cases e.2.dtype <;> decide

theorem Prepared.data_of_ofTensor? {e : String × Tensor} {t : Prepared} (h : ofTensor? e = some t)
    : t.data = e.2.data := by
  obtain ⟨_, _, rfl⟩ := Option.map_eq_some_iff.1 h
  rfl

theorem ofView_toView_eq_ok_iff {e : String × Tensor} {t : Prepared}
    : Prepared.ofView e.1 e.2.toView = .ok t ↔ Prepared.ofTensor? e = some t := by
  unfold Prepared.ofTensor?
  rw [ofView_eq_ok_iff, Option.map_eq_some_iff]
  simp only [View.contiguousData_toView, Except.ok.injEq, exists_eq_left']
  exact exists_congr fun type => and_congr_right fun _ => eq_comm

namespace Archive

/--
The tensors in the order in which they are written.
-/
def arranged (archive : Archive) : List Prepared :=
  arrange (archive.tensors.entries.filterMap Prepared.ofTensor?)

/--
The bytes of the header of an archive.
-/
def header (archive : Archive) : List UInt8 :=
  encodeHeader (Header.toJson archive.metadata (place 0 archive.arranged))

/--
What an archive must be like to be stored. Element types and sizes must be those that a file can
declare, the names are free but for that of the table of strings, and the header has a longest
length.
-/
structure Storable (archive : Archive) : Prop where
  dtypes : ∀ e ∈ archive.tensors.entries, e.2.dtype ≠ .c64
  names : metadataKey ∉ archive.tensors.keys
  shapes : ∀ e ∈ archive.tensors.entries, Shape.Fits e.2.shape
  bits : ∀ e ∈ archive.tensors.entries, e.2.data.length * 8 < wordBound
  header : archive.header.length ≤ maxHeaderLength

end Archive

theorem encode_archive_eq_ok_iff {archive : Archive} {file : List UInt8}
    : encode (archive.tensors.map (fun _ t => t.toView)) archive.metadata = .ok file ↔
        (∀ e ∈ archive.tensors.entries, e.2.dtype ≠ .c64) ∧
        (∀ e ∈ archive.tensors.entries, e.2.data.length * 8 < wordBound) ∧
        archive.header.length ≤ maxHeaderLength ∧ file = image archive.metadata archive.arranged := by
  have hentries : (archive.tensors.map (fun _ t => t.toView)).entries
      = archive.tensors.entries.map (fun e => (e.1, e.2.toView)) := rfl
  simp only [encode_eq_ok_iff, hentries, List.forall₂_map_left_iff, ofView_toView_eq_ok_iff,
    forall₂_eq_some_iff, Prepared.isSome_ofTensor?_iff]
  constructor
  . rintro ⟨_, ⟨hdtypes, rfl⟩, hbits, hheader, hfile⟩
    refine ⟨hdtypes, ?_, hheader, hfile⟩
    intro e he
    obtain ⟨t, ht⟩ := Option.isSome_iff_exists.1 (Prepared.isSome_ofTensor?_iff.2 (hdtypes e he))
    rw [← Prepared.data_of_ofTensor? ht]
    exact hbits t (List.mem_filterMap.2 ⟨e, he, ht⟩)
  . rintro ⟨hdtypes, hbits, hheader, hfile⟩
    refine ⟨_, ⟨hdtypes, rfl⟩, ?_, hheader, hfile⟩
    intro t ht
    obtain ⟨e, he, ht⟩ := List.mem_filterMap.1 ht
    rw [Prepared.data_of_ofTensor? ht]
    exact hbits e he

/--
What has been decoded can be stored again, unless its header becomes too long.
-/
theorem Archive.Storable.of_decode {archive : Archive} {file : List UInt8}
    (h : decode file = .ok archive) (hheader : archive.header.length ≤ maxHeaderLength)
    : archive.Storable where
  dtypes := dtype_ne_c64_of_decode h
  names := metadataKey_not_mem_of_decode h
  shapes e he := (fits_of_decode h e he).2
  bits := (sizes_of_decode h).2.2
  header := hheader

theorem Archive.Storable.exists_decode_encode {archive : Archive} (h : archive.Storable)
    (htotal : (archive.tensors.entries.map (fun e => e.2.data.length)).sum < wordBound)
    : ∃ file, encode (archive.tensors.map (fun _ t => t.toView)) archive.metadata = .ok file ∧
        decode file = .ok archive := by
  have hencode := encode_archive_eq_ok_iff.2 ⟨h.dtypes, h.bits, h.header, rfl⟩
  exact ⟨_, hencode, decode_of_encode hencode htotal h.names h.shapes⟩

/--
A storable archive can be saved wherever a file can be made, and is loaded from there.
-/
theorem Archive.Storable.exists_save {archive : Archive} (h : archive.Storable)
    (htotal : (archive.tensors.entries.map (fun e => e.2.data.length)).sum < wordBound)
    {d : Disk} {path : String}
    (hpath : ∃ made, d.create (FileFormat.safeTensors.normalize path) = .ok made)
    : ∃ d', save d path (archive.tensors.map (fun _ t => t.toView)) archive.metadata
          = (.ok (FileFormat.safeTensors.normalize path), d') ∧
        load d' (FileFormat.safeTensors.normalize path) = .ok archive := by
  obtain ⟨file, hencode, hdecode⟩ := h.exists_decode_encode htotal
  obtain ⟨d', hwrite⟩ := Disk.exists_write_of_create hpath file
  obtain ⟨id, hfind⟩ := Disk.find_write hwrite
  exact ⟨d', save_eq_ok_iff.2 ⟨rfl, file, hencode, hwrite⟩,
    load_eq_ok_iff.2 ⟨id, file, hfind, hdecode⟩⟩

/--
Exactly the storable archives can be encoded such that decoding gives them back, if a machine word can
count the bytes of all tensors.
-/
theorem storable_iff {archive : Archive}
    (htotal : (archive.tensors.entries.map (fun e => e.2.data.length)).sum < wordBound)
    : archive.Storable ↔
        ∃ file, encode (archive.tensors.map (fun _ t => t.toView)) archive.metadata = .ok file ∧
          decode file = .ok archive := by
  constructor
  . exact fun h => h.exists_decode_encode htotal
  . rintro ⟨file, hencode, hdecode⟩
    obtain ⟨_, _, hheader, _⟩ := encode_archive_eq_ok_iff.1 hencode
    exact .of_decode hdecode hheader

/--
Tensors with names that are empty, quoted or not ASCII, two of them without elements, and a string
that looks like a header.
-/
def mixedArchive : Archive where
  tensors := .ofList [("", Tensor.zeros .f64 [1, 0]), ("\"ä\\", Tensor.zeros .f32 [3]),
    ("a", Tensor.zeros .bf16 [0]), ("😀", Tensor.zeros .u8 [2])]
  metadata := .ofList [("k", "\x7b\"a\": [1, null]\x7d\n"), ("", "é")]

theorem storable_iff_mixedArchive
    : ∃ file, encode (mixedArchive.tensors.map (fun _ t => t.toView)) mixedArchive.metadata
          = .ok file ∧ decode file = .ok mixedArchive := by
  have hshapes : ∀ e ∈ mixedArchive.tensors.entries, Shape.Fits e.2.shape := by
    have hentries : mixedArchive.tensors.entries
        = [("", Tensor.zeros .f64 [1, 0]), ("\"ä\\", Tensor.zeros .f32 [3]),
          ("a", Tensor.zeros .bf16 [0]), ("😀", Tensor.zeros .u8 [2])] := rfl
    rw [hentries]
    simp only [List.forall_mem_cons, List.not_mem_nil, false_implies, implies_true, and_true]
    exact ⟨⟨by decide, by decide⟩, ⟨by decide, by decide⟩, ⟨by decide, by decide⟩,
      ⟨by decide, by decide⟩⟩
  have harranged : mixedArchive.arranged
      = mixedArchive.tensors.entries.filterMap Prepared.ofTensor? :=
    List.mergeSort_of_pairwise (by decide +kernel)
  have hheader : mixedArchive.header.length ≤ maxHeaderLength := by
    unfold Archive.header
    rw [harranged]
    decide +kernel
  exact (storable_iff (by decide +kernel)).1
    ⟨by decide +kernel, by decide +kernel, hshapes, by decide +kernel, hheader⟩

/--
The tensor that a view is read back as.
-/
theorem exists_tensor_of_ofView {e : String × View} {t : Prepared}
    (h : Prepared.ofView e.1 e.2 = .ok t) : ∃ l, Gguf.Loads e l ∧ Prepares l t := by
  obtain ⟨type, htype, data, hdata, rfl⟩ := ofView_eq_ok_iff.1 h
  obtain ⟨x, hx⟩ := Tensor.exists_ofBytes_iff.2
    ⟨View.small_of_contiguousData hdata, View.length_of_contiguousData hdata⟩
  obtain ⟨hdtype, hshape, rfl⟩ := Tensor.ofBytes_eq_ok_iff.1 hx
  exact ⟨(e.1, x), ⟨rfl, hdtype, hshape, hdata⟩,
    rfl, (ElementType.dtype?_of_ofDType? htype).trans (congrArg some hdtype.symm), hshape.symm, rfl⟩

theorem exists_tensors_of_forall₂ {entries : List (String × View)} {prepared : List Prepared}
    (h : List.Forall₂ (fun e t => Prepared.ofView e.1 e.2 = .ok t) entries prepared)
    : ∃ ls, List.Forall₂ Gguf.Loads entries ls ∧ List.Forall₂ Prepares ls prepared := by
  induction h with
  | nil => exact ⟨[], .nil, .nil⟩
  | cons hview _ ih =>
    obtain ⟨l, hload, hprepares⟩ := exists_tensor_of_ofView hview
    obtain ⟨ls, hloads, hall⟩ := ih
    exact ⟨l :: ls, .cons hload hloads, .cons hprepares hall⟩

theorem exists_tensors_of_encode {views : Table View} {metadata : Table String} {file : List UInt8}
    (h : encode views metadata = .ok file)
    : ∃ (tensors : Table Tensor) (arranged : List Prepared),
        List.Forall₂ Gguf.Loads views.entries tensors.entries ∧ Arranges tensors arranged ∧
          (∀ e ∈ tensors.entries, e.2.data.length * 8 < wordBound) ∧
          (encodeHeader (Header.toJson metadata (place 0 arranged))).length ≤ maxHeaderLength ∧
          file = image metadata arranged := by
  obtain ⟨prepared, hprepared, hbits, hheader, hfile⟩ := encode_eq_ok_iff.1 h
  obtain ⟨ls, hloads, hprepares⟩ := exists_tensors_of_forall₂ hprepared
  have hkeys : ls.map (·.1) = views.keys := Gguf.keys_eq_of_forall₂_loads hloads
  obtain ⟨tensors, rfl⟩ := Table.exists_table_of_keys hkeys
  refine ⟨tensors, arrange prepared, hloads, arranges_arrange hprepares, ?_, hheader, hfile⟩
  intro e he
  obtain ⟨t, ht, hprepare⟩ := exists_left_of_forall₂ hprepares.flip he
  rw [← hprepare.data]
  exact hbits t ht

namespace Arranges

variable {tensors : Table Tensor} {metadata : Table String} {arranged : List Prepared}

theorem exists_mem_place (h : Arranges tensors arranged) {e : String × Tensor}
    (he : e ∈ tensors.entries)
    : ∃ entry ∈ place 0 arranged, entry.1 = e.1 ∧ entry.2.shape = e.2.shape := by
  obtain ⟨entries, hperm, hmatch⟩ := h.exists_entries
  obtain ⟨entry, hentry, t, hplaces, hprepares⟩ :=
    exists_left_of_forall₂ hmatch (hperm.mem_iff.2 he)
  exact ⟨entry, hentry, hplaces.name.trans hprepares.name, hplaces.shape.trans hprepares.shape⟩

/--
A tensor with the name of the table of strings makes the whole file unreadable.
-/
theorem decode_image_of_mem (h : Arranges tensors arranged)
    (hdims : ∀ e ∈ tensors.entries, ∀ d ∈ e.2.shape, d < wordBound)
    (htotal : totalLength arranged < wordBound)
    (hheader : (encodeHeader (Header.toJson metadata (place 0 arranged))).length ≤ maxHeaderLength)
    (hname : metadataKey ∈ tensors.keys)
    : decode (image metadata arranged) = .error (.safeTensors .headerNotJson) := by
  obtain ⟨e, he, hkey⟩ := List.mem_map.1 hname
  obtain ⟨entry, hentry, hentryName, _⟩ := h.exists_mem_place he
  have hjson : Header.ofJson? (Header.toJson metadata (place 0 arranged)) = none :=
    Header.ofJson?_toJson_of_mem (List.mem_map.2 ⟨entry, hentry, hentryName.trans hkey⟩)
  have hread := h.decodeHeader_image hdims htotal hheader
  rw [hjson, Option.elim_none] at hread
  unfold decode
  rw [hread]
  rfl

/--
What the tensors of a file that is read back must be like.
-/
theorem of_decode_image (h : Arranges tensors arranged)
    (hdims : ∀ e ∈ tensors.entries, ∀ d ∈ e.2.shape, d < wordBound)
    (htotal : totalLength arranged < wordBound)
    (hheader : (encodeHeader (Header.toJson metadata (place 0 arranged))).length ≤ maxHeaderLength)
    {archive : Archive} (hdecode : decode (image metadata arranged) = .ok archive)
    : metadataKey ∉ tensors.keys ∧ ∀ e ∈ tensors.entries, Shape.Fits e.2.shape := by
  have hnames : metadataKey ∉ tensors.keys := by
    intro hname
    rw [h.decode_image_of_mem hdims htotal hheader hname] at hdecode
    simp at hdecode
  refine ⟨hnames, ?_⟩
  -- the entries that are checked are those of the tensors, in some order
  obtain ⟨header, data, _, hread, hend, _⟩ := decode_eq_ok_iff.1 hdecode
  rw [h.decodeHeader_image hdims htotal hheader, h.ofJson?_toJson hnames, Option.elim_some,
    Except.ok.injEq, Prod.mk.injEq] at hread
  obtain ⟨rfl, rfl⟩ := hread
  intro e he
  obtain ⟨entry, hentry, _, hshape⟩ := h.exists_mem_place he
  have hsized := Header.sized_of_endFrom hend entry (h.layout_perm_place.mem_iff.2 hentry)
  exact ⟨hdims e he, hshape ▸ hsized.fits.1⟩

end Arranges

/--
Which files that have been written are read back: those of tensors none of which has the name of the
table of strings, and whose shapes stay within a machine word on the way to their products. They are
read back as they were.
-/
theorem decodes_iff_of_encode {views : Table View} {metadata : Table String} {file : List UInt8}
    (h : encode views metadata = .ok file)
    (hdims : ∀ e ∈ views.entries, ∀ d ∈ e.2.shape, d < wordBound) (hfile : file.length < wordBound)
    : ((∃ archive, decode file = .ok archive) ↔
          metadataKey ∉ views.keys ∧ ∀ e ∈ views.entries, Shape.Fits e.2.shape) ∧
      (metadataKey ∈ views.keys → decode file = .error (.safeTensors .headerNotJson)) ∧
      (∀ archive, decode file = .ok archive → archive.metadata = metadata ∧
        List.Forall₂ Gguf.Loads views.entries archive.tensors.entries) := by
  obtain ⟨tensors, arranged, hloads, harranges, hbits, hheader, rfl⟩ := exists_tensors_of_encode h
  have htotal : totalLength arranged < wordBound :=
    Nat.lt_of_le_of_lt (totalLength_le_image metadata arranged) hfile
  have hkeys : tensors.keys = views.keys := Gguf.keys_eq_of_forall₂_loads hloads
  have hshapes (p : List Nat → Prop)
      : (∀ e ∈ views.entries, p e.2.shape) ↔ ∀ e ∈ tensors.entries, p e.2.shape :=
    forall_iff_of_forall₂ hloads (fun e l hl => by rw [hl.shape])
  have hdims' := (hshapes (fun shape => ∀ d ∈ shape, d < wordBound)).1 hdims
  rw [← hkeys, hshapes]
  have hdecoded (hgood : metadataKey ∉ tensors.keys ∧ ∀ e ∈ tensors.entries, Shape.Fits e.2.shape)
      : decode (image metadata arranged) = .ok ⟨tensors, metadata⟩ :=
    harranges.decode_image hgood.2 hbits hheader htotal hgood.1
  refine ⟨⟨?_, ?_⟩, ?_, ?_⟩
  . rintro ⟨archive, hdecode⟩
    exact harranges.of_decode_image hdims' htotal hheader hdecode
  . exact fun hgood => ⟨_, hdecoded hgood⟩
  . exact fun hname => harranges.decode_image_of_mem hdims' htotal hheader hname
  . intro archive hdecode
    rw [hdecoded (harranges.of_decode_image hdims' htotal hheader hdecode), Except.ok.injEq]
      at hdecode
    rw [← hdecode]
    exact ⟨rfl, hloads⟩

/--
A single tensor with the name of the table of strings.
-/
def reservedName : Table View :=
  .ofList [(metadataKey, (⟨.u8, [1], [7], rfl⟩ : Tensor).toView)]

theorem decodes_iff_of_encode_reservedName
    : ∃ file, encode reservedName .empty = .ok file ∧
        decode file = .error (.safeTensors .headerNotJson) := by
  obtain ⟨file, hfile⟩ : ∃ file, encode reservedName .empty = .ok file :=
    isSome_toOption_iff.1 (by decide +kernel)
  have hlength : (encode reservedName .empty).toOption.all (·.length < wordBound) := by
    decide +kernel
  rw [hfile] at hlength
  obtain ⟨_, hrefused, _⟩ := decodes_iff_of_encode hfile (by decide +kernel)
    (of_decide_eq_true hlength)
  exact ⟨file, hfile, hrefused (by decide +kernel)⟩

end TensorFiles.SafeTensors
