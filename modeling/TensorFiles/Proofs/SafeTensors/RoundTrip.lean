import Mathlib.Data.List.Perm.Basic
import TensorFiles.Proofs.Bytes.LittleEndian
import TensorFiles.Proofs.Bytes.Utf8
import TensorFiles.Proofs.Disk
import TensorFiles.Proofs.Gguf.Reads
import TensorFiles.Proofs.SafeTensors.Header
import TensorFiles.Proofs.SafeTensors.Layout
import TensorFiles.Proofs.Tensor.View
/-!
This module contains the round trip of archives: tensors and strings that are encoded are decoded
again.
-/

namespace TensorFiles.SafeTensors

/--
A tensor that is ready to be written.
-/
structure Prepares (e : String × Tensor) (t : Prepared) : Prop where
  name : t.name = e.1
  dtype : t.type.dtype? = some e.2.dtype
  shape : t.shape = e.2.shape
  data : t.data = e.2.data

theorem ofView_eq_ok_iff {name : String} {v : View} {t : Prepared}
    : Prepared.ofView name v = .ok t ↔
        ∃ type, ElementType.ofDType? v.dtype = some type ∧
          ∃ data, v.contiguousData name = .ok data ∧ t = ⟨name, type, v.shape, data⟩ := by
  unfold Prepared.ofView
  split
  . next hnone => simp [hnone]
  . next type htype =>
    simp only [htype, bind_eq_ok_iff, pure_eq_ok_iff, Option.some.injEq, exists_eq_left']
    exact exists_congr fun data => and_congr_right fun _ => eq_comm

theorem prepares_of_ofView {e : String × Tensor} {t : Prepared}
    (h : Prepared.ofView e.1 e.2.toView = .ok t) : Prepares e t := by
  obtain ⟨type, htype, data, hdata, rfl⟩ := ofView_eq_ok_iff.1 h
  rw [View.contiguousData_toView, Except.ok.injEq] at hdata
  exact ⟨rfl, ElementType.dtype?_of_ofDType? htype, rfl, hdata.symm⟩

theorem check_eq_ok_iff {t : Prepared} : t.check = .ok () ↔ t.data.length * 8 < wordBound := by
  unfold Prepared.check
  split
  . next h => simp [h]
  . next h => simp [h]

/--
The bytes of an archive whose tensors are in the order in which they are written.
-/
def image (metadata : Table String) (tensors : List Prepared) : List UInt8 :=
  let header := encodeHeader (Header.toJson metadata (place 0 tensors))
  LittleEndian.encode lengthWidth header.length ++ header ++ tensors.flatMap (·.data)

theorem totalLength_le_image (metadata : Table String) (tensors : List Prepared)
    : totalLength tensors ≤ (image metadata tensors).length := by
  unfold image
  rw [List.length_append, length_flatMap_data]
  exact Nat.le_add_left _ _

theorem encode_eq_ok_iff {views : Table View} {metadata : Table String} {file : List UInt8}
    : encode views metadata = .ok file ↔
        ∃ prepared, List.Forall₂ (fun e t => Prepared.ofView e.1 e.2 = .ok t) views.entries prepared ∧
          (∀ t ∈ prepared, t.data.length * 8 < wordBound) ∧
          (encodeHeader (Header.toJson metadata (place 0 (arrange prepared)))).length
            ≤ maxHeaderLength ∧
          file = image metadata (arrange prepared) := by
  unfold encode
  rw [bind_eq_ok_iff]
  apply exists_congr
  intro prepared
  have hchecks : prepared.forM Prepared.check = .ok () ↔
      ∀ t ∈ prepared, t.data.length * 8 < wordBound := by
    simp only [← check_eq_ok_iff]
    exact forM_eq_ok_iff
  rw [mapM_eq_ok_iff]
  apply and_congr_right
  intro _
  rw [bind_eq_ok_iff]
  constructor
  . rintro ⟨⟨⟩, hsmall, h⟩
    dsimp only at h
    split at h
    . rw [bind_eq_ok_iff] at h
      simp at h
    . next hheader =>
      rw [pure_eq_ok_iff] at h
      exact ⟨hchecks.1 hsmall, Nat.not_lt.1 hheader, h.symm⟩
  . rintro ⟨hsmall, hheader, rfl⟩
    refine ⟨(), hchecks.2 hsmall, ?_⟩
    dsimp only
    rw [if_neg (Nat.not_lt.2 hheader)]
    rfl

theorem exists_prepared_of_encode {tensors : Table Tensor} {metadata : Table String}
    {file : List UInt8} (h : encode (tensors.map (fun _ t => t.toView)) metadata = .ok file)
    : ∃ prepared, List.Forall₂ Prepares tensors.entries prepared ∧
        (∀ t ∈ prepared, t.data.length * 8 < wordBound) ∧
        (encodeHeader (Header.toJson metadata (place 0 (arrange prepared)))).length
          ≤ maxHeaderLength ∧
        file = image metadata (arrange prepared) := by
  obtain ⟨prepared, hprepared, hrest⟩ := encode_eq_ok_iff.1 h
  have hviews : (tensors.map (fun _ t => t.toView)).entries
      = tensors.entries.map (fun e => (e.1, e.2.toView)) := rfl
  rw [hviews, List.forall₂_map_left_iff] at hprepared
  exact ⟨prepared, hprepared.imp (fun _ _ => prepares_of_ofView), hrest⟩

theorem exists_encodeHeader_eq (header : Json)
    : ∃ blanks, (∀ c ∈ blanks, c = ' ') ∧
        encodeHeader header = Utf8.encodeChars (header.print ++ blanks) := by
  refine ⟨List.replicate ((lengthWidth - (Utf8.encodeChars header.print).length % lengthWidth)
    % lengthWidth) ' ', ?_, ?_⟩
  . intro c hc
    exact (List.mem_replicate.1 hc).2
  . unfold encodeHeader
    rw [Utf8.encodeChars_append, Utf8.encodeChars_spaces]

/--
The header that is read from the front of a file, with the bytes behind it.
-/
theorem decodeHeader_encodeHeader {json : Json} (hplain : json.Plain Json.maxDepth)
    (hsmall : (encodeHeader json).length ≤ maxHeaderLength) (data : List UInt8)
    : decodeHeader (LittleEndian.encode lengthWidth (encodeHeader json).length
        ++ encodeHeader json ++ data)
          = (Header.ofJson? json).elim (.error .headerNotJson) (fun header => .ok (header, data)) := by
  obtain ⟨blanks, hblanks, htext⟩ := exists_encodeHeader_eq json
  have hdecode : Utf8.decode (encodeHeader json) = .ok (json.print ++ blanks) := by
    rw [htext, Utf8.decode_encodeChars]
  have hparse := Json.parse?_print hplain hblanks
  generalize encodeHeader json = bytes at hsmall hdecode ⊢
  have hwidth : (LittleEndian.encode lengthWidth bytes.length).length = lengthWidth :=
    LittleEndian.length_encode _ _
  have hlength : LittleEndian.decode (LittleEndian.encode lengthWidth bytes.length)
      = bytes.length := by
    apply LittleEndian.decode_encode_of_lt
    unfold lengthWidth
    rw [LittleEndian.bound_eight]
    unfold maxHeaderLength at hsmall
    unfold wordBound
    omega
  have hlarge : ¬ (LittleEndian.encode lengthWidth bytes.length ++ (bytes ++ data)).length
      < lengthWidth := by
    rw [List.length_append, hwidth]
    omega
  have htake : (LittleEndian.encode lengthWidth bytes.length ++ (bytes ++ data)).take lengthWidth
      = LittleEndian.encode lengthWidth bytes.length := List.take_left' hwidth
  have hdrop : (LittleEndian.encode lengthWidth bytes.length ++ (bytes ++ data)).drop lengthWidth
      = bytes ++ data := List.drop_left' hwidth
  have hrest : ¬ (bytes ++ data).length < bytes.length := by
    rw [List.length_append]
    omega
  rw [List.append_assoc]
  unfold decodeHeader
  simp only [if_neg hlarge, htake, hlength, if_neg (Nat.not_lt.2 hsmall), hdrop, if_neg hrest,
    List.take_left, List.drop_left, hdecode, hparse, Option.bind_some, bind, Except.bind]
  cases Header.ofJson? json with
  | none => rfl
  | some header => rfl

theorem sized_of_places {data : List UInt8} {e : String × Tensor} {t : Prepared}
    {entry : String × Entry} (hprepares : Prepares e t) (hplaces : Places data t entry)
    (hfits : Shape.Fits e.2.shape) (hsmall : t.data.length * 8 < wordBound) : Sized entry := by
  obtain ⟨n, hproduct⟩ := Option.isSome_iff_exists.1 hfits.product
  have hn := Shape.eq_of_productFrom? hproduct
  rw [Nat.one_mul] at hn
  have hbits := ElementType.bits_of_dtype? hprepares.dtype
  have hlength : t.data.length = n * e.2.dtype.size := by
    rw [hprepares.data, e.2.length_data, hn]
  have htotal : n * t.type.bits = t.data.length * 8 := by
    rw [hbits, hlength, Nat.mul_comm 8, Nat.mul_assoc]
  refine ⟨?_, ?_⟩
  . rw [hplaces.length]
    exact Nat.le_add_right _ _
  . unfold Header.size
    rw [hplaces.shape, hprepares.shape, hproduct, Option.bind_some, hplaces.type]
    unfold Shape.productFrom? Shape.productFrom?
    rw [htotal, if_pos hsmall, hplaces.length]
    simp

/--
The tensor of an entry with its name.
-/
def loadEntry (data : List UInt8) (entry : String × Entry) : Except Error (String × Tensor) := do
  let t ← tensorOf data entry.1 entry.2
  return (entry.1, t)

theorem loadEntry_eq_ok_iff {data : List UInt8} {entry : String × Entry} {e : String × Tensor}
    : loadEntry data entry = .ok e ↔
        e.1 = entry.1 ∧ entry.2.type.dtype? = some e.2.dtype ∧ e.2.shape = entry.2.shape ∧
          e.2.data = (data.drop entry.2.start).take (entry.2.stop - entry.2.start) := by
  unfold loadEntry tensorOf
  rw [bind_eq_ok_iff]
  simp only [pure_eq_ok_iff]
  constructor
  . rintro ⟨t, ht, rfl⟩
    split at ht
    . simp at ht
    . next dtype hdtype =>
      obtain ⟨rfl, hshape, hdata⟩ := Tensor.ofBytes_eq_ok_iff.1 ht
      exact ⟨rfl, hdtype, hshape, hdata⟩
  . rintro ⟨hname, hdtype, hshape, hdata⟩
    refine ⟨e.2, ?_, Prod.ext hname.symm rfl⟩
    rw [hdtype]
    exact Tensor.ofBytes_eq_ok_iff.2 ⟨rfl, hshape, hdata⟩

theorem loadEntry_of_places {data : List UInt8} {e : String × Tensor} {t : Prepared}
    {entry : String × Entry} (hprepares : Prepares e t) (hplaces : Places data t entry)
    : loadEntry data entry = .ok e := by
  refine loadEntry_eq_ok_iff.2 ⟨?_, ?_, ?_, ?_⟩
  . rw [hplaces.name, hprepares.name]
  . rw [hplaces.type, hprepares.dtype]
  . rw [hplaces.shape, hprepares.shape]
  . rw [hplaces.bytes, hprepares.data]

theorem names_place {start : Nat} {tensors : List Prepared}
    : (place start tensors).map (·.1) = tensors.map (·.name) := by
  induction tensors generalizing start with
  | nil => rfl
  | cons t tensors ih => rw [place, List.map_cons, List.map_cons, ih]

theorem names_of_prepares {entries : List (String × Tensor)} {prepared : List Prepared}
    (h : List.Forall₂ Prepares entries prepared)
    : prepared.map (·.name) = entries.map (·.1) := by
  induction h with
  | nil => rfl
  | cons hprepares _ ih => rw [List.map_cons, List.map_cons, hprepares.name, ih]

theorem totalLength_of_prepares {entries : List (String × Tensor)} {prepared : List Prepared}
    (h : List.Forall₂ Prepares entries prepared)
    : totalLength prepared = (entries.map (fun e => e.2.data.length)).sum := by
  induction h with
  | nil => rfl
  | cons hprepares _ ih => rw [totalLength_cons, ih, hprepares.data, List.map_cons, List.sum_cons]

theorem decode_eq_ok_iff {file : List UInt8} {archive : Archive}
    : decode file = .ok archive ↔ ∃ header data loaded,
        decodeHeader file = .ok (header, data) ∧
          Header.endFrom 0 header.layout = .ok data.length ∧
          header.layout.mapM (loadEntry data) = .ok loaded ∧
          archive = ⟨Table.ofList loaded, header.metadata⟩ := by
  unfold decode
  constructor
  . intro h
    dsimp only at h
    split at h
    . simp at h
    . next header data hchecked =>
      rw [bind_eq_ok_iff] at hchecked
      obtain ⟨⟨header', data'⟩, hheader, hchecked⟩ := hchecked
      rw [bind_eq_ok_iff] at hchecked
      obtain ⟨stop, hend, hchecked⟩ := hchecked
      dsimp only at hend hchecked
      split at hchecked
      . simp only [throw_bind, throw_ne_ok] at hchecked
      . next hcovered =>
        rw [pure_eq_ok_iff, Prod.mk.injEq] at hchecked
        obtain ⟨rfl, rfl⟩ := hchecked
        rw [bind_eq_ok_iff] at h
        obtain ⟨loaded, hloaded, h⟩ := h
        rw [pure_eq_ok_iff] at h
        rw [Decidable.not_not.1 hcovered] at hend
        exact ⟨header', data', loaded, hheader, hend, hloaded, h.symm⟩
  . rintro ⟨header, data, loaded, hheader, hend, hloaded, rfl⟩
    simp only [hheader, hend, bind, Except.bind, ne_eq, not_true_eq_false, if_false]
    exact bind_eq_ok_iff.2 ⟨loaded, hloaded, rfl⟩

/--
The tensors of a table in the order in which they are written.
-/
def Arranges (tensors : Table Tensor) (arranged : List Prepared) : Prop :=
  ∃ entries, List.Forall₂ Prepares entries arranged ∧ entries.Perm tensors.entries

theorem arranges_arrange {tensors : Table Tensor} {prepared : List Prepared}
    (h : List.Forall₂ Prepares tensors.entries prepared) : Arranges tensors (arrange prepared) := by
  obtain ⟨entries, hentries, hperm⟩ :=
    List.perm_comp_forall₂ (arrange_perm prepared) h.flip
  exact ⟨entries, hentries.flip, hperm⟩

namespace Arranges

variable {tensors : Table Tensor} {metadata : Table String} {arranged : List Prepared}

theorem totalLength_eq (h : Arranges tensors arranged)
    : totalLength arranged = (tensors.entries.map (fun e => e.2.data.length)).sum := by
  obtain ⟨entries, hentries, hperm⟩ := h
  rw [totalLength_of_prepares hentries]
  exact (hperm.map _).sum_nat

/--
Each entry that is placed is that of a tensor.
-/
theorem exists_entries (h : Arranges tensors arranged)
    : ∃ entries, entries.Perm tensors.entries ∧
        List.Forall₂ (fun entry e => ∃ t, Places (arranged.flatMap (·.data)) t entry ∧ Prepares e t)
          (place 0 arranged) entries := by
  obtain ⟨entries, hentries, hperm⟩ := h
  exact ⟨entries, hperm, forall₂_of_forall₂ (forall₂_places [] arranged) hentries.flip⟩

theorem exists_of_mem_place (h : Arranges tensors arranged) {entry : String × Entry}
    (hentry : entry ∈ place 0 arranged)
    : ∃ e ∈ tensors.entries, ∃ t, Places (arranged.flatMap (·.data)) t entry ∧ Prepares e t := by
  obtain ⟨entries, hperm, hmatch⟩ := h.exists_entries
  obtain ⟨e, he, t, ht⟩ := exists_left_of_forall₂ hmatch.flip hentry
  exact ⟨e, hperm.mem_iff.1 he, t, ht⟩

theorem nodup_place (h : Arranges tensors arranged) : ((place 0 arranged).map (·.1)).Nodup := by
  obtain ⟨entries, hentries, hperm⟩ := h
  rw [names_place, names_of_prepares hentries, (hperm.map (·.1)).nodup_iff]
  exact tensors.keys_nodup

theorem sized (h : Arranges tensors arranged)
    (hshapes : ∀ e ∈ tensors.entries, Shape.Fits e.2.shape)
    (hsmall : ∀ e ∈ tensors.entries, e.2.data.length * 8 < wordBound)
    : ∀ entry ∈ place 0 arranged, Sized entry := by
  intro entry hentry
  obtain ⟨e, he, t, hplaces, hprepares⟩ := h.exists_of_mem_place hentry
  refine sized_of_places hprepares hplaces (hshapes e he) ?_
  rw [hprepares.data]
  exact hsmall e he

theorem ofJson?_toJson (h : Arranges tensors arranged) (hnames : metadataKey ∉ tensors.keys)
    : Header.ofJson? (Header.toJson metadata (place 0 arranged))
        = some ⟨metadata, Table.ofList (place 0 arranged)⟩ := by
  apply Header.ofJson?_toJson
  intro entry hentry hname
  obtain ⟨e, he, t, hplaces, hprepares⟩ := h.exists_of_mem_place hentry
  rw [hplaces.name, hprepares.name] at hname
  rw [← hname] at hnames
  exact hnames (List.mem_map_of_mem he)

theorem plain_toJson (h : Arranges tensors arranged)
    (hdims : ∀ e ∈ tensors.entries, ∀ d ∈ e.2.shape, d < wordBound)
    (htotal : totalLength arranged < wordBound)
    : Json.Plain Json.maxDepth (Header.toJson metadata (place 0 arranged)) := by
  apply Header.plain_toJson
  . intro entry hentry
    obtain ⟨e, he, t, hplaces, hprepares⟩ := h.exists_of_mem_place hentry
    rw [hplaces.shape, hprepares.shape]
    exact hdims e he
  . intro entry hentry
    have := le_of_mem_place entry hentry
    omega

/--
Whatever the order in which the entries are read, they give the same tensors.
-/
theorem exists_loaded (h : Arranges tensors arranged) {l : List (String × Entry)}
    (hperm : l.Perm (place 0 arranged))
    : ∃ loaded, l.mapM (loadEntry (arranged.flatMap (·.data))) = .ok loaded ∧
        Table.ofList loaded = tensors := by
  obtain ⟨entries, hentriesPerm, hmatch⟩ := h.exists_entries
  have hloads : List.Forall₂ (fun entry e => loadEntry (arranged.flatMap (·.data)) entry = .ok e)
      (place 0 arranged) entries :=
    hmatch.imp (fun _ _ ⟨_, hplaces, hprepares⟩ => loadEntry_of_places hprepares hplaces)
  obtain ⟨loaded, hloaded, hloadedPerm⟩ := List.perm_comp_forall₂ hperm hloads
  refine ⟨loaded, mapM_eq_ok_iff.2 hloaded, ?_⟩
  have hsame := Table.insertAll_eq_of_perm tensors.keys_nodup
    (hloadedPerm.trans hentriesPerm).symm .empty
  rw [tensors.insertAll_entries] at hsame
  exact hsame

theorem decodeHeader_image (h : Arranges tensors arranged)
    (hdims : ∀ e ∈ tensors.entries, ∀ d ∈ e.2.shape, d < wordBound)
    (htotal : totalLength arranged < wordBound)
    (hheader : (encodeHeader (Header.toJson metadata (place 0 arranged))).length ≤ maxHeaderLength)
    : decodeHeader (image metadata arranged)
        = (Header.ofJson? (Header.toJson metadata (place 0 arranged))).elim
          (.error .headerNotJson) (fun header => .ok (header, arranged.flatMap (·.data))) :=
  decodeHeader_encodeHeader (h.plain_toJson hdims htotal) hheader _

/--
The entries that are read, in the order in which they are read.
-/
theorem layout_perm_place (h : Arranges tensors arranged)
    : (Header.layout ⟨metadata, Table.ofList (place 0 arranged)⟩).Perm (place 0 arranged) :=
  (Header.layout_perm _).trans (Table.entries_ofList_perm h.nodup_place)

/--
An archive is decoded as what has been encoded. No tensor may have the name of the table of strings.
-/
theorem decode_image (h : Arranges tensors arranged)
    (hshapes : ∀ e ∈ tensors.entries, Shape.Fits e.2.shape)
    (hsmall : ∀ e ∈ tensors.entries, e.2.data.length * 8 < wordBound)
    (hheader : (encodeHeader (Header.toJson metadata (place 0 arranged))).length ≤ maxHeaderLength)
    (htotal : totalLength arranged < wordBound) (hnames : metadataKey ∉ tensors.keys)
    : decode (image metadata arranged) = .ok ⟨tensors, metadata⟩ := by
  let header : Header := ⟨metadata, Table.ofList (place 0 arranged)⟩
  have hread := h.decodeHeader_image (fun e he => (hshapes e he).dims) htotal hheader
  rw [h.ofJson?_toJson hnames, Option.elim_some] at hread
  have hperm : header.layout.Perm (place 0 arranged) := h.layout_perm_place
  have hranges := Header.map_range_eq hperm header.pairwise_layout (pairwise_place 0 arranged)
  have hsized : ∀ entry ∈ header.layout, Sized entry :=
    fun entry hentry => h.sized hshapes hsmall entry (hperm.mem_iff.1 hentry)
  have hend := endFrom_of_map_range hranges hsized
  rw [Nat.zero_add, ← length_flatMap_data] at hend
  obtain ⟨loaded, hloaded, htable⟩ := h.exists_loaded hperm
  rw [← htable]
  exact decode_eq_ok_iff.2 ⟨header, _, loaded, hread, hend, hloaded, rfl⟩

end Arranges

/--
Decoding undoes encoding.
-/
theorem decode_of_encode {tensors : Table Tensor} {metadata : Table String} {file : List UInt8}
    (h : encode (tensors.map (fun _ t => t.toView)) metadata = .ok file)
    (htotal : (tensors.entries.map (fun e => e.2.data.length)).sum < wordBound)
    (hnames : metadataKey ∉ tensors.keys) (hshapes : ∀ e ∈ tensors.entries, Shape.Fits e.2.shape)
    : decode file = .ok ⟨tensors, metadata⟩ := by
  obtain ⟨prepared, hprepares, hsmall, hheader, rfl⟩ := exists_prepared_of_encode h
  have harranges := arranges_arrange hprepares
  rw [← harranges.totalLength_eq] at htotal
  refine harranges.decode_image hshapes ?_ hheader htotal hnames
  intro e he
  obtain ⟨t, ht, hprepare⟩ := exists_left_of_forall₂ hprepares.flip he
  rw [← hprepare.data]
  exact hsmall t ht

theorem save_eq_ok_iff {d d' : Disk} {path written : String} {tensors : Table View}
    {metadata : Table String}
    : save d path tensors metadata = (.ok written, d') ↔
        FileFormat.safeTensors.normalize path = written ∧
          ∃ file, encode tensors metadata = .ok file ∧
            d.write (FileFormat.safeTensors.normalize path) file = .ok d' := by
  unfold save
  cases encode tensors metadata with
  | error e => simp
  | ok file =>
    cases hwrite : d.write (FileFormat.safeTensors.normalize path) file with
    | error failure => simp [hwrite]
    | ok d₁ => simp [hwrite]

theorem load_eq_ok_iff {d : Disk} {path : String} {archive : Archive}
    : load d path = .ok archive ↔
        ∃ id file, d.find path = .ok (.file id file) ∧ decode file = .ok archive := by
  unfold load
  constructor
  . intro h
    split at h
    . simp at h
    . next id file hmap => exact ⟨id, file, Disk.find_of_map hmap, h⟩
  . rintro ⟨id, file, hfind, hdecode⟩
    rw [Disk.map_of_find hfind]
    exact hdecode

end TensorFiles.SafeTensors
