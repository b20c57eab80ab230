import TensorFiles.Proofs.Gguf.Shapes
import TensorFiles.Proofs.Gguf.Texts
/-!
This module contains files against the limit on the length of texts. A file is cut into the same parts
under every limit that its texts keep to, and what inspecting it gives is decided by its parts alone.
-/

namespace TensorFiles.Gguf

variable {α : Type} {n limit limit' : Nat} {rest rest' : List UInt8}

namespace Piece

variable {read : Read α} {texts : List UInt8 → List (List UInt8)}

theorem length_le (hread : LimitedBy read texts) (p : Piece read limit)
    : ∀ raw ∈ texts p.bytes, raw.length ≤ limit :=
  (hread p.bytes limit p.value p.reads limit).1 p.reads

/--
Pieces are also pieces under any other limit that their texts keep to.
-/
theorem exists_of_short (hread : LimitedBy read texts) {ps : List (Piece read limit)}
    (hshort : ∀ raw ∈ (ps.map (·.bytes)).flatMap texts, raw.length ≤ limit')
    : ∃ ps' : List (Piece read limit'), ps'.map (·.bytes) = ps.map (·.bytes) := by
  induction ps with
  | nil => exact ⟨[], rfl⟩
  | cons p ps ih =>
    rw [List.map_cons, List.flatMap_cons, List.forall_mem_append] at hshort
    obtain ⟨ps', hps'⟩ := ih hshort.2
    have hp := (hread p.bytes limit p.value p.reads limit').2 hshort.1
    exact ⟨⟨p.bytes, p.value, hp⟩ :: ps', congrArg (p.bytes :: ·) hps'⟩

/--
As many pieces that the same bytes begin with are the same ones.
-/
theorem eq_of_flatMap (hread : Delimited n read) {ps : List (Piece read limit)}
    {ps' : List (Piece read limit')} (hlength : ps.length = ps'.length)
    (h : ps.flatMap (·.bytes) ++ rest = ps'.flatMap (·.bytes) ++ rest')
    : ps.map (·.bytes) = ps'.map (·.bytes) ∧ ps.map (·.value) = ps'.map (·.value) ∧
        rest = rest' := by
  induction ps generalizing ps' with
  | nil =>
    rw [List.length_nil] at hlength
    rw [List.length_eq_zero_iff.1 hlength.symm] at h ⊢
    exact ⟨rfl, rfl, h⟩
  | cons p ps ih =>
    obtain ⟨p', ps', rfl⟩ := List.exists_cons_of_length_eq_add_one hlength.symm
    rw [List.flatMap_cons, List.flatMap_cons, List.append_assoc, List.append_assoc] at h
    obtain ⟨hbytes, hvalue, h⟩ := p.reads.eq_of_append hread p'.reads h
    obtain ⟨hallBytes, hallValues, hrest⟩ := ih (Nat.add_right_cancel hlength) h
    rw [List.map_cons, List.map_cons, List.map_cons, List.map_cons, hbytes, hvalue, hallBytes,
      hallValues]
    exact ⟨rfl, rfl, hrest⟩

end Piece

namespace Parts

/--
All texts of a file: the keys of its records, the strings among their values, the elements of those
that are arrays of strings, and the names of the tensors.
-/
def texts (p : Parts limit) : List (List UInt8) :=
  (p.records.map (·.bytes)).flatMap recordTexts ++
    (p.descriptors.map (·.bytes)).flatMap frontText

theorem length_le_of_mem_texts (p : Parts limit) : ∀ raw ∈ p.texts, raw.length ≤ limit := by
  unfold texts
  simp only [List.forall_mem_append, List.forall_mem_flatMap, List.forall_mem_map]
  exact ⟨fun r _ => r.length_le limitedBy_record, fun t _ => t.length_le limitedBy_descriptor⟩

/--
A file that is made of parts is made of parts under any other limit that its texts keep to.
-/
theorem exists_of_short (p : Parts limit) (hshort : ∀ raw ∈ p.texts, raw.length ≤ limit')
    : ∃ p' : Parts limit', p'.file = p.file := by
  unfold texts at hshort
  rw [List.forall_mem_append] at hshort
  obtain ⟨records, hrecords⟩ := Piece.exists_of_short limitedBy_record hshort.1
  obtain ⟨descriptors, hdescriptors⟩ := Piece.exists_of_short limitedBy_descriptor hshort.2
  have hrecordCount : records.length = p.records.length := by
    rw [← List.length_map, hrecords, List.length_map]
  have hdescriptorCount : descriptors.length = p.descriptors.length := by
    rw [← List.length_map, hdescriptors, List.length_map]
  let header : Piece Read.header limit' := ⟨p.header.bytes, p.header.value,
    p.header.reads.of_unlimited unlimited_header limit'⟩
  refine ⟨⟨header, records, descriptors, p.rest, ?_⟩, ?_⟩
  . rw [hrecordCount, hdescriptorCount]
    exact p.counts
  . simp only [file, index, List.flatMap_def, hrecords, hdescriptors, header]

/--
Parts of the same file, whatever the limits are under which they are read.
-/
structure Agrees (p : Parts limit) (p' : Parts limit') : Prop where
  file : p.file = p'.file
  index : p.index = p'.index
  header : p.header.value = p'.header.value
  texts : p.texts = p'.texts
  entries : p.entries = p'.entries
  tensors : p.tensors = p'.tensors

/--
There is only one way to cut a file into parts.
-/
theorem agrees_of_file_eq {p : Parts limit} {p' : Parts limit'} (h : p.file = p'.file)
    : p.Agrees p' := by
  have hfile := h
  unfold file index at h
  simp only [List.append_assoc] at h
  obtain ⟨hheaderBytes, hheader, h⟩ := p.header.reads.eq_of_append delimited_header p'.header.reads h
  have hcounts := p.counts
  rw [hheader, p'.counts, Prod.mk.injEq] at hcounts
  obtain ⟨hrecordBytes, hentries, h⟩ := Piece.eq_of_flatMap delimited_record hcounts.2.symm h
  obtain ⟨hdescriptorBytes, htensors, _⟩ :=
    Piece.eq_of_flatMap delimited_descriptor hcounts.1.symm h
  refine ⟨hfile, ?_, hheader, ?_, hentries, htensors⟩
  . simp only [index, List.flatMap_def, hheaderBytes, hrecordBytes, hdescriptorBytes]
  . unfold texts
    rw [hrecordBytes, hdescriptorBytes]

/--
What a file declares, by its parts. The payload of each descriptor is there.
-/
structure Summarized (p : Parts limit) (s : Summary) : Prop where
  alignment : declaredAlignment? defaultAlignment p.entries = some s.alignment
  version : s.version = p.header.value.1
  metadata : s.metadata = Table.empty.insertAll p.entries
  tensors : s.tensors = p.tensors
  dataStart : s.dataStart = alignUp p.index.length s.alignment
  payloads : ∀ t ∈ p.tensors, t.offset % s.alignment = 0 ∧ ∃ size bytes, t.byteSize = .ok size ∧
    Container.range? p.file (s.dataStart + t.offset) size = some bytes

theorem Summarized.unique {p : Parts limit} {s s' : Summary} (h : p.Summarized s)
    (h' : p.Summarized s') : s = s' := by
  have halign : s.alignment = s'.alignment := Option.some.inj (h.alignment.symm.trans h'.alignment)
  have hstart := h.dataStart
  rw [halign, ← h'.dataStart] at hstart
  obtain ⟨version, alignment, dataStart, metadata, tensors⟩ := s
  rw [Summary.mk.injEq]
  exact ⟨h.version.trans h'.version.symm, halign, hstart, h.metadata.trans h'.metadata.symm,
    h.tensors.trans h'.tensors.symm⟩

theorem Agrees.summarized {p : Parts limit} {p' : Parts limit'} {s : Summary} (h : p.Agrees p')
    (hs : p.Summarized s) : p'.Summarized s where
  alignment := h.entries ▸ hs.alignment
  version := h.header ▸ hs.version
  metadata := h.entries ▸ hs.metadata
  tensors := h.tensors ▸ hs.tensors
  dataStart := h.index ▸ hs.dataStart
  payloads := h.tensors ▸ h.file ▸ hs.payloads

variable {d : Disk} {path : String} {id : Nat} {config : CodecConfig} {s : Summary}

theorem checkPayloads_located_iff {p : Parts limit} {alignment : Nat}
    : (p.located path id alignment).checkPayloads p.tensors = .ok () ↔ ∀ t ∈ p.tensors,
        t.offset % alignment = 0 ∧ ∃ size bytes, t.byteSize = .ok size ∧
          Container.range? p.file (alignUp p.index.length alignment + t.offset) size
            = some bytes := by
  rw [Container.checkPayloads_eq_ok_iff]
  apply forall₂_congr
  intro t _
  simp only [Container.payload_eq_ok_iff]
  constructor
  . rintro ⟨bytes, _, haligned, data, size, start, hdata, hsize, hstart, hrange⟩
    cases hdata
    cases hstart
    exact ⟨haligned, size, bytes, hsize, hrange⟩
  . rintro ⟨haligned, size, bytes, hsize, hrange⟩
    exact ⟨bytes, rfl, haligned, p.file, size, _, rfl, hsize, rfl, hrange⟩

theorem inspect_eq_ok_iff_summarized {p : Parts config.maxStringLen}
    (hfind : d.find path = .ok (.file id p.file))
    : inspect d path config = .ok s ↔ p.Summarized s := by
  rw [inspect_eq_ok_iff, Container.ofFile_eq_of_find hfind, p.openData_eq]
  simp only [Except.ok.injEq, exists_eq_left', Container.readSummary_eq_ok_iff, readsIndex_iff]
  constructor
  . rintro ⟨_, ⟨alignment, halign, hmetadata, htensors, rfl⟩, hpayloads, hstart, hversion, rfl⟩
    rw [htensors, checkPayloads_located_iff] at hpayloads
    have hstart : alignUp p.index.length s.alignment = s.dataStart := Except.ok.inj hstart
    rw [hstart] at hpayloads
    exact ⟨halign, hversion.symm, hmetadata, htensors, hstart.symm, hpayloads⟩
  . intro h
    refine ⟨_, ⟨_, h.alignment, h.metadata, h.tensors, rfl⟩, ?_, ?_, h.version.symm, rfl⟩
    . rw [h.tensors, checkPayloads_located_iff, ← h.dataStart]
      exact h.payloads
    . rw [h.dataStart]
      rfl

/--
Every file that can be inspected is made of parts.
-/
theorem exists_of_inspect {data : List UInt8} (hfind : d.find path = .ok (.file id data))
    (h : inspect d path config = .ok s) : ∃ p : Parts config.maxStringLen, p.file = data := by
  obtain ⟨c, hopen, hsummary⟩ := inspect_eq_ok_iff.1 h
  rw [Container.ofFile_eq_of_find hfind] at hopen
  obtain ⟨_, hindex, _⟩ := Container.readSummary_eq_ok_iff.1 hsummary
  exact exists_of_readsIndex hopen hindex

/--
Under which limits a file can be inspected: under those that all its texts keep to.
-/
theorem inspect_eq_ok_iff_texts (p : Parts limit) (hfind : d.find path = .ok (.file id p.file))
    : inspect d path config = .ok s ↔ p.Summarized s ∧
        ∀ raw ∈ p.texts, raw.length ≤ config.maxStringLen := by
  constructor
  . intro h
    obtain ⟨p', hfile⟩ := exists_of_inspect hfind h
    have hagrees := agrees_of_file_eq hfile
    rw [← hfile] at hfind
    rw [← hagrees.texts]
    exact ⟨hagrees.summarized ((inspect_eq_ok_iff_summarized hfind).1 h), p'.length_le_of_mem_texts⟩
  . rintro ⟨hs, hshort⟩
    obtain ⟨p', hfile⟩ := p.exists_of_short hshort
    rw [← hfile] at hfind
    exact (inspect_eq_ok_iff_summarized hfind).2 ((agrees_of_file_eq hfile.symm).summarized hs)

end Parts

/--
These are the texts of the file, in the order in which they stand in it.
-/
def HasTexts (data : List UInt8) (texts : List (List UInt8)) : Prop :=
  ∃ (limit : Nat) (p : Parts limit), p.file = data ∧ p.texts = texts

theorem HasTexts.unique {data : List UInt8} {texts texts' : List (List UInt8)}
    (h : HasTexts data texts) (h' : HasTexts data texts') : texts = texts' := by
  obtain ⟨_, p, hfile, rfl⟩ := h
  obtain ⟨_, p', hfile', rfl⟩ := h'
  exact (Parts.agrees_of_file_eq (hfile.trans hfile'.symm)).texts

/--
A file that can be inspected has texts. Under another limit it can be inspected if and only if none of
them is too long, and shows the same.
-/
theorem exists_texts_of_inspect {d : Disk} {path : String} {id : Nat} {data : List UInt8}
    {config : CodecConfig} {s : Summary} (hfind : d.find path = .ok (.file id data))
    (h : inspect d path config = .ok s)
    : ∃ texts, HasTexts data texts ∧ ∀ config' s', inspect d path config' = .ok s' ↔
        s' = s ∧ ∀ raw ∈ texts, raw.length ≤ config'.maxStringLen := by
  obtain ⟨p, rfl⟩ := Parts.exists_of_inspect hfind h
  obtain ⟨hs, _⟩ := (p.inspect_eq_ok_iff_texts hfind).1 h
  refine ⟨p.texts, ⟨_, p, rfl, rfl⟩, fun config' s' => ?_⟩
  rw [p.inspect_eq_ok_iff_texts hfind]
  apply and_congr_left
  intro _
  constructor
  . intro hs'
    exact hs'.unique hs
  . rintro rfl
    exact hs

end TensorFiles.Gguf
