import TensorFiles.Proofs.Gguf.Container.Alignment
import TensorFiles.Proofs.Gguf.Container.ReadBack
import TensorFiles.Proofs.Gguf.Container.Replay
import TensorFiles.Proofs.Gguf.Parts
import TensorFiles.Proofs.Gguf.Referred
/-!
This module contains what becomes of descriptors when the alignment is replaced behind them. They
keep to it unless it grows. Readers refuse the payload of one that no longer does, and of no other.
-/

namespace TensorFiles.Gguf

/--
What has been accepted can be read if strings have at most `limit` bytes.
-/
structure Readable (limit : Nat) (calls : List WriteCall) : Prop where
  records : ∃ rs : List (ReadableRecord limit),
    rs.map (·.record) = calls.filterMap WriteCall.record?
  descriptors : ∀ t ∈ calls.filterMap WriteCall.descriptor?, t.Fits limit

/--
The container `c` has read the descriptors `ds` from the file at `path`, to which `written` has been
closed.
-/
def Reopens (written : Container × Disk) (path : String) (reader : CodecConfig)
    (ds : List Descriptor) (c : Container) : Prop :=
  ∃ d opened metadata, written.1.close written.2 = (.ok (), d) ∧ fileFits d path = true ∧
    Container.ofFile d path reader = .ok opened ∧ opened.ReadsIndex metadata ds c

variable {limit : Nat}

/--
A file that has been closed is made of what has been written to it.
-/
theorem Written.exists_parts {w : Written} {version : Nat}
    (hversion : minVersion ≤ version ∧ version ≤ maxVersion)
    (hsize : (w.file version).length < fileBound)
    (hrecords : ∃ rs : List (ReadableRecord limit), rs.map (·.record) = w.records)
    (hdescriptors : ∀ t ∈ w.descriptors, t.Fits limit)
    : ∃ p : Parts limit, p.file = w.file version ∧
        p.index.length = headerLength + w.index.length ∧ p.tensors = w.descriptors := by
  obtain ⟨rs, hrs⟩ := hrecords
  obtain ⟨ds, hds⟩ := exists_readable_descriptors hdescriptors
  obtain ⟨htensorCount, hrecordCount⟩ := w.counts_lt_of_index (w.index_lt_of_size hsize)
  have hheader : Reads Read.header
      (encodeHeader version w.descriptors.length w.records.length) limit
      (version, w.descriptors.length, w.records.length) := by
    simpa [encodeHeader] using reads_header hversion.1 hversion.2 htensorCount hrecordCount
  obtain ⟨more, hmore⟩ :=
    w.exists_image_eq (encodeHeader version w.descriptors.length w.records.length)
  let p : Parts limit := {
    header := ⟨_, _, hheader⟩
    records := rs.map Piece.ofRecord
    descriptors := ds.map Piece.ofDescriptor
    rest := more
    counts := by simp [← hrs, ← hds] }
  have hrecordBytes : p.records.flatMap (·.bytes) = w.records.flatMap EncodedRecord.encode := by
    rw [← hrs, List.flatMap_map, List.flatMap_map]
    rfl
  have hdescriptorBytes : p.descriptors.flatMap (·.bytes)
      = w.descriptors.flatMap Descriptor.encode := by
    rw [← hds, List.flatMap_map, List.flatMap_map]
    rfl
  have hindex : p.index
      = encodeHeader version w.descriptors.length w.records.length ++ w.index := by
    unfold Parts.index Written.index
    rw [hrecordBytes, hdescriptorBytes]
  refine ⟨p, ?_, ?_, ?_⟩
  . unfold Parts.file
    rw [hindex]
    exact hmore.symm
  . rw [hindex, List.length_append, length_encodeHeader]
  . rw [← hds]
    exact List.map_map

namespace Container

variable {c c' : Container} {o : Output} {w : Written} {d : Disk}

/--
Once there are as many payloads as descriptors, there is one for each of them.
-/
theorem Tracks.exists_stands_of_mem (h : c.Tracks o w)
    (hall : w.payloads.length = w.descriptors.length) (hpower : isPowerOfTwo c.alignment = true)
    (hfits : headerLength + w.index.length + c.alignment ≤ wordBound) {t : Descriptor}
    (ht : t ∈ w.descriptors) {header : List UInt8} (hheader : header.length = headerLength)
    : ∃ bytes, bytes.length = t.size ∧ Stands (w.image header)
        (alignUp (headerLength + w.index.length) c.alignment + t.offset) bytes := by
  obtain ⟨i, hi⟩ := List.getElem?_of_mem ht
  obtain ⟨hlt, _⟩ := List.getElem?_eq_some_iff.1 hi
  rw [← hall] at hlt
  obtain ⟨t', start, ht', hstart, hlength, hstands⟩ :=
    h.exists_stands_payload hpower hfits (List.getElem?_eq_getElem hlt) hheader
  rw [hi, Option.some.injEq] at ht'
  subst ht'
  rw [h.start start hstart] at hstands
  exact ⟨_, hlength, hstands⟩

theorem payload_eq_error_of_mod {data : List UInt8} {t : Descriptor} (hs : c.current = .data)
    (hdata : c.data = .ok data) (h : t.offset % c.alignment ≠ 0)
    : c.payload t = .error (.gguf (.misaligned t.name t.offset c.alignment)) := by
  unfold payload
  rw [expectSection_eq_ok hs, hdata]
  simp only [bind, Except.bind, if_pos h]
  rfl

/--
The reader finds the descriptors that have been written. With the alignment of the writer it finds
the payloads of those that keep to it, and refuses the others.
-/
theorem Tracks.reopens (h : c.Tracks o w) (hd : c.Flushed o d)
    (hpower : isPowerOfTwo c.alignment = true)
    (hversion : minVersion ≤ c.version ∧ c.version ≤ maxVersion) {reader : CodecConfig}
    {ds : List Descriptor}
    (hrecords : ∃ rs : List (ReadableRecord reader.maxStringLen), rs.map (·.record) = w.records)
    (hdescriptors : ∀ t ∈ w.descriptors, t.Fits reader.maxStringLen)
    (hreopens : Reopens (c, d) c.path reader ds c')
    : ds = w.descriptors ∧ (c'.alignment = c.alignment → ∀ t ∈ ds,
        (t.offset % c.alignment = 0 → ∃ bytes, c'.payload t = .ok bytes) ∧
        (t.offset % c.alignment ≠ 0 →
          c'.payload t = .error (.gguf (.misaligned t.name t.offset c.alignment)))) := by
  obtain ⟨d', opened, metadata, hclose, hsize, hopen, hindex⟩ := hreopens
  obtain ⟨hall, hfind⟩ := h.find_close hd hclose
  have hfile : d'.find c.path = .ok (.file o.file (w.file c.version)) := hfind
  have hlength := (fileFits_iff_of_find hfile).1 hsize
  obtain ⟨p, hp, hplength, hptensors⟩ :=
    Written.exists_parts hversion hlength hrecords hdescriptors
  rw [ofFile_eq_of_find hfile, ← hp, p.openData_eq, Except.ok.injEq] at hopen
  rw [← hopen] at hindex
  obtain ⟨alignment, halign, _, hds, rfl⟩ := Parts.readsIndex_iff.1 hindex
  rw [hptensors] at hds
  refine ⟨hds, fun hsame t ht => ?_⟩
  change alignment = c.alignment at hsame
  subst hsame
  rw [hds] at ht
  constructor
  . intro haligned
    obtain ⟨_, hsmall⟩ := declaredAlignment?_valid halign (by decide) (by decide)
    have hfits := add_le_wordBound (w.index_lt_of_size hlength) hsmall
    obtain ⟨bytes, hbytes, hstands⟩ := h.exists_stands_of_mem hall hpower hfits ht
      (length_encodeHeader c.version w.descriptors.length w.records.length)
    rw [← hplength] at hstands
    refine ⟨bytes, payload_eq_ok_iff.2 ⟨rfl, haligned, _, t.size, _, rfl, h.sound.sized t ht, rfl,
      range?_eq_some_iff.2 ⟨?_, hbytes⟩⟩⟩
    rw [hp]
    exact hstands
  . exact payload_eq_error_of_mod (c := p.located c.path o.file c.alignment) rfl rfl

end Container

/--
Descriptors keep to the alignment unless it grows. A reader with the alignment of the writer finds
the payloads of those that do, and refuses the others.
-/
theorem aligned_of_performAll {d : Disk} {path : String} {config : CodecConfig}
    {calls accepted : List WriteCall} {created written : Container × Disk}
    (hcreate : Container.create d path config = .ok created)
    (hrun : performAll calls created = (accepted, written))
    : written.1.alignment = alignmentAfter config.alignment accepted ∧
      ∀ front t rest, accepted = front ++ .descriptor t :: rest →
        t.offset % alignmentAfter config.alignment front = 0 ∧
        (written.1.alignment ≤ alignmentAfter config.alignment front →
          t.offset % written.1.alignment = 0) ∧
        ∀ (reader : CodecConfig) (ds : List Descriptor) (c : Container),
          Readable reader.maxStringLen accepted → Reopens written path reader ds c →
          c.alignment = written.1.alignment → t ∈ ds ∧
          (t.offset % written.1.alignment = 0 → ∃ bytes, c.payload t = .ok bytes) ∧
          (t.offset % written.1.alignment ≠ 0 →
            c.payload t = .error (.gguf (.misaligned t.name t.offset written.1.alignment))) := by
  obtain ⟨c₀, d₀⟩ := created
  obtain ⟨hvalid, _, _, o, hwrites⟩ := Container.exists_writes_of_create hcreate
  obtain ⟨hpower, _, hversion⟩ := CodecConfig.validate_eq_ok_iff.1 hvalid
  obtain ⟨_, c₁, d₁, o₁, w, hrun', hevolves, hd, halign, hrespect⟩ :=
    hwrites.tracks.performAll hwrites.flushed calls
  rw [hrun, Prod.mk.injEq] at hrun'
  obtain ⟨rfl, rfl⟩ := hrun'
  rw [hwrites.alignment] at halign hrespect
  have hpower₁ : isPowerOfTwo c₁.alignment = true := by
    rw [halign]
    exact hrespect.isPowerOfTwo_alignmentAfter hpower
  refine ⟨halign, ?_⟩
  rintro front t rest rfl
  have haligned : t.offset % alignmentAfter config.alignment front = 0 := hrespect.respects
  have hfront := hrespect.left.isPowerOfTwo_alignmentAfter hpower
  refine ⟨haligned, fun hle => mod_eq_zero_of_le hpower₁ hfront hle haligned, ?_⟩
  intro reader ds c hreadable hreopens hsame
  have hrecords := hevolves.gains.records
  have hdescriptors := hevolves.gains.descriptors
  rw [List.nil_append] at hrecords hdescriptors
  have hreadable' := hreadable.descriptors
  rw [← hdescriptors] at hreadable'
  have hrecords' := hreadable.records
  rw [← hrecords] at hrecords'
  rw [← hevolves.version.trans hwrites.version] at hversion
  rw [← hevolves.path.trans hwrites.path] at hreopens
  obtain ⟨hds, hpayloads⟩ :=
    hevolves.tracks.reopens hd hpower₁ hversion hrecords' hreadable' hreopens
  have hmem : t ∈ ds := by
    rw [hds, hdescriptors, List.mem_filterMap]
    exact ⟨.descriptor t, by simp, rfl⟩
  exact ⟨hmem, hpayloads hsame t hmem⟩

/--
A session that replaces the alignment by 64 behind a descriptor at offset 32.
-/
def realignedCalls : List WriteCall :=
  [.encoded (alignmentRecord 64), .descriptor ⟨"t", [1], .i8, 32⟩, .align 64,
   .descriptor ⟨"u", [1], .i8, 64⟩, .payload [7], .payload [8]]

/--
What the session leaves behind on an empty disk.
-/
def realigned : Container × Disk := (performAll realignedCalls newContainer).2

theorem readable_realignedCalls : Readable ({} : CodecConfig).maxStringLen realignedCalls where
  records := ⟨[{
    record := alignmentRecord 64
    value := .scalar ⟨.u32, [], [64, 0, 0, 0], rfl⟩
    reads_key := reads_string (by decide) (by decide)
    reads_value := (reads_u32 ValueType.uint32.code_lt).bind
      (reads_value_scalar (t := ⟨.u32, [], [64, 0, 0, 0], rfl⟩) rfl rfl) }], rfl⟩
  descriptors := by
    intro t ht
    have hshape : Shape.Fits [1] := ⟨by decide, by decide⟩
    rcases List.mem_pair.1 ht with rfl | rfl
    . exact ⟨by decide, by decide, by decide, hshape, by decide⟩
    . exact ⟨by decide, by decide, by decide, hshape, by decide⟩

theorem realigned_reopens : ∃ ds c, Reopens realigned "a" {} ds c ∧ c.alignment = 64 := by
  have hclose : realigned.1.close realigned.2
      = (.ok (), (realigned.1.close realigned.2).2) := by
    apply Prod.fst_eq_iff.1
    decide +kernel
  have hsize : fileFits (realigned.1.close realigned.2).2 "a" = true := by
    decide +kernel
  have hread : (Container.ofFile (realigned.1.close realigned.2).2 "a" {}).map (fun opened =>
      ((exec Container.readIndex opened).1.toOption.isSome,
        (exec Container.readIndex opened).2.alignment)) = .ok (true, 64) := by
    decide +kernel
  cases hopen : Container.ofFile (realigned.1.close realigned.2).2 "a" {} with
  | error e => simp [hopen, Except.map] at hread
  | ok opened =>
    rw [hopen] at hread
    rcases hindex : exec Container.readIndex opened with ⟨e | ⟨metadata, ds⟩, c⟩
    . simp [hindex, Except.map, Except.toOption] at hread
    . rw [Except.map, hindex, Except.ok.injEq, Prod.mk.injEq] at hread
      exact ⟨ds, c,
        ⟨_, opened, metadata, hclose, hsize, hopen, Container.readsIndex_iff.2 hindex⟩, hread.2⟩

theorem aligned_of_performAll_realignedCalls
    : ∃ ds c, Container.create .empty "a" {} = .ok newContainer ∧
        performAll realignedCalls newContainer = (realignedCalls, realigned) ∧
        Reopens realigned "a" {} ds c ∧
        c.payload ⟨"t", [1], .i8, 32⟩ = .error (.gguf (.misaligned "t" 32 64)) ∧
        ∃ bytes, c.payload ⟨"u", [1], .i8, 64⟩ = .ok bytes := by
  have hcreate : Container.create .empty "a" {} = .ok newContainer := rfl
  have hrun : performAll realignedCalls newContainer = (realignedCalls, realigned) := by
    apply Prod.fst_eq_iff.1
    cbv
  obtain ⟨ds, c, hreopens, hread⟩ := realigned_reopens
  obtain ⟨halign, hall⟩ := aligned_of_performAll hcreate hrun
  have hsame := hread.trans halign.symm
  have ht := (hall [.encoded (alignmentRecord 64)] ⟨"t", [1], .i8, 32⟩ _ rfl).2.2
    {} ds c readable_realignedCalls hreopens hsame
  have hu := (hall [.encoded (alignmentRecord 64), .descriptor ⟨"t", [1], .i8, 32⟩, .align 64]
    ⟨"u", [1], .i8, 64⟩ _ rfl).2.2 {} ds c readable_realignedCalls hreopens hsame
  rw [halign] at ht hu
  exact ⟨ds, c, hcreate, hrun, hreopens, ht.2.2 (by decide), hu.2.1 (by decide)⟩

end TensorFiles.Gguf
