import Mathlib.Data.List.Forall2
import TensorFiles.Gguf.Load
import TensorFiles.Proofs.Bytes.Blocks
import TensorFiles.Proofs.Gguf.Container.Reading
import TensorFiles.Proofs.Gguf.Container.Session
import TensorFiles.Proofs.Gguf.MetaValue
/-!
This module contains the round trip of containers: a file that has been closed is read back as what
the accepted calls have written to it.
-/

namespace TensorFiles.Gguf

/--
One more than the most bytes a file can have.
-/
def fileBound : Nat := 0x8000000000000000

/--
Whether the file at a path is as small as files have to be.
-/
def fileFits (d : Disk) (path : String) : Bool :=
  match d.find path with
  | .ok (.file _ data) => data.length < fileBound
  | _ => true

theorem fileFits_iff_of_find {d : Disk} {path : String} {file : Nat} {data : List UInt8}
    (h : d.find path = .ok (.file file data))
    : fileFits d path = true ↔ data.length < fileBound := by
  unfold fileFits
  rw [h]
  exact decide_eq_true_iff

/--
A step of the alignment from within a file does not leave the machine word.
-/
theorem add_le_wordBound {offset alignment : Nat} (hoffset : offset < fileBound)
    (hsmall : alignment < halfWordBound) : offset + alignment ≤ wordBound := by
  unfold fileBound at hoffset
  unfold halfWordBound at hsmall
  unfold wordBound
  omega

/--
The record that an entry is written as.
-/
def Encodes (e : String × MetaValue) (r : EncodedRecord) : Prop :=
  EncodedRecord.ofValue e.1 e.2 = .ok r

/--
All strings of an entry, the key among them.
-/
def entryTexts (e : String × MetaValue) : List String :=
  e.1 :: e.2.texts

/--
An entry as it is read back.
-/
def settledEntry (e : String × MetaValue) : String × MetaValue :=
  (e.1, e.2.settled)

theorem EncodedRecord.length_encode (r : EncodedRecord)
    : r.encode.length = 12 + r.key.utf8ByteSize + r.value.length := by
  unfold encode
  rw [List.length_append, List.length_append, length_encodeString, LittleEndian.length_encode]
  omega

theorem Descriptor.length_encode (d : Descriptor)
    : d.encode.length = 24 + d.name.utf8ByteSize + 8 * d.shape.length := by
  have hdims : (d.shape.reverse.flatMap (LittleEndian.encode 8)).length = d.shape.length * 8 := by
    rw [length_flatMap_of_forall (fun dim _ => LittleEndian.length_encode 8 dim),
      List.length_reverse]
  unfold encode
  simp only [List.length_append, length_encodeString, LittleEndian.length_encode, hdims]
  omega

variable {limit : Nat}

theorem exists_readable_record {e : String × MetaValue} {r : EncodedRecord} (h : Encodes e r)
    (hsize : r.encode.length < wordBound) (hlimit : ∀ s ∈ entryTexts e, s.utf8ByteSize ≤ limit)
    : ∃ rr : ReadableRecord limit, rr.record = r ∧ (rr.record.key, rr.value) = settledEntry e := by
  obtain ⟨key, value⟩ := e
  unfold Encodes EncodedRecord.ofValue at h
  unfold entryTexts at hlimit
  rw [List.forall_mem_cons] at hlimit
  dsimp only at h hlimit
  rw [bind_eq_ok_iff] at h
  obtain ⟨⟨type, bytes⟩, hencode, h⟩ := h
  rw [pure_eq_ok_iff] at h
  subst h
  rw [EncodedRecord.length_encode] at hsize
  dsimp only at hsize
  have hkey : Reads Read.string (encodeString key) limit key :=
    reads_string (by omega) hlimit.1
  have hvalue : Reads (Read.u32 >>= Read.value)
      (LittleEndian.encode 4 type.code ++ bytes) limit value.settled := by
    apply (reads_u32 type.code_lt).bind
    exact reads_value hencode (by omega) hlimit.2
  exact ⟨⟨⟨key, type, bytes⟩, value.settled, hkey, hvalue⟩, rfl, rfl⟩

theorem exists_readable_records {entries : List (String × MetaValue)}
    {records : List EncodedRecord} (h : List.Forall₂ Encodes entries records)
    (hsize : ∀ r ∈ records, r.encode.length < wordBound)
    (hlimit : ∀ e ∈ entries, ∀ s ∈ entryTexts e, s.utf8ByteSize ≤ limit)
    : ∃ rs : List (ReadableRecord limit), rs.map (·.record) = records ∧
        rs.map (fun r => (r.record.key, r.value)) = entries.map settledEntry := by
  induction h with
  | nil => exact ⟨[], rfl, rfl⟩
  | cons hencodes _ ih =>
    rw [List.forall_mem_cons] at hsize hlimit
    obtain ⟨rs, hrecords, hentries⟩ := ih hsize.2 hlimit.2
    obtain ⟨r, hrecord, hentry⟩ := exists_readable_record hencodes hsize.1 hlimit.1
    refine ⟨r :: rs, ?_, ?_⟩
    . rw [List.map_cons, hrecord, hrecords]
    . rw [List.map_cons, List.map_cons, hentry, hentries]

theorem exists_readable_descriptors {descriptors : List Descriptor}
    (h : ∀ d ∈ descriptors, d.Fits limit)
    : ∃ rs : List (ReadableDescriptor limit), rs.map (·.descriptor) = descriptors := by
  refine ⟨descriptors.pmap (fun d hd => ⟨d, reads_descriptor hd⟩) h, ?_⟩
  rw [List.map_pmap, List.pmap_eq_map, List.map_id']

namespace Written

/--
The bytes of a closed file.
-/
def file (w : Written) (version : Nat) : List UInt8 :=
  w.image (encodeHeader version w.descriptors.length w.records.length)

theorem stands_header (w : Written) (version : Nat)
    : Stands (w.file version) 0
        (encodeHeader version w.descriptors.length w.records.length ++ w.index) :=
  w.stands_index _

theorem index_lt_of_size {version : Nat} (w : Written)
    (h : (w.file version).length < fileBound) : headerLength + w.index.length < fileBound := by
  have hle := (w.stands_header version).length_le
  rw [List.length_append, length_encodeHeader] at hle
  omega

theorem counts_lt_of_index (w : Written) (hindex : headerLength + w.index.length < fileBound)
    : w.descriptors.length < wordBound ∧ w.records.length < wordBound := by
  have hrecords : w.records.length ≤ (w.records.flatMap EncodedRecord.encode).length := by
    apply length_le_flatMap
    intro r _
    rw [EncodedRecord.length_encode]
    omega
  have hdescriptors : w.descriptors.length ≤ (w.descriptors.flatMap Descriptor.encode).length := by
    apply length_le_flatMap
    intro d _
    rw [Descriptor.length_encode]
    omega
  rw [Written.index, List.length_append] at hindex
  unfold fileBound at hindex
  unfold wordBound
  omega

/--
What holds of all that is written to a file by the time it is closed.
-/
structure Complete (w : Written) (version alignment : Nat) : Prop where
  sound : w.Sound
  aligned : w.Aligned alignment
  all : w.payloads.length = w.descriptors.length
  start : ∀ s, w.start? = some s → s = alignUp (headerLength + w.index.length) alignment
  power : isPowerOfTwo alignment = true
  small : alignment < halfWordBound
  supported : minVersion ≤ version ∧ version ≤ maxVersion
  index_lt : headerLength + w.index.length < fileBound
  offset_lt : ∀ d ∈ w.descriptors, d.offset < wordBound

theorem Sound.placed_eq {w : Written} (h : w.Sound)
    (hall : w.payloads.length = w.descriptors.length)
    : w.payloads.map (fun p => (p.1, p.2.length)) = w.descriptors.map Descriptor.extent := by
  apply h.placed.eq_of_length
  rw [List.length_map, List.length_map, hall]

/--
If all payloads are in a file, none begins farther behind the start of the data than the file is
long.
-/
theorem Sound.offset_lt_of_size {w : Written} {version : Nat} (h : w.Sound)
    (hall : w.payloads.length = w.descriptors.length)
    (hroom : ∀ s, w.start? = some s → headerLength + w.index.length ≤ s)
    (hsize : (w.file version).length < fileBound) {d : Descriptor} (hd : d ∈ w.descriptors)
    : d.offset < wordBound := by
  have hextent := List.mem_map_of_mem (f := Descriptor.extent) hd
  rw [← h.placed_eq hall] at hextent
  obtain ⟨p, hp, heq⟩ := List.mem_map.1 hextent
  obtain ⟨s, _, hstands⟩ := h.stands_payload hroom hp
    (length_encodeHeader version w.descriptors.length w.records.length)
  have hle := hstands.length_le
  have hoffset : p.1 = d.offset := congrArg Prod.fst heq
  rw [← file] at hle
  unfold fileBound at hsize
  unfold wordBound
  omega

namespace Complete

variable {w : Written} {version alignment : Nat}

theorem placed_eq (h : w.Complete version alignment)
    : w.payloads.map (fun p => (p.1, p.2.length)) = w.descriptors.map Descriptor.extent :=
  h.sound.placed_eq h.all

theorem index_le_start (h : w.Complete version alignment) {s : Nat} (hs : w.start? = some s)
    : headerLength + w.index.length ≤ s := by
  rw [h.start s hs]
  exact le_alignUp h.power (add_le_wordBound h.index_lt h.small)

theorem stands_payload (h : w.Complete version alignment) {p : Nat × List UInt8}
    (hp : p ∈ w.payloads)
    : Stands (w.file version) (alignUp (headerLength + w.index.length) alignment + p.1) p.2 := by
  obtain ⟨s, hstart, hstands⟩ := h.sound.stands_payload (fun s => h.index_le_start) hp
    (length_encodeHeader version w.descriptors.length w.records.length)
  rw [← h.start s hstart]
  exact hstands

theorem legible (h : w.Complete version alignment)
    (hlimit : ∀ d ∈ w.descriptors, d.name.utf8ByteSize ≤ limit)
    (hdims : ∀ d ∈ w.descriptors, ∀ n ∈ d.shape, n < wordBound)
    : ∀ d ∈ w.descriptors, d.Legible limit := by
  intro d hd
  have hindex := h.index_lt
  have hname : d.name.utf8ByteSize < wordBound := by
    have hle := length_le_flatMap_of_mem (f := Descriptor.encode) hd
    rw [Descriptor.length_encode] at hle
    unfold Written.index fileBound at hindex
    rw [List.length_append] at hindex
    unfold wordBound
    omega
  exact ⟨hname, hlimit d hd, h.sound.ranks d hd, hdims d hd, h.offset_lt d hd⟩

theorem fits (h : w.Complete version alignment)
    (hlimit : ∀ d ∈ w.descriptors, d.name.utf8ByteSize ≤ limit)
    (hshapes : ∀ d ∈ w.descriptors, Shape.Fits d.shape)
    : ∀ d ∈ w.descriptors, d.Fits limit :=
  fun d hd => (h.legible hlimit (fun d hd => (hshapes d hd).dims) d hd).fits (hshapes d hd).product

theorem counts_lt (h : w.Complete version alignment)
    : w.descriptors.length < wordBound ∧ w.records.length < wordBound :=
  w.counts_lt_of_index h.index_lt

theorem record_lt (h : w.Complete version alignment) {r : EncodedRecord} (hr : r ∈ w.records)
    : r.encode.length < wordBound := by
  have hindex := h.index_lt
  have hle := length_le_flatMap_of_mem (f := EncodedRecord.encode) hr
  rw [Written.index, List.length_append] at hindex
  unfold fileBound at hindex
  unfold wordBound
  omega

theorem exists_extent_eq (h : w.Complete version alignment) {p : Nat × List UInt8}
    (hp : p ∈ w.payloads) : ∃ d ∈ w.descriptors, d.extent = (p.1, p.2.length) := by
  have hmem := List.mem_map_of_mem (f := fun p => (p.1, p.2.length)) hp
  rw [h.placed_eq] at hmem
  exact List.mem_map.1 hmem

/--
Where no data section has begun, the file ends with the index.
-/
theorem length_file (hstart : w.start? = none)
    : (w.file version).length = headerLength + w.index.length := by
  unfold file image
  rw [hstart]
  dsimp only
  rw [List.length_append, length_encodeHeader]

end Complete

end Written

namespace Container

theorem openData_eq {path : String} {file version tensors records : Nat} {data : List UInt8}
    {config : CodecConfig} (hs : Stands data 0 (encodeHeader version tensors records))
    (hversion : minVersion ≤ version ∧ version ≤ maxVersion) (ht : tensors < wordBound)
    (hr : records < wordBound)
    : openData path file data config
        = .ok {
            medium := .opened file data
            path
            offset := headerLength
            alignment := defaultAlignment
            version
            maxStringLen := config.maxStringLen
            tensorCount := tensors
            recordCount := records } := by
  have hread : Reads Read.header _ config.maxStringLen (version, tensors, records) :=
    reads_header hversion.1 hversion.2 ht hr
  have hheader : magic ++ (LittleEndian.encode 4 version ++ (LittleEndian.encode 8 tensors ++
      LittleEndian.encode 8 records)) = encodeHeader version tensors records := by
    simp [encodeHeader]
  rw [hheader] at hread
  have hopen : openData path file data config = _ := openData_of_reads hread hs
  rw [length_encodeHeader] at hopen
  exact hopen

variable {w : Written} {version alignment : Nat}

theorem openData_file (h : w.Complete version alignment) (path : String) (file : Nat)
    (config : CodecConfig)
    : openData path file (w.file version) config
        = .ok {
            medium := .opened file (w.file version)
            path
            offset := headerLength
            alignment := defaultAlignment
            version
            maxStringLen := config.maxStringLen
            tensorCount := w.descriptors.length
            recordCount := w.records.length } :=
  openData_eq (w.stands_header version).left h.supported h.counts_lt.1
    h.counts_lt.2

theorem exists_openData (h : w.Complete version alignment) {entries : List (String × MetaValue)}
    {reader : CodecConfig} (hentries : List.Forall₂ Encodes entries w.records)
    (htexts : ∀ e ∈ entries, ∀ s ∈ entryTexts e, s.utf8ByteSize ≤ reader.maxStringLen)
    (hnames : ∀ d ∈ w.descriptors, d.name.utf8ByteSize ≤ reader.maxStringLen)
    (hshapes : ∀ d ∈ w.descriptors, Shape.Fits d.shape) (path : String) (file : Nat)
    : ∃ (c : Container) (p : Position reader.maxStringLen),
        openData path file (w.file version) reader = .ok c ∧ c.version = version ∧
          c.tensorCount = w.descriptors.length ∧ c.recordCount = w.records.length ∧
          c.alignment = defaultAlignment ∧
          c.At (w.file version) (headerLength + w.index.length) p ∧
          (∃ rs ds, p = .key rs ds ∧ rs.map (fun r => (r.record.key, r.value))
            = entries.map settledEntry ∧ ds.map (·.descriptor) = w.descriptors) := by
  obtain ⟨rs, hrs, hvalues⟩ := exists_readable_records hentries (fun _ hr => h.record_lt hr) htexts
  obtain ⟨ds, hds⟩ := exists_readable_descriptors (h.fits hnames hshapes)
  have hstands := w.stands_header version
  have hbytes : (Position.key rs ds).bytes = w.index := by
    unfold Written.index
    rw [← hrs, ← hds, List.flatMap_map, List.flatMap_map]
    rfl
  refine ⟨_, .key rs ds, openData_file h path file reader, rfl, rfl, rfl, rfl,
    ⟨rfl, rfl, ?_, ?_, ?_⟩, rs, ds, rfl, hvalues, hds⟩
  . have hright := hstands.right
    rw [length_encodeHeader] at hright
    rw [hbytes]
    simpa using hright
  . rw [hbytes]
  . have hlen := congrArg List.length hrs
    have hlen' := congrArg List.length hds
    rw [List.length_map] at hlen hlen'
    exact ⟨rfl, rfl, by dsimp only; omega, by dsimp only; omega⟩

theorem At.payload_eq (h : w.Complete version alignment) {c : Container} {p : Position limit}
    (hat : c.At (w.file version) (headerLength + w.index.length) p) (hp : p = .data)
    (halign : c.alignment = alignment) {j : Nat} {d : Descriptor} {bytes : List UInt8}
    {offset : Nat} (hd : w.descriptors[j]? = some d)
    (hbytes : w.payloads[j]? = some (offset, bytes))
    : c.payload d = .ok bytes := by
  subst hp
  obtain ⟨hcurrent, hstart⟩ := hat.counts
  have hstop : c.offset = headerLength + w.index.length := hat.stop
  have hmem := List.mem_of_getElem? hd
  have hextent : (offset, bytes.length) = d.extent := by
    have heq := congrArg (fun l => l[j]?) h.placed_eq
    simp only [List.getElem?_map, hd, hbytes, Option.map_some, Option.some.injEq] at heq
    exact heq
  simp only [Descriptor.extent, Prod.mk.injEq] at hextent
  have hstands := h.stands_payload (List.mem_of_getElem? hbytes)
  rw [hextent.1] at hstands
  have haligned := h.aligned d hmem
  have hrange : range? (w.file version)
      (alignUp (headerLength + w.index.length) alignment + d.offset) d.size = some bytes := by
    unfold range?
    rw [← hextent.2, if_pos hstands.length_le, hstands.take_drop]
  unfold payload expectSection dataStart
  rw [if_pos hcurrent, hat.content, halign, h.sound.sized d hmem, hstart, hstop, halign]
  simp only [bind, Except.bind, haligned]
  rw [if_neg (by simp)]
  simp only [hrange]
  rfl

theorem At.map_payload_eq (h : w.Complete version alignment) {c : Container} {p : Position limit}
    (hat : c.At (w.file version) (headerLength + w.index.length) p) (hp : p = .data)
    (halign : c.alignment = alignment)
    : w.descriptors.map c.payload = w.payloads.map (fun p => .ok p.2) := by
  apply List.ext_getElem
  . rw [List.length_map, List.length_map, h.all]
  . intro j hd hq
    rw [List.length_map] at hd hq
    rw [List.getElem_map, List.getElem_map]
    exact hat.payload_eq h hp halign (List.getElem?_eq_getElem hd) (List.getElem?_eq_getElem hq)

end Container

end TensorFiles.Gguf
