import TensorFiles.Proofs.Gguf.Container.AppendAll
import TensorFiles.Proofs.Gguf.Container.ReadBack
import TensorFiles.Proofs.Gguf.Load
/-!
This module contains the round trip of whole files: what is saved is loaded again, by readers of any
settings. The reader finds the alignment of the writer in the metadata.
-/

namespace TensorFiles.Gguf

/--
The value of a record that declares an alignment.
-/
def alignmentValue (alignment : Nat) : MetaValue :=
  .scalar {
    dtype := .u32
    shape := []
    data := LittleEndian.encode 4 alignment
    sized := Shape.sized_iff.2 ⟨rfl, LittleEndian.length_encode 4 alignment⟩
  }

/--
Whether saving adds a record that declares the alignment.
-/
def addsAlignment (metadata : Table MetaValue) (config : CodecConfig) : Bool :=
  !metadata.contains alignmentKey && config.alignment != defaultAlignment

/--
The entries whose records are written.
-/
def writtenEntries (metadata : Table MetaValue) (config : CodecConfig)
    : List (String × MetaValue) :=
  if addsAlignment metadata config then
    (alignmentKey, alignmentValue config.alignment) :: metadata.entries
  else
    metadata.entries

/--
The metadata that a saved file is loaded with.
-/
def loadedMetadata (metadata : Table MetaValue) (config : CodecConfig) : Table MetaValue :=
  let settled := metadata.map (fun _ value => value.settled)
  if addsAlignment metadata config then
    settled.insert alignmentKey (alignmentValue config.alignment)
  else
    settled

theorem encodes_alignmentRecord (alignment : Nat)
    : Encodes (alignmentKey, alignmentValue alignment) (alignmentRecord alignment) :=
  rfl

theorem forall₂_encodes_of_encodeRecords {metadata : Table MetaValue} {config : CodecConfig}
    {records : List EncodedRecord} (h : encodeRecords metadata config = .ok records)
    : List.Forall₂ Encodes (writtenEntries metadata config) records := by
  unfold encodeRecords recordsOf at h
  unfold writtenEntries addsAlignment
  rw [bind_eq_ok_iff] at h
  obtain ⟨encoded, hencoded, h⟩ := h
  rw [mapM_eq_ok_iff] at hencoded
  split at h
  . next hadds =>
    rw [pure_eq_ok_iff] at h
    rw [if_pos hadds, ← h]
    exact .cons (encodes_alignmentRecord _) hencoded
  . next hadds =>
    rw [pure_eq_ok_iff] at h
    rw [if_neg hadds, ← h]
    exact hencoded

theorem asAlignment_settled {v : MetaValue} {alignment : Nat} (h : v.asAlignment = .ok alignment)
    : v.settled.asAlignment = .ok alignment := by
  obtain ⟨t, rfl, hu32, _, hdecode⟩ := MetaValue.asAlignment_eq_ok_iff.1 h
  unfold MetaValue.settled
  dsimp only
  cases hof : Tensor.ofBytes t.dtype [] t.data with
  | error e => exact h
  | ok s =>
    obtain ⟨hdtype, hshape, hdata⟩ := Tensor.ofBytes_eq_ok_iff.1 hof
    refine MetaValue.asAlignment_eq_ok_iff.2 ⟨s, rfl, hdtype.trans hu32, ?_, ?_⟩
    . rw [Tensor.numel, hshape]
      rfl
    . rw [hdata]
      exact hdecode

theorem asAlignment_alignmentValue {alignment : Nat} (h : alignment < halfWordBound)
    : (alignmentValue alignment).asAlignment = .ok alignment := by
  refine MetaValue.asAlignment_eq_ok_iff.2 ⟨_, rfl, rfl, rfl, ?_⟩
  apply LittleEndian.decode_encode_of_lt
  rw [LittleEndian.bound_four]
  exact h

theorem settled_alignmentValue (alignment : Nat)
    : (alignmentValue alignment).settled = alignmentValue alignment := by
  have hself := Tensor.ofBytes_self ⟨.u32, [], LittleEndian.encode 4 alignment,
    Shape.sized_iff.2 ⟨rfl, LittleEndian.length_encode 4 alignment⟩⟩
  unfold alignmentValue MetaValue.settled
  dsimp only at hself ⊢
  rw [hself]

variable {metadata : Table MetaValue} {config : CodecConfig} {alignment : Nat}

theorem not_mem_keys_of_addsAlignment (h : addsAlignment metadata config = true)
    : alignmentKey ∉ metadata.keys := by
  intro hmem
  rw [← Table.contains_iff] at hmem
  simp [addsAlignment, hmem] at h

theorem chooseAlignment_of_addsAlignment (h : addsAlignment metadata config = true)
    (hchoose : chooseAlignment metadata config = .ok alignment) : config.alignment = alignment := by
  have hnot := not_mem_keys_of_addsAlignment h
  unfold chooseAlignment alignmentOf at hchoose
  split at hchoose
  . simpa using hchoose
  . next v hv => exact absurd (Table.mem_keys_iff.2 ⟨v, hv⟩) hnot

theorem asAlignment_of_mem_writtenEntries (hvalid : config.validate = .ok ())
    (hchoose : chooseAlignment metadata config = .ok alignment)
    : ∀ e ∈ writtenEntries metadata config, e.1 = alignmentKey →
        e.2.asAlignment = .ok alignment := by
  have hentries : ∀ e ∈ metadata.entries, e.1 = alignmentKey →
      e.2.asAlignment = .ok alignment := by
    rintro ⟨key, v⟩ he rfl
    have hfind := Table.find?_eq_some_iff.2 he
    unfold chooseAlignment alignmentOf at hchoose
    rw [hfind] at hchoose
    simp only [bind_eq_ok_iff, pure_eq_ok_iff] at hchoose
    obtain ⟨_, hdeclared, _, _, rfl⟩ := hchoose
    exact hdeclared
  unfold writtenEntries
  split
  . next hadds =>
    rw [List.forall_mem_cons, ← chooseAlignment_of_addsAlignment hadds hchoose]
    refine ⟨fun _ => asAlignment_alignmentValue ?_, ?_⟩
    . exact (CodecConfig.validate_eq_ok_iff.1 hvalid).2.1
    . rw [chooseAlignment_of_addsAlignment hadds hchoose]
      exact hentries
  . exact hentries

theorem asAlignment_of_mem_settled (hvalid : config.validate = .ok ())
    (hchoose : chooseAlignment metadata config = .ok alignment)
    : ∀ e ∈ (writtenEntries metadata config).map settledEntry, e.1 = alignmentKey →
        e.2.asAlignment = .ok alignment := by
  rw [List.forall_mem_map]
  intro e he hkey
  exact asAlignment_settled (asAlignment_of_mem_writtenEntries hvalid hchoose e he hkey)

theorem alignment_of_writtenEntries (hchoose : chooseAlignment metadata config = .ok alignment)
    : (if alignmentKey ∈ (writtenEntries metadata config).map (·.1) then alignment
        else defaultAlignment) = alignment := by
  split
  . rfl
  . next hnot =>
    unfold writtenEntries at hnot
    split at hnot
    . simp at hnot
    . next hadds =>
      have hkeys : alignmentKey ∉ metadata.keys := hnot
      unfold chooseAlignment alignmentOf at hchoose
      split at hchoose
      . next hnone =>
        have hcontains : metadata.contains alignmentKey = false := by
          rw [Table.contains, hnone]
          rfl
        simp only [addsAlignment, hcontains, Bool.not_false, Bool.true_and, bne_iff_ne, ne_eq,
          Decidable.not_not] at hadds
        rw [← hadds]
        simpa using hchoose
      . next v hv => exact absurd (Table.mem_keys_iff.2 ⟨v, hv⟩) hkeys

theorem insertAll_writtenEntries (metadata : Table MetaValue) (config : CodecConfig)
    : Table.empty.insertAll ((writtenEntries metadata config).map settledEntry)
        = loadedMetadata metadata config := by
  have hentries : metadata.entries.map settledEntry
      = (metadata.map (fun _ value => value.settled)).entries := rfl
  unfold writtenEntries loadedMetadata
  split
  . next hadds =>
    have hkeys : alignmentKey ∉ (metadata.map (fun _ value => value.settled)).keys := by
      rw [Table.keys_map]
      exact not_mem_keys_of_addsAlignment hadds
    rw [List.map_cons, settledEntry, settled_alignmentValue, hentries, Table.insertAll_cons,
      Table.insertAll_insert (Table.keys_nodup _) _ hkeys, Table.insertAll_entries]
  . rw [hentries, Table.insertAll_entries]

theorem find?_loadedMetadata (metadata : Table MetaValue) (config : CodecConfig) {key : String}
    (hkey : key ≠ alignmentKey)
    : (loadedMetadata metadata config).find? key = (metadata.find? key).map (·.settled) := by
  unfold loadedMetadata
  dsimp only
  split
  . rw [Table.find?_insert, if_neg hkey, Table.find?_map]
  . rw [Table.find?_map]

theorem unpacking?_of_dtype? {type : TensorType} {dtype : DType} (h : type.dtype? = some dtype)
    (name : String) : unpacking? name type = none := by
  have hscheme : Scheme.ofType? type = none := by
    cases type <;> simp only [TensorType.dtype?, reduceCtorEq] at h <;> rfl
  unfold unpacking?
  rw [hscheme]
  split
  . rfl
  . rfl

/--
A tensor as it is loaded again: with the element type, the shape and the row-major bytes of the
view.
-/
structure Loads (e : String × View) (l : String × Tensor) : Prop where
  name : l.1 = e.1
  dtype : l.2.dtype = e.2.dtype
  shape : l.2.shape = e.2.shape
  data : e.2.contiguousData e.1 = .ok l.2.data

theorem Loads.eq_of_toView {e l : String × Tensor} (h : Loads (e.1, e.2.toView) l) : e = l := by
  have hdata : e.2.toView.contiguousData e.1 = .ok l.2.data := h.data
  rw [View.contiguousData_toView, Except.ok.injEq] at hdata
  exact Prod.ext h.name.symm (Tensor.ext h.dtype.symm h.shape.symm hdata)

theorem exists_decode_of_holds {c : Container} {e : String × View} {t : PlacedTensor}
    (h : t.Holds e) (hpayload : c.payload t.descriptor = .ok t.payload)
    : ∃ l, c.decode t.descriptor = .ok [l] ∧ Loads e l := by
  obtain ⟨x, htensor⟩ : ∃ x, Tensor.ofBytes e.2.dtype e.2.shape t.payload = .ok x :=
    Tensor.exists_ofBytes_iff.2 ⟨View.small_of_contiguousData h.payload, h.length_payload⟩
  obtain ⟨hdtype, hshape, hdata⟩ := Tensor.ofBytes_eq_ok_iff.1 htensor
  refine ⟨(e.1, x), ?_, rfl, hdtype, hshape, hdata ▸ h.payload⟩
  unfold Container.decode
  rw [unpacking?_of_dtype? h.dtype?]
  dsimp only
  rw [hpayload, h.dtype?, h.name, h.shape]
  simp only [bind, Except.bind, htensor]
  rfl

theorem exists_decode_of_forall₂ {c : Container} {entries : List (String × View)}
    {placed : List PlacedTensor}
    (h : List.Forall₂ (fun e t => PlacedTensor.Holds t e) entries placed)
    (hpayloads : ∀ t ∈ placed, c.payload t.descriptor = .ok t.payload)
    : ∃ ls, List.Forall₂ (fun d out => c.decode d = .ok out) (placed.map (·.descriptor))
          (ls.map (fun l => [l])) ∧ List.Forall₂ Loads entries ls := by
  induction h with
  | nil => exact ⟨[], .nil, .nil⟩
  | cons hholds _ ih =>
    rw [List.forall_mem_cons] at hpayloads
    obtain ⟨ls, hdecode, hloads⟩ := ih hpayloads.2
    obtain ⟨l, hl, hload⟩ := exists_decode_of_holds hholds hpayloads.1
    exact ⟨l :: ls, .cons hl hdecode, .cons hload hloads⟩

theorem keys_eq_of_forall₂_loads {entries : List (String × View)} {ls : List (String × Tensor)}
    (h : List.Forall₂ Loads entries ls) : ls.map (·.1) = entries.map (·.1) := by
  induction h with
  | nil => rfl
  | cons hload _ ih => rw [List.map_cons, List.map_cons, hload.name, ih]

theorem exists_decodeAll_of_forall₂ {c : Container} {tensors : Table View}
    {placed : List PlacedTensor}
    (h : List.Forall₂ (fun e t => PlacedTensor.Holds t e) tensors.entries placed)
    (hpayloads : ∀ t ∈ placed, c.payload t.descriptor = .ok t.payload)
    : ∃ table, c.decodeAll .empty (placed.map (·.descriptor)) = .ok table ∧
        List.Forall₂ Loads tensors.entries table.entries := by
  obtain ⟨ls, hdecode, hloads⟩ := exists_decode_of_forall₂ h hpayloads
  have hkeys : ls.map (·.1) = tensors.keys := keys_eq_of_forall₂_loads hloads
  obtain ⟨table, rfl⟩ := Table.exists_table_of_keys hkeys
  refine ⟨table, ?_, hloads⟩
  rw [Container.decodeAll_eq_ok_iff]
  refine ⟨_, hdecode, ?_⟩
  have hflatten : (table.entries.map (fun l => [l])).flatten = table.entries := by
    rw [← List.flatMap_def, List.flatMap_singleton']
  rw [hflatten, Container.insertNew_eq_ok_iff]
  exact ⟨table.keys_nodup, fun _ _ => rfl, table.insertAll_entries.symm⟩

/--
All strings of a saved file: the keys, the names of the tensors and the strings in the values.
-/
def writtenTexts (tensors : Table View) (metadata : Table MetaValue) (config : CodecConfig)
    : List String :=
  tensors.keys ++ (writtenEntries metadata config).flatMap entryTexts

theorem exists_complete_of_writeFile {d d' : Disk} {path : String} {config : CodecConfig}
    {records : List EncodedRecord} {placed : List PlacedTensor}
    (hvalid : config.validate = .ok ())
    (h : Container.writeFile d path config (Container.appendAll records placed) = (.ok (), d'))
    (hsize : fileFits d' path = true)
    : ∃ (w : Written) (id : Nat), w.Complete config.version config.alignment ∧
        w.records = records ∧ w.descriptors = placed.map (·.descriptor) ∧
        w.payloads.map (·.2) = placed.map (·.payload) ∧ (w.payloads = [] → w.start? = none) ∧
        d'.find path = .ok (.file id (w.file config.version)) := by
  obtain ⟨c, d₁, o, w, hwrites, hclose, hrecords, hdescriptors, hpayloads, hnone⟩ :=
    Container.exists_writes_of_writeFile h
  obtain ⟨hcomplete, hfind⟩ := hwrites.complete_of_fits hclose hvalid hsize
  exact ⟨w, o.file, hcomplete, hrecords, hdescriptors, hpayloads, hnone, hfind⟩

/--
What a plan has become once its file is closed. Without payloads there is no data section.
-/
theorem exists_written_of_save {d d' : Disk} {path written : String} {tensors : Table View}
    (h : save d path tensors metadata config = (.ok written, d'))
    (hsize : fileFits d' written = true)
    : ∃ (alignment : Nat) (records : List EncodedRecord) (placed : List PlacedTensor) (w : Written)
          (id : Nat), plan tensors metadata config = .ok (alignment, records, placed) ∧
        w.Complete config.version alignment ∧ w.records = records ∧
        w.descriptors = placed.map (·.descriptor) ∧ w.payloads.map (·.2) = placed.map (·.payload) ∧
        (w.payloads = [] → w.start? = none) ∧
        d'.find written = .ok (.file id (w.file config.version)) := by
  obtain ⟨_, alignment, records, placed, hplan, hwrite⟩ := exists_writeFile_of_save h
  obtain ⟨hvalid, halign, _, _⟩ := plan_eq_ok_iff.1 hplan
  obtain ⟨w, id, hw⟩ :=
    exists_complete_of_writeFile (validate_of_chooseAlignment hvalid halign) hwrite hsize
  exact ⟨alignment, records, placed, w, id, hplan, hw⟩

theorem exists_complete_of_save {d d' : Disk} {path written : String} {tensors : Table View}
    (h : save d path tensors metadata config = (.ok written, d'))
    (hsize : fileFits d' written = true)
    : ∃ (alignment : Nat) (records : List EncodedRecord) (placed : List PlacedTensor) (w : Written)
          (id : Nat), plan tensors metadata config = .ok (alignment, records, placed) ∧
        w.Complete config.version alignment ∧ w.records = records ∧
        w.descriptors = placed.map (·.descriptor) ∧ w.payloads.map (·.2) = placed.map (·.payload) ∧
        d'.find written = .ok (.file id (w.file config.version)) := by
  obtain ⟨alignment, records, placed, w, id, hplan, hcomplete, hrecords, hdescriptors, hpayloads, _,
    hfind⟩ := exists_written_of_save h hsize
  exact ⟨alignment, records, placed, w, id, hplan, hcomplete, hrecords, hdescriptors, hpayloads,
    hfind⟩

section

variable {d : Disk} {path : String} {id : Nat} {tensors : Table View} {reader : CodecConfig}
  {records : List EncodedRecord} {placed : List PlacedTensor} {w : Written}
  (hplan : plan tensors metadata config = .ok (alignment, records, placed))
  (hcomplete : w.Complete config.version alignment) (hrecords : w.records = records)
  (hdescriptors : w.descriptors = placed.map (·.descriptor))
  (hpayloads : w.payloads.map (·.2) = placed.map (·.payload))
  (hfind : d.find path = .ok (.file id (w.file config.version)))
  (hshapes : ∀ e ∈ tensors.entries, Shape.Fits e.2.shape)
  (htexts : ∀ s ∈ writtenTexts tensors metadata config, s.utf8ByteSize ≤ reader.maxStringLen)
include hplan hcomplete hrecords hdescriptors hpayloads hfind hshapes htexts

/--
The index of the file of a plan is read with all that has been planned, and with the alignment that
was chosen.
-/
theorem exists_index_of_plan
    : ∃ c c', Container.ofFile d path reader = .ok c ∧
        c.ReadsIndex (loadedMetadata metadata config) w.descriptors c' ∧
        c'.alignment = alignment ∧ ∀ t ∈ placed, c'.payload t.descriptor = .ok t.payload := by
  obtain ⟨hvalid, hchoose, hencode, hplaced⟩ := plan_eq_ok_iff.1 hplan
  have hencodes := forall₂_encodes_of_encodeRecords hencode
  rw [← hrecords] at hencodes
  have hholds := forall₂_holds hplaced
  unfold writtenTexts at htexts
  rw [List.forall_mem_append] at htexts
  have hentryTexts : ∀ e ∈ writtenEntries metadata config, ∀ s ∈ entryTexts e,
      s.utf8ByteSize ≤ reader.maxStringLen := by
    intro e he s hs
    exact htexts.2 s (List.mem_flatMap.2 ⟨e, he, hs⟩)
  have hnames : ∀ t ∈ w.descriptors, t.name.utf8ByteSize ≤ reader.maxStringLen := by
    rw [hdescriptors, List.forall_mem_map]
    exact forall_of_forall₂_holds (p := fun name _ => name.utf8ByteSize ≤ reader.maxStringLen)
      hholds (fun e he => htexts.1 e.1 (List.mem_map_of_mem he))
  have hshapes' : ∀ t ∈ w.descriptors, Shape.Fits t.shape := by
    rw [hdescriptors, List.forall_mem_map]
    exact forall_of_forall₂_holds (p := fun _ shape => Shape.Fits shape) hholds hshapes
  obtain ⟨c, p, hopen, _, _, _, hdefault, hat, rs, ds, rfl, hrs, hds⟩ :=
    Container.exists_openData hcomplete hencodes hentryTexts hnames hshapes' path id
  have hdeclared : ∀ r ∈ rs, r.record.key = alignmentKey →
      r.value.asAlignment = .ok alignment := by
    have hall := asAlignment_of_mem_settled hvalid hchoose
    rw [← hrs, List.forall_mem_map] at hall
    exact hall
  obtain ⟨c₁, hmetadata, hat₁, halign₁⟩ := hat.exec_readMetadata hcomplete.power hdeclared
  have hkeys : rs.map (fun r => r.record.key) = (writtenEntries metadata config).map (·.1) := by
    have hfst := congrArg (List.map Prod.fst) hrs
    rw [List.map_map, List.map_map] at hfst
    exact hfst
  rw [hkeys, hdefault, alignment_of_writtenEntries hchoose] at halign₁
  rw [hrs, insertAll_writtenEntries] at hmetadata
  obtain ⟨c₂, hindex, hat₂, halign₂⟩ := hat₁.exec_readDescriptors
  rw [hds] at hindex
  have halign := halign₂.trans halign₁
  have hall := hat₂.map_payload_eq hcomplete rfl halign
  refine ⟨c, c₂, ?_, ⟨c₁, hmetadata, hindex⟩, halign, ?_⟩
  . rw [Container.ofFile_eq_of_find hfind]
    exact hopen
  . rw [hdescriptors, List.map_map] at hall
    have hok := congrArg (List.map (Except.ok (ε := Error))) hpayloads
    rw [List.map_map, List.map_map] at hok
    exact List.map_inj_left.1 (hall.trans hok)

/--
The file of a plan is loaded with all that has been planned.
-/
theorem exists_load_of_plan
    : ∃ content, load d path reader = .ok content ∧
        content.metadata = loadedMetadata metadata config ∧
        List.Forall₂ Loads tensors.entries content.tensors.entries := by
  obtain ⟨c, c', hopen, hindex, _, hgiven⟩ := exists_index_of_plan hplan hcomplete hrecords
    hdescriptors hpayloads hfind hshapes htexts
  have hholds := forall₂_holds (plan_eq_ok_iff.1 hplan).2.2.2
  obtain ⟨table, hdecode, hloads⟩ := exists_decodeAll_of_forall₂ hholds hgiven
  rw [← hdescriptors] at hdecode
  exact ⟨⟨table, _⟩, load_eq_ok_iff.2 ⟨c, hopen, Container.readContent_eq_ok_iff.2
    ⟨_, c', hindex, hdecode⟩⟩, rfl, hloads⟩

end

/--
Loading undoes saving, whatever the alignment and the version of the reader.
-/
theorem load_of_save {d d' : Disk} {path written : String} {tensors : Table View}
    {metadata : Table MetaValue} {config reader : CodecConfig}
    (h : save d path tensors metadata config = (.ok written, d'))
    (hsize : fileFits d' written = true)
    (hshapes : ∀ e ∈ tensors.entries, Shape.Fits e.2.shape)
    (htexts : ∀ s ∈ writtenTexts tensors metadata config, s.utf8ByteSize ≤ reader.maxStringLen)
    : ∃ content, load d' written reader = .ok content ∧
        content.metadata = loadedMetadata metadata config ∧
        List.Forall₂ Loads tensors.entries content.tensors.entries := by
  obtain ⟨alignment, records, placed, w, id, hplan, hcomplete, hrecords, hdescriptors, hpayloads,
    hfind⟩ := exists_complete_of_save h hsize
  exact exists_load_of_plan hplan hcomplete hrecords hdescriptors hpayloads hfind hshapes htexts

/--
Tensors that are saved are loaded again as they are.
-/
theorem load_of_saveTensors {d d' : Disk} {path written : String} {tensors : Table Tensor}
    {reader : CodecConfig}
    (h : save d path (tensors.map (fun _ t => t.toView)) metadata config = (.ok written, d'))
    (hsize : fileFits d' written = true)
    (hshapes : ∀ e ∈ tensors.entries, Shape.Fits e.2.shape)
    (htexts : ∀ s ∈ writtenTexts (tensors.map (fun _ t => t.toView)) metadata config,
      s.utf8ByteSize ≤ reader.maxStringLen)
    : load d' written reader = .ok ⟨tensors, loadedMetadata metadata config⟩ := by
  obtain ⟨alignment, records, placed, w, id, hplan, hcomplete, hrecords, hdescriptors, hpayloads,
    hfind⟩ := exists_complete_of_save h hsize
  have hentries : (tensors.map (fun _ t => t.toView)).entries
      = tensors.entries.map (fun e => (e.1, e.2.toView)) := rfl
  have hviews : ∀ e ∈ (tensors.map (fun _ t => t.toView)).entries, Shape.Fits e.2.shape := by
    rw [hentries]
    exact List.forall_mem_map.2 hshapes
  obtain ⟨⟨loaded, metadata'⟩, hload, hmetadata, hloads⟩ :=
    exists_load_of_plan hplan hcomplete hrecords hdescriptors hpayloads hfind hviews htexts
  rw [hentries, List.forall₂_map_left_iff] at hloads
  have hsame : tensors.entries = loaded.entries := by
    rw [← List.forall₂_eq_eq_eq]
    exact hloads.imp (fun _ _ => Loads.eq_of_toView)
  dsimp only at hmetadata
  rw [hload, Table.ext hsame, hmetadata]

/--
A tensor without elements and one of two elements.
-/
def twoTensors : Table View :=
  .ofList [("b", (Tensor.zeros .i16 [2]).toView), ("a", (Tensor.zeros .f32 [0, 3]).toView)]

/--
A number of one dimension, which it loses.
-/
def oneNumber : Table MetaValue :=
  .ofList [("n", .scalar ⟨.u16, [1], [7, 0], rfl⟩)]

theorem load_of_save_twoTensors
    : (save .empty "m" twoTensors oneNumber ⟨64, 2, 100⟩).1 = .ok "m.gguf" ∧
        ∃ content, load (save .empty "m" twoTensors oneNumber ⟨64, 2, 100⟩).2 "m.gguf" ⟨8, 3, 17⟩
            = .ok content ∧
          content.metadata = .ofList [("n", .scalar ⟨.u16, [], [7, 0], rfl⟩),
            (alignmentKey, .scalar ⟨.u32, [], [64, 0, 0, 0], rfl⟩)] ∧
          List.Forall₂ Loads twoTensors.entries content.tensors.entries := by
  have hsaved : (save .empty "m" twoTensors oneNumber ⟨64, 2, 100⟩).1 = .ok "m.gguf" := by
    decide +kernel
  have hmetadata : loadedMetadata oneNumber ⟨64, 2, 100⟩
      = .ofList [("n", .scalar ⟨.u16, [], [7, 0], rfl⟩),
        (alignmentKey, .scalar ⟨.u32, [], [64, 0, 0, 0], rfl⟩)] := by
    decide +kernel
  have hshapes : ∀ e ∈ twoTensors.entries, Shape.Fits e.2.shape := by
    have hentries : twoTensors.entries
        = [("a", (Tensor.zeros .f32 [0, 3]).toView), ("b", (Tensor.zeros .i16 [2]).toView)] := rfl
    rw [hentries]
    simp only [List.forall_mem_cons, List.not_mem_nil, false_implies, implies_true, and_true]
    exact ⟨⟨by decide, by decide⟩, ⟨by decide, by decide⟩⟩
  rw [← hmetadata]
  exact ⟨hsaved, load_of_save (Prod.fst_eq_iff.1 hsaved) (by decide +kernel) hshapes
    (by decide +kernel)⟩

end TensorFiles.Gguf
