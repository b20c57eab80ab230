import TensorFiles.Proofs.Gguf.MetaValue
import TensorFiles.Proofs.Gguf.Save
/-!
This module contains what saving accepts. All that a plan asks for is a property of single entries,
and a plan that is accepted is written, unless a tensor has too many dimensions; the container has
nothing else to refuse.
-/

namespace TensorFiles.Gguf

/--
The element types of numbers in the metadata.
-/
def numberTypes : List DType :=
  [.bool, .u8, .u16, .u32, .u64, .i8, .i16, .i32, .i64, .f32]

/--
The element types of tensors.
-/
def tensorTypes : List DType := [.f32, .f16, .i8, .i16, .i32]

/--
What a metadata value must be like to be written.
-/
def MetaValue.Writable : MetaValue → Prop
  | .empty => False
  | .string _ | .strings _ => True
  | .scalar t => t.numel = 1 ∧ t.rank ≤ 1 ∧ t.dtype ∈ numberTypes
  | .array t => t.rank = 1 ∧ t.numel ≠ 0 ∧ t.dtype ∈ numberTypes

/--
The value is a single 32 bit word that is a power of two.
-/
def MetaValue.DeclaresAlignment : MetaValue → Prop
  | .scalar t => t.dtype = .u32 ∧ t.numel = 1 ∧ ∃ k, LittleEndian.decode t.data = 2 ^ k
  | _ => False

/--
The payload of a view can be laid out in a data section.
-/
structure Placeable (v : View) : Prop where
  dtype : v.dtype ∈ tensorTypes
  eval : v.eval = .ok ()
  contiguous : v.Contiguous

/--
What tensors, metadata and settings must be like to be saved.
-/
structure Savable (tensors : Table View) (metadata : Table MetaValue) (config : CodecConfig)
    : Prop where
  config : config.validate = .ok ()
  alignment : ∀ v, metadata.find? alignmentKey = some v → v.DeclaresAlignment
  values : ∀ e ∈ metadata.entries, e.2.Writable
  placeable : ∀ e ∈ tensors.entries, Placeable e.2
  ranks : ∀ e ∈ tensors.entries, e.2.rank ≤ maxRank

theorem exists_valueType_iff {d : DType}
    : (∃ type, ValueType.ofDType? d = some type) ↔ d ∈ numberTypes := by
  cases d <;> simp [ValueType.ofDType?, numberTypes]

theorem exists_tensorType_iff {d : DType}
    : (∃ type, TensorType.ofDType? d = some type) ↔ d ∈ tensorTypes := by
  cases d <;> simp [TensorType.ofDType?, tensorTypes]

theorem MetaValue.exists_encode_iff (key : String) {v : MetaValue}
    : (∃ r, v.encode key = .ok r) ↔ v.Writable := by
  cases v with
  | empty => simp [encode, Writable]
  | string text => simp [encode, Writable]
  | strings texts => simp [encode, Writable]
  | scalar t =>
    simp only [encode, Writable, ← exists_valueType_iff]
    split
    . next hform =>
      simp only [reduceCtorEq, exists_false, false_iff]
      omega
    . next hform =>
      have hone : t.numel = 1 ∧ t.rank ≤ 1 := by omega
      rw [← and_assoc, and_iff_right hone]
      cases ValueType.ofDType? t.dtype with
      | none => simp
      | some type => simp
  | array t =>
    simp only [encode, Writable, ← exists_valueType_iff]
    split
    . next hrank => simp [hrank]
    . next hrank =>
      split
      . next hnone => simp [hnone]
      . next hsome =>
        rw [and_iff_right (Decidable.not_not.1 hrank), and_iff_right hsome]
        cases ValueType.ofDType? t.dtype with
        | none => simp
        | some type => simp

theorem exists_encodeRecords_iff {metadata : Table MetaValue} {config : CodecConfig}
    : (∃ records, encodeRecords metadata config = .ok records) ↔
      ∀ e ∈ metadata.entries, e.2.Writable := by
  have hrecord (e : String × MetaValue)
      : (∃ r, EncodedRecord.ofValue e.1 e.2 = .ok r) ↔ e.2.Writable := by
    rw [← MetaValue.exists_encode_iff e.1]
    unfold EncodedRecord.ofValue
    simp only [bind_eq_ok_iff, pure_eq_ok_iff]
    constructor
    . rintro ⟨_, encoded, hencode, _⟩
      exact ⟨encoded, hencode⟩
    . rintro ⟨encoded, hencode⟩
      exact ⟨_, encoded, hencode, rfl⟩
  simp only [← hrecord]
  rw [← exists_forall₂_iff]
  unfold encodeRecords recordsOf
  simp only [bind_eq_ok_iff, mapM_eq_ok_iff]
  constructor
  . rintro ⟨_, records, hrecords, _⟩
    exact ⟨records, hrecords⟩
  . rintro ⟨records, hrecords⟩
    split
    . exact ⟨_, records, hrecords, rfl⟩
    . exact ⟨_, records, hrecords, rfl⟩

theorem exists_chooseAlignment_iff {metadata : Table MetaValue} {config : CodecConfig}
    (hvalid : config.validate = .ok ())
    : (∃ alignment, chooseAlignment metadata config = .ok alignment) ↔
      ∀ v, metadata.find? alignmentKey = some v → v.DeclaresAlignment := by
  obtain ⟨_, _, hversion⟩ := CodecConfig.validate_eq_ok_iff.1 hvalid
  unfold chooseAlignment alignmentOf
  cases metadata.find? alignmentKey with
  | none => simp
  | some v =>
    simp only [Option.some.injEq, forall_eq', bind_eq_ok_iff, pure_eq_ok_iff]
    constructor
    . rintro ⟨_, alignment, hdeclared, _, hvalidate, _⟩
      obtain ⟨t, rfl, hu32, hone, rfl⟩ := MetaValue.asAlignment_eq_ok_iff.1 hdeclared
      obtain ⟨hpower, _⟩ := CodecConfig.validate_eq_ok_iff.1 hvalidate
      exact ⟨hu32, hone, isPowerOfTwo_iff.1 hpower⟩
    . intro hdeclares
      cases v with
      | scalar t =>
        obtain ⟨hu32, hone, hpower⟩ := hdeclares
        have hvalidate : CodecConfig.validate
            { config with alignment := LittleEndian.decode t.data } = .ok () :=
          CodecConfig.validate_eq_ok_iff.2
            ⟨isPowerOfTwo_iff.2 hpower, decode_lt_of_u32 hu32 hone, hversion⟩
        exact ⟨_, _, MetaValue.asAlignment_eq_ok_iff.2 ⟨t, rfl, hu32, hone, rfl⟩, (), hvalidate,
          rfl⟩
      | empty => exact hdeclares.elim
      | array t => exact hdeclares.elim
      | string text => exact hdeclares.elim
      | strings texts => exact hdeclares.elim

theorem dataBound_cons {e : String × View} {entries : List (String × View)}
    : dataBound (e :: entries) = e.2.nbytes + halfWordBound + dataBound entries := by
  unfold dataBound
  rw [List.map_cons, List.sum_cons]

theorem exists_placeTensors_iff {alignment offset : Nat} {entries : List (String × View)}
    (hpower : isPowerOfTwo alignment = true) (hsmall : alignment < halfWordBound)
    (hsize : offset + dataBound entries < wordBound)
    : (∃ placed, placeTensors alignment offset entries = .ok placed) ↔
      ∀ e ∈ entries, Placeable e.2 ∧ Shape.Small e.2.shape := by
  induction entries generalizing offset with
  | nil => simp [placeTensors_nil_eq_ok_iff]
  | cons e entries ih =>
    obtain ⟨name, view⟩ := e
    rw [dataBound_cons] at hsize
    dsimp only at hsize
    -- the padding in front of the next tensor is less than the bound leaves for it
    have hnext (payload : List UInt8) (hpayload : view.contiguousData name = .ok payload)
        : offset + payload.length + alignment < wordBound ∧
          alignUp (offset + payload.length) alignment + dataBound entries < wordBound := by
      have hlength := View.length_of_contiguousData hpayload
      have hfits : offset + payload.length + alignment < wordBound := by omega
      have hlt := alignUp_lt hpower (Nat.le_of_lt hfits)
      exact ⟨hfits, by omega⟩
    simp only [List.forall_mem_cons, placeTensors_cons_eq_ok_iff]
    constructor
    . rintro ⟨_, type, payload, rest, htype, hpayload, _, hrest, _⟩
      obtain ⟨heval, hcontiguous, hshape⟩ :=
        (View.exists_contiguousData_iff name).1 ⟨payload, hpayload⟩
      exact ⟨⟨⟨exists_tensorType_iff.1 ⟨type, htype⟩, heval, hcontiguous⟩, hshape⟩,
        (ih (hnext payload hpayload).2).1 ⟨rest, hrest⟩⟩
    . rintro ⟨⟨⟨hdtype, heval, hcontiguous⟩, hshape⟩, hrest⟩
      obtain ⟨type, htype⟩ := exists_tensorType_iff.2 hdtype
      obtain ⟨payload, hpayload⟩ :=
        (View.exists_contiguousData_iff name).2 ⟨heval, hcontiguous, hshape⟩
      obtain ⟨hfits, hbound⟩ := hnext payload hpayload
      obtain ⟨placed, hplaced⟩ := (ih hbound).2 hrest
      exact ⟨_, type, payload, placed, htype, hpayload, hfits, hplaced, rfl⟩

theorem exists_plan_iff {tensors : Table View} {metadata : Table MetaValue} {config : CodecConfig}
    (hsize : dataBound tensors.entries < wordBound)
    : (∃ p, plan tensors metadata config = .ok p) ↔
      config.validate = .ok () ∧
        (∀ v, metadata.find? alignmentKey = some v → v.DeclaresAlignment) ∧
        (∀ e ∈ metadata.entries, e.2.Writable) ∧
        ∀ e ∈ tensors.entries, Placeable e.2 ∧ Shape.Small e.2.shape := by
  have hplace {alignment : Nat} (hvalid : config.validate = .ok ())
      (halign : chooseAlignment metadata config = .ok alignment)
      : (∃ placed, placeTensors alignment 0 tensors.entries = .ok placed) ↔
          ∀ e ∈ tensors.entries, Placeable e.2 ∧ Shape.Small e.2.shape := by
    obtain ⟨hpower, hlt, _⟩ :=
      CodecConfig.validate_eq_ok_iff.1 (validate_of_chooseAlignment hvalid halign)
    exact exists_placeTensors_iff hpower hlt (by rwa [Nat.zero_add])
  constructor
  . rintro ⟨⟨alignment, records, placed⟩, h⟩
    obtain ⟨hvalid, halign, hrecords, hplaced⟩ := plan_eq_ok_iff.1 h
    exact ⟨hvalid, (exists_chooseAlignment_iff hvalid).1 ⟨alignment, halign⟩,
      exists_encodeRecords_iff.1 ⟨records, hrecords⟩, (hplace hvalid halign).1 ⟨placed, hplaced⟩⟩
  . rintro ⟨hvalid, hdeclares, hvalues, hplaceable⟩
    obtain ⟨alignment, halign⟩ := (exists_chooseAlignment_iff hvalid).2 hdeclares
    obtain ⟨records, hrecords⟩ := exists_encodeRecords_iff.2 hvalues
    obtain ⟨placed, hplaced⟩ := (hplace hvalid halign).2 hplaceable
    exact ⟨_, plan_eq_ok_iff.2 ⟨hvalid, halign, hrecords, hplaced⟩⟩

section

variable {e : Error}

end

theorem exists_create_of_disk {d d' : Disk} {path : String} {config : CodecConfig} {id : Nat}
    (hvalid : config.validate = .ok ()) (h : d.create path = .ok (d', id))
    : ∃ c, Container.create d path config = .ok (c, d') := by
  unfold Container.create
  rw [hvalid, h]
  exact ⟨_, rfl⟩

/--
A file is written unless a tensor has too many dimensions, and that is then the error.
-/
theorem Container.writeFile_fst_of_inPlace {d d' : Disk} {path : String} {config : CodecConfig}
    {c : Container} (hcreate : create d path config = .ok (c, d')) (records : List EncodedRecord)
    {placed : List PlacedTensor} (hplace : InPlace config.alignment 0 placed)
    (hsized : ∀ t ∈ placed, t.descriptor.byteSize = .ok t.descriptor.size)
    (hpayloads : placed.map (fun t => t.payload.length) = placed.map (fun t => t.descriptor.size))
    (hnear : Near 0 (placed.map (fun t => (t.descriptor.offset, t.payload))))
    : ((∀ t ∈ placed, t.descriptor.shape.length ≤ maxRank) ∧
        (writeFile d path config (appendAll records placed)).1 = .ok ()) ∨
      ((∃ t ∈ placed, maxRank < t.descriptor.shape.length) ∧ ∃ name rank,
        (writeFile d path config (appendAll records placed)).1
          = .error (.gguf (.rankTooLarge name rank))) := by
  by_cases hrank : ∃ t ∈ placed, maxRank < t.descriptor.shape.length
  . refine .inr ⟨hrank, ?_⟩
    obtain ⟨_, _, hs, o, hwrites⟩ := exists_writes_of_create hcreate
    rw [← hwrites.alignment] at hplace
    obtain ⟨name, rank, c', hexec⟩ :=
      hwrites.tracks.exec_appendAll_of_rank hs records hplace hsized hrank
    refine ⟨name, rank, ?_⟩
    unfold exec at hexec
    unfold writeFile
    rw [hcreate]
    simp only [hexec]
  . have hranks : ∀ t ∈ placed, t.descriptor.shape.length ≤ maxRank := by
      intro t ht
      exact Nat.not_lt.1 (fun hlt => hrank ⟨t, ht, hlt⟩)
    exact .inl ⟨hranks, (writeFile_of_inPlace hcreate records hplace hsized hpayloads hnear).1 hranks⟩

/--
What is planned is saved unless a tensor has too many dimensions, and that is then the error.
-/
theorem save_fst_of_plan {d : Disk} {path : String} {tensors : Table View}
    {metadata : Table MetaValue} {config : CodecConfig}
    (hplan : ∃ p, plan tensors metadata config = .ok p)
    (hpath : ∃ made, d.create (FileFormat.gguf.normalize path) = .ok made)
    : ((∀ e ∈ tensors.entries, e.2.rank ≤ maxRank) ∧
        (save d path tensors metadata config).1 = .ok (FileFormat.gguf.normalize path)) ∨
      (¬ (∀ e ∈ tensors.entries, e.2.rank ≤ maxRank) ∧ ∃ name rank,
        (save d path tensors metadata config).1 = .error (.gguf (.rankTooLarge name rank))) := by
  obtain ⟨⟨alignment, records, placed⟩, hplan⟩ := hplan
  obtain ⟨hvalid, halign, _, hplaced⟩ := plan_eq_ok_iff.1 hplan
  obtain ⟨hplace, hsized, hpayloads⟩ := inPlace_of_plan hplan
  obtain ⟨⟨d', id⟩, hmade⟩ := hpath
  obtain ⟨c, hcreate⟩ := exists_create_of_disk (validate_of_chooseAlignment hvalid halign) hmade
  have hranks := forall_holds_iff (p := fun _ shape => shape.length ≤ maxRank)
    (forall₂_holds hplaced)
  rw [save_eq, hplan]
  dsimp only
  rcases Container.writeFile_fst_of_inPlace hcreate records hplace hsized hpayloads
      (Container.near_of_placeTensors hplaced) with
    ⟨hall, hok⟩ | ⟨⟨t, ht, hlt⟩, name, rank, herror⟩
  . rw [hok]
    exact .inl ⟨hranks.1 hall, rfl⟩
  . rw [herror]
    refine .inr ⟨?_, name, rank, rfl⟩
    intro hall
    exact absurd (hranks.2 hall t ht) (Nat.not_le.2 hlt)

theorem Savable.save_fst {d : Disk} {path : String} {tensors : Table View}
    {metadata : Table MetaValue} {config : CodecConfig} (h : Savable tensors metadata config)
    (hsmall : ∀ e ∈ tensors.entries, Shape.Small e.2.shape)
    (hsize : dataBound tensors.entries < wordBound)
    (hpath : ∃ made, d.create (FileFormat.gguf.normalize path) = .ok made)
    : (save d path tensors metadata config).1 = .ok (FileFormat.gguf.normalize path) := by
  have hplan := (exists_plan_iff hsize).2 ⟨h.config, h.alignment, h.values,
    fun e he => ⟨h.placeable e he, hsmall e he⟩⟩
  rcases save_fst_of_plan hplan hpath with ⟨_, hok⟩ | ⟨hranks, _⟩
  . exact hok
  . exact absurd h.ranks hranks

end TensorFiles.Gguf
