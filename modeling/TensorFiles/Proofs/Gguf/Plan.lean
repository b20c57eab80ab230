import Mathlib.Algebra.GroupWithZero.Nat
import Mathlib.Data.List.Chain
import TensorFiles.Proofs.Alignment
import TensorFiles.Proofs.Gguf.Container.Written
import TensorFiles.Proofs.Tensor.View
/-!
This module contains the plan of a file: all that is worked out, and can be refused, before the
file is created. The tensors of a plan are aligned and do not overlap.
-/

namespace TensorFiles.Gguf

def chooseAlignment (metadata : Table MetaValue) (config : CodecConfig) : Except Error Nat :=
  alignmentOf (metadata.find? alignmentKey) config

def encodeRecords (metadata : Table MetaValue) (config : CodecConfig)
    : Except Error (List EncodedRecord) :=
  recordsOf (metadata.contains alignmentKey) metadata.entries config

/--
The alignment, the records and the tensors of the file that is to be written.
-/
def plan (tensors : Table View) (metadata : Table MetaValue) (config : CodecConfig)
    : Except Error (Nat × List EncodedRecord × List PlacedTensor) := do
  config.validate
  let alignment ← chooseAlignment metadata config
  let records ← encodeRecords metadata config
  let placed ← placeTensors alignment 0 tensors.entries
  return (alignment, records, placed)

theorem save_eq (d : Disk) (path : String) (tensors : Table View) (metadata : Table MetaValue)
    (config : CodecConfig)
    : save d path tensors metadata config
        =
      match plan tensors metadata config with
      | .error e => (.error e, d)
      | .ok (alignment, records, placed) =>
        let r := Container.writeFile d (FileFormat.gguf.normalize path) { config with alignment }
          (Container.appendAll records placed)
        (r.1.map (fun () => FileFormat.gguf.normalize path), r.2) :=
  rfl

/--
Saving writes a plan.
-/
theorem exists_writeFile_of_save {d d' : Disk} {path written : String} {tensors : Table View}
    {metadata : Table MetaValue} {config : CodecConfig}
    (h : save d path tensors metadata config = (.ok written, d'))
    : written = FileFormat.gguf.normalize path ∧ ∃ alignment records placed,
        plan tensors metadata config = .ok (alignment, records, placed) ∧
        Container.writeFile d written { config with alignment }
          (Container.appendAll records placed) = (.ok (), d') := by
  rw [save_eq] at h
  split at h
  . simp at h
  . next alignment records placed hplan =>
    rw [Prod.mk.injEq, map_eq_ok_iff] at h
    obtain ⟨⟨_, hok, rfl⟩, hdisk⟩ := h
    exact ⟨rfl, alignment, records, placed, hplan, Prod.ext hok hdisk⟩

theorem eq_normalize_of_save {d d' : Disk} {path written : String} {tensors : Table View}
    {metadata : Table MetaValue} {config : CodecConfig}
    (h : save d path tensors metadata config = (.ok written, d'))
    : written = FileFormat.gguf.normalize path :=
  (exists_writeFile_of_save h).1

theorem plan_eq_ok_iff {tensors : Table View} {metadata : Table MetaValue} {config : CodecConfig}
    {alignment : Nat} {records : List EncodedRecord} {placed : List PlacedTensor}
    : plan tensors metadata config = .ok (alignment, records, placed) ↔
      config.validate = .ok () ∧ chooseAlignment metadata config = .ok alignment ∧
        encodeRecords metadata config = .ok records ∧
        placeTensors alignment 0 tensors.entries = .ok placed := by
  unfold plan
  simp only [bind_eq_ok_iff, pure_eq_ok_iff, Prod.mk.injEq]
  constructor
  . rintro ⟨⟨⟩, hvalid, _, halign, _, hrecords, _, hplaced, rfl, rfl, rfl⟩
    exact ⟨hvalid, halign, hrecords, hplaced⟩
  . rintro ⟨hvalid, halign, hrecords, hplaced⟩
    exact ⟨(), hvalid, alignment, halign, records, hrecords, placed, hplaced, rfl, rfl, rfl⟩

theorem validate_of_chooseAlignment {metadata : Table MetaValue} {config : CodecConfig}
    {alignment : Nat} (hvalid : config.validate = .ok ())
    (h : chooseAlignment metadata config = .ok alignment)
    : CodecConfig.validate { config with alignment } = .ok () := by
  unfold chooseAlignment alignmentOf at h
  split at h
  . simp only [Except.ok.injEq] at h
    rw [← h]
    exact hvalid
  . simp only [bind_eq_ok_iff, pure_eq_ok_iff] at h
    obtain ⟨_, _, ⟨⟩, hvalid', rfl⟩ := h
    exact hvalid'

/--
A planned tensor is that of an entry.
-/
structure PlacedTensor.Holds (t : PlacedTensor) (e : String × View) : Prop where
  name : t.descriptor.name = e.1
  shape : t.descriptor.shape = e.2.shape
  type : TensorType.ofDType? e.2.dtype = some t.descriptor.type
  payload : e.2.contiguousData e.1 = .ok t.payload

theorem placeTensors_nil_eq_ok_iff {alignment offset : Nat} {placed : List PlacedTensor}
    : placeTensors alignment offset [] = .ok placed ↔ placed = [] := by
  simp only [placeTensors, Except.ok.injEq, eq_comm]

theorem placeTensors_cons_eq_ok_iff {alignment offset : Nat} {name : String} {view : View}
    {entries : List (String × View)} {placed : List PlacedTensor}
    : placeTensors alignment offset ((name, view) :: entries) = .ok placed ↔
        ∃ type payload rest, TensorType.ofDType? view.dtype = some type ∧
          view.contiguousData name = .ok payload ∧
          offset + payload.length + alignment < wordBound ∧
          placeTensors alignment (alignUp (offset + payload.length) alignment) entries = .ok rest ∧
          placed = ⟨⟨name, view.shape, type, offset⟩, payload⟩ :: rest := by
  rw [placeTensors]
  cases TensorType.ofDType? view.dtype with
  | none => simp
  | some type =>
    simp only [bind_eq_ok_iff, Option.some.injEq]
    constructor
    . rintro ⟨payload, hpayload, h⟩
      split at h
      . simp at h
      . next hfits =>
        simp only [bind_eq_ok_iff, pure_eq_ok_iff] at h
        obtain ⟨rest, hrest, rfl⟩ := h
        exact ⟨type, payload, rest, rfl, hpayload, Nat.not_le.1 hfits, hrest, rfl⟩
    . rintro ⟨_, payload, rest, rfl, hpayload, hfits, hrest, rfl⟩
      refine ⟨payload, hpayload, ?_⟩
      rw [if_neg (Nat.not_le.2 hfits), hrest]
      rfl

theorem forall₂_holds {alignment offset : Nat} {entries : List (String × View)}
    {placed : List PlacedTensor} (h : placeTensors alignment offset entries = .ok placed)
    : List.Forall₂ (fun e t => PlacedTensor.Holds t e) entries placed := by
  induction entries generalizing offset placed with
  | nil =>
    rw [placeTensors_nil_eq_ok_iff.1 h]
    exact .nil
  | cons e entries ih =>
    obtain ⟨type, payload, rest, htype, hpayload, _, hrest, rfl⟩ := placeTensors_cons_eq_ok_iff.1 h
    exact .cons ⟨rfl, rfl, htype, hpayload⟩ (ih hrest)

/--
Each tensor of a plan begins where the one before it, rounded up, ends.
-/
def Follows (alignment : Nat) (t t' : PlacedTensor) : Prop :=
  t'.descriptor.offset = alignUp (t.descriptor.offset + t.payload.length) alignment

theorem isChain_of_placeTensors {alignment offset : Nat} {entries : List (String × View)}
    {placed : List PlacedTensor} (h : placeTensors alignment offset entries = .ok placed)
    : (∀ t ∈ placed.head?, t.descriptor.offset = offset) ∧ placed.IsChain (Follows alignment) := by
  induction entries generalizing offset placed with
  | nil =>
    rw [placeTensors_nil_eq_ok_iff.1 h]
    simp
  | cons e entries ih =>
    obtain ⟨type, payload, rest, _, _, _, hrest, rfl⟩ := placeTensors_cons_eq_ok_iff.1 h
    obtain ⟨hfirst, hchain⟩ := ih hrest
    exact ⟨by simp, hchain.cons hfirst⟩

namespace PlacedTensor.Holds

variable {t : PlacedTensor} {e : String × View}

theorem dtype? (h : t.Holds e) : t.descriptor.type.dtype? = some e.2.dtype :=
  TensorType.ofDType?_eq_some_iff.1 h.type

theorem length_payload (h : t.Holds e) : t.payload.length = e.2.nbytes :=
  View.length_of_contiguousData h.payload

theorem size_eq (h : t.Holds e) : t.descriptor.size = t.payload.length := by
  rw [h.length_payload]
  unfold Descriptor.size Descriptor.numel View.nbytes View.numel
  rw [TensorType.blockSize_of_dtype? h.dtype?, TensorType.blockBytes_of_dtype? h.dtype?,
    Nat.div_one, h.shape]

theorem byteSize_eq (h : t.Holds e) (hsize : t.payload.length < wordBound)
    : t.descriptor.byteSize = .ok t.descriptor.size := by
  refine Descriptor.byteSize_eq_ok_iff.2 ⟨?_, ?_, rfl, ?_⟩
  . rw [h.shape]
    exact View.small_of_contiguousData h.payload
  . rw [TensorType.blockSize_of_dtype? h.dtype?]
    exact Nat.one_dvd _
  . rw [h.size_eq]
    exact hsize

end PlacedTensor.Holds

/--
A bound on the size of the data section: besides its bytes each tensor takes less than 2^32 bytes of
padding.
-/
def dataBound (entries : List (String × View)) : Nat :=
  (entries.map (fun e => e.2.nbytes + halfWordBound)).sum

/--
What holds of planned tensors from `offset` on.
-/
structure InPlace (alignment offset : Nat) (placed : List PlacedTensor) : Prop where
  aligned : ∀ t ∈ placed, t.descriptor.offset % alignment = 0
  after : ∀ t ∈ placed, offset ≤ t.descriptor.offset
  small : ∀ t ∈ placed, t.payload.length < wordBound
  order : InOrder (placed.map (fun t => t.descriptor.extent))

theorem inPlace_of_placeTensors {alignment offset : Nat} {entries : List (String × View)}
    {placed : List PlacedTensor} (hpower : isPowerOfTwo alignment = true)
    (haligned : offset % alignment = 0)
    (h : placeTensors alignment offset entries = .ok placed)
    : InPlace alignment offset placed := by
  induction entries generalizing offset placed with
  | nil =>
    rw [placeTensors_nil_eq_ok_iff.1 h]
    constructor <;> simp [InOrder]
  | cons e entries ih =>
    have hholds := forall₂_holds h
    obtain ⟨type, payload, rest, _, _, hfits, hrest, rfl⟩ := placeTensors_cons_eq_ok_iff.1 h
    rw [List.forall₂_cons] at hholds
    have hsize := hholds.1.size_eq
    -- the next tensor begins at the first boundary behind this one
    have hle := le_alignUp hpower (Nat.le_of_lt hfits)
    have hplace := ih (alignUp_mod _ hpower) hrest
    constructor
    . rw [List.forall_mem_cons]
      exact ⟨haligned, hplace.aligned⟩
    . rw [List.forall_mem_cons]
      refine ⟨Nat.le_refl offset, fun t ht => ?_⟩
      have := hplace.after t ht
      omega
    . rw [List.forall_mem_cons]
      refine ⟨?_, hplace.small⟩
      dsimp only
      omega
    . unfold InOrder
      rw [List.map_cons, List.pairwise_cons]
      refine ⟨?_, hplace.order⟩
      intro extent hextent
      obtain ⟨t, ht, rfl⟩ := List.mem_map.1 hextent
      have := hplace.after t ht
      dsimp only [Descriptor.extent] at hsize ⊢
      omega

/--
The tensors of a plan are in place, and each has the size that its descriptor declares.
-/
theorem inPlace_of_plan {tensors : Table View} {metadata : Table MetaValue} {config : CodecConfig}
    {alignment : Nat} {records : List EncodedRecord} {placed : List PlacedTensor}
    (h : plan tensors metadata config = .ok (alignment, records, placed))
    : InPlace alignment 0 placed ∧
        (∀ t ∈ placed, t.descriptor.byteSize = .ok t.descriptor.size) ∧
        placed.map (fun t => t.payload.length) = placed.map (fun t => t.descriptor.size) := by
  obtain ⟨hvalid, halign, _, hplaced⟩ := plan_eq_ok_iff.1 h
  obtain ⟨hpower, _⟩ := CodecConfig.validate_eq_ok_iff.1 (validate_of_chooseAlignment hvalid halign)
  have hplace := inPlace_of_placeTensors hpower (Nat.zero_mod alignment) hplaced
  have hholds := forall₂_holds hplaced
  refine ⟨hplace, ?_, ?_⟩
  . intro t ht
    obtain ⟨e, _, hte⟩ := exists_left_of_forall₂ hholds ht
    exact hte.byteSize_eq (hplace.small t ht)
  . apply List.map_congr_left
    intro t ht
    obtain ⟨e, _, hte⟩ := exists_left_of_forall₂ hholds ht
    exact hte.size_eq.symm

/--
Planned tensors have the names and the shapes of the entries.
-/
theorem forall_holds_iff {entries : List (String × View)} {placed : List PlacedTensor}
    {p : String → List Nat → Prop}
    (h : List.Forall₂ (fun e t => PlacedTensor.Holds t e) entries placed)
    : (∀ t ∈ placed, p t.descriptor.name t.descriptor.shape) ↔ ∀ e ∈ entries, p e.1 e.2.shape := by
  refine (forall_iff_of_forall₂ h ?_).symm
  intro e t hholds
  rw [hholds.name, hholds.shape]

theorem forall_of_forall₂_holds {entries : List (String × View)} {placed : List PlacedTensor}
    {p : String → List Nat → Prop}
    (h : List.Forall₂ (fun e t => PlacedTensor.Holds t e) entries placed)
    (hentries : ∀ e ∈ entries, p e.1 e.2.shape)
    : ∀ t ∈ placed, p t.descriptor.name t.descriptor.shape :=
  (forall_holds_iff h).2 hentries

end TensorFiles.Gguf
