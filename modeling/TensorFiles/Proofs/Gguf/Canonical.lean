import Mathlib.Data.List.Chain
import Mathlib.Data.Prod.Basic
import Mathlib.Order.Bounds.Defs
import TensorFiles.Proofs.Enumeration
import TensorFiles.Proofs.Gguf.Container.AppendAll
import TensorFiles.Proofs.Gguf.Container.RoundTrip
/-!
This module contains the canonical form of saved files: what is written does not depend on the
order in which the tensors and the metadata are listed, nor on where the file is.
-/

namespace TensorFiles.Gguf

theorem saveEnumerated_eq_save (d : Disk) (path : String) (tensors : Enumeration View)
    (metadata : Enumeration MetaValue) (config : CodecConfig)
    : saveEnumerated d path tensors metadata config
        = save d path tensors.table metadata.table config := by
  unfold saveEnumerated save
  rw [Enumeration.sortedEntries_eq, Enumeration.sortedEntries_eq, ← Enumeration.find?_table]

theorem map_name_of_holds {entries : List (String × View)} {placed : List PlacedTensor}
    (h : List.Forall₂ (fun e t => PlacedTensor.Holds t e) entries placed)
    : placed.map (·.descriptor.name) = entries.map (·.1) := by
  induction h with
  | nil => rfl
  | cons hholds _ ih => rw [List.map_cons, List.map_cons, hholds.name, ih]

/--
What has been written once all of a plan is: each payload at the offset of its descriptor, in a data
section that begins with the first of them.
-/
def Written.ofPlan (alignment : Nat) (records : List EncodedRecord) (placed : List PlacedTensor)
    : Written :=
  let w : Written := {
    records
    descriptors := placed.map (·.descriptor)
    payloads := placed.map (fun t => (t.descriptor.offset, t.payload))
  }
  if placed.isEmpty then
    w
  else
    { w with start? := some (alignUp (headerLength + w.index.length) alignment) }

section

variable (alignment : Nat) (records : List EncodedRecord) (placed : List PlacedTensor)

@[simp]
theorem Written.records_ofPlan : (ofPlan alignment records placed).records = records := by
  unfold ofPlan
  dsimp only
  split <;> rfl

@[simp]
theorem Written.descriptors_ofPlan
    : (ofPlan alignment records placed).descriptors = placed.map (·.descriptor) := by
  unfold ofPlan
  dsimp only
  split <;> rfl

@[simp]
theorem Written.payloads_ofPlan
    : (ofPlan alignment records placed).payloads
        = placed.map (fun t => (t.descriptor.offset, t.payload)) := by
  unfold ofPlan
  dsimp only
  split <;> rfl

end

theorem Written.start_ofPlan {alignment start : Nat} {records : List EncodedRecord}
    {placed : List PlacedTensor}
    (h : (ofPlan alignment records placed).start? = some start)
    : start = alignUp (headerLength + (ofPlan alignment records placed).index.length)
        alignment := by
  unfold ofPlan at h ⊢
  dsimp only at h ⊢
  split at h
  . simp at h
  . next hsome =>
    rw [if_neg hsome]
    exact (Option.some.inj h).symm

theorem Written.eq_ofPlan {w : Written} {alignment : Nat} {records : List EncodedRecord}
    {placed : List PlacedTensor} (hrecords : w.records = records)
    (hdescriptors : w.descriptors = placed.map (·.descriptor))
    (hpayloads : w.payloads.map (·.2) = placed.map (·.payload))
    (hextents : w.payloads.map (fun p => (p.1, p.2.length)) = w.descriptors.map Descriptor.extent)
    (hnone : w.payloads = [] → w.start? = none) (hsome : w.start? = none → w.payloads = [])
    (hstart : ∀ s, w.start? = some s → s = alignUp (headerLength + w.index.length) alignment)
    : w = ofPlan alignment records placed := by
  have hoffsets : w.payloads.map (·.1) = placed.map (·.descriptor.offset) := by
    have hfirsts := congrArg (List.map Prod.fst) hextents
    rw [hdescriptors, List.map_map, List.map_map, List.map_map] at hfirsts
    exact hfirsts
  have hpairs : w.payloads = placed.map (fun t => (t.descriptor.offset, t.payload)) := by
    rw [← List.zip_map', ← hoffsets, ← hpayloads, List.zip_map', List.map_id']
  obtain ⟨_, _, payloads, start?⟩ := w
  dsimp only at hrecords hdescriptors hpairs hnone hsome hstart
  subst hrecords hdescriptors hpairs
  unfold ofPlan
  cases hs : start? with
  | none =>
    have hempty := hsome hs
    rw [List.map_eq_nil_iff] at hempty
    subst hempty
    rfl
  | some s =>
    have hne : ¬ placed.isEmpty = true := by
      intro hempty
      rw [List.isEmpty_iff] at hempty
      rw [hempty, List.map_nil, hs] at hnone
      simpa using hnone rfl
    rw [if_neg hne, hstart s hs]
    rfl

theorem Container.exists_find_of_writeFile {d d' : Disk} {path : String} {config : CodecConfig}
    {records : List EncodedRecord} {placed : List PlacedTensor}
    (h : writeFile d path config (appendAll records placed) = (.ok (), d'))
    : (Written.ofPlan config.alignment records placed).Sound ∧
        ∃ id, d'.find path
          = .ok (.file id ((Written.ofPlan config.alignment records placed).file config.version)) := by
  obtain ⟨c, d₁, o, w, hwrites, hclose, hrecords, hdescriptors, hpayloads, hnone⟩ :=
    exists_writes_of_writeFile h
  obtain ⟨hcount, hfind⟩ := hwrites.tracks.find_close hwrites.flushed hclose
  have hsound := hwrites.tracks.sound
  have hextents : w.payloads.map (fun p => (p.1, p.2.length))
      = w.descriptors.map Descriptor.extent := by
    apply hsound.placed.eq_of_length
    rw [List.length_map, List.length_map, hcount]
  have hstart := hwrites.tracks.start
  rw [hwrites.alignment] at hstart
  rw [hwrites.version, hwrites.path] at hfind
  have heq := Written.eq_ofPlan hrecords hdescriptors hpayloads hextents hnone
    hsound.unplaced hstart
  rw [← heq]
  exact ⟨hsound, _, hfind⟩

/--
The file that is saved is that of the plan.
-/
theorem exists_find_of_save {d d' : Disk} {path written : String} {tensors : Table View}
    {metadata : Table MetaValue} {config : CodecConfig} {alignment : Nat}
    {records : List EncodedRecord} {placed : List PlacedTensor}
    (hplan : plan tensors metadata config = .ok (alignment, records, placed))
    (h : save d path tensors metadata config = (.ok written, d'))
    : (Written.ofPlan alignment records placed).Sound ∧ ∃ id, d'.find written
        = .ok (.file id ((Written.ofPlan alignment records placed).file config.version)) := by
  obtain ⟨_, _, _, _, hplan', hwrite⟩ := exists_writeFile_of_save h
  rw [hplan, Except.ok.injEq, Prod.mk.injEq, Prod.mk.injEq] at hplan'
  obtain ⟨rfl, rfl, rfl⟩ := hplan'
  exact Container.exists_find_of_writeFile hwrite

/--
Planned tensors that do not overlap have not left the machine word, and each begins at the first
boundary behind the one before it.
-/
theorem isChain_isLeast {alignment : Nat} {entries : List (String × View)}
    {placed : List PlacedTensor} (hpower : isPowerOfTwo alignment = true)
    (hsmall : alignment < halfWordBound) (h : placeTensors alignment 0 entries = .ok placed)
    (horder : InOrder ((placed.map (·.descriptor)).map Descriptor.extent))
    : (placed.map (·.descriptor)).IsChain
        (fun t t' => IsLeast {m | alignment ∣ m ∧ t.offset + t.size ≤ m} t'.offset) := by
  have hholds := forall₂_holds h
  have hchain := (isChain_of_placeTensors h).2
  unfold InOrder at horder
  rw [List.map_map, List.pairwise_map] at horder
  rw [List.isChain_map]
  rw [List.isChain_iff_getElem] at hchain ⊢
  intro i hi
  have hfollows := hchain i hi
  have hle := List.pairwise_iff_getElem.1 horder i (i + 1) (by omega) hi (by omega)
  obtain ⟨e, _, hte⟩ :=
    exists_left_of_forall₂ hholds (List.getElem_mem (show i < placed.length by omega))
  unfold Follows at hfollows
  rw [← hte.size_eq] at hfollows
  dsimp only [Function.comp, Descriptor.extent] at hle
  rw [hfollows] at hle ⊢
  exact isLeast_alignUp hpower (add_le_wordBound_of_le_alignUp hpower hle hsmall)

/--
The records that are put in front of those of the metadata.
-/
def addedRecords (declared? : Option MetaValue) (config : CodecConfig) : List EncodedRecord :=
  if declared?.isNone && config.alignment != defaultAlignment then
    [alignmentRecord config.alignment]
  else
    []

theorem Encodes.key_eq {e : String × MetaValue} {r : EncodedRecord} (h : Encodes e r)
    : r.key = e.1 := by
  unfold Encodes EncodedRecord.ofValue at h
  simp only [bind_eq_ok_iff, pure_eq_ok_iff] at h
  obtain ⟨_, _, rfl⟩ := h
  rfl

theorem map_key_of_forall₂_encodes {entries : List (String × MetaValue)}
    {records : List EncodedRecord} (h : List.Forall₂ Encodes entries records)
    : records.map (·.key) = entries.map (·.1) := by
  induction h with
  | nil => rfl
  | cons hr _ ih => rw [List.map_cons, List.map_cons, hr.key_eq, ih]

theorem exists_records_of_recordsOf {declared? : Option MetaValue}
    {entries : List (String × MetaValue)} {config : CodecConfig} {records : List EncodedRecord}
    (h : recordsOf declared?.isSome entries config = .ok records)
    : ∃ rest, records = addedRecords declared? config ++ rest ∧
        rest.map (·.key) = entries.map (·.1) := by
  unfold recordsOf at h
  rw [bind_eq_ok_iff] at h
  obtain ⟨rest, hrest, h⟩ := h
  rw [mapM_eq_ok_iff] at hrest
  refine ⟨rest, ?_, map_key_of_forall₂_encodes hrest⟩
  unfold addedRecords
  rw [Option.not_isSome] at h
  split at h
  . next hadds =>
    rw [if_pos hadds, ← pure_eq_ok_iff.1 h]
    rfl
  . next hadds =>
    rw [if_neg hadds, ← pure_eq_ok_iff.1 h]
    rfl

/--
The canonical form of what is written for tensors and metadata with an alignment.
-/
structure Written.Canonical (w : Written) (alignment : Nat) (tensors : Enumeration View)
    (metadata : Enumeration MetaValue) (config : CodecConfig) : Prop where
  chosen : alignmentOf (metadata.find? alignmentKey) config = .ok alignment
  names : (w.descriptors.map (·.name)).Perm (tensors.entries.map (·.1))
  sorted : w.descriptors.Pairwise (fun t t' => Utf8.encode t.name < Utf8.encode t'.name)
  records : ∃ rest, w.records = addedRecords (metadata.find? alignmentKey) config ++ rest ∧
    (rest.map (·.key)).Perm (metadata.entries.map (·.1)) ∧
    rest.Pairwise (fun r r' => Utf8.encode r.key < Utf8.encode r'.key)
  first : ∀ t ∈ w.descriptors.head?, t.offset = 0
  next : w.descriptors.IsChain
    (fun t t' => IsLeast {m | alignment ∣ m ∧ t.offset + t.size ≤ m} t'.offset)
  payloads : w.payloads.map (fun p => (p.1, p.2.length)) = w.descriptors.map Descriptor.extent

theorem canonical_ofPlan {alignment : Nat} {records : List EncodedRecord}
    {placed : List PlacedTensor} {tensors : Enumeration View} {metadata : Enumeration MetaValue}
    {config : CodecConfig}
    (hplan : plan tensors.table metadata.table config = .ok (alignment, records, placed))
    (hsound : (Written.ofPlan alignment records placed).Sound)
    : (Written.ofPlan alignment records placed).Canonical alignment tensors metadata config := by
  obtain ⟨hvalid, hchoose, hencode, hplaced⟩ := plan_eq_ok_iff.1 hplan
  obtain ⟨hpower, hsmall, _⟩ :=
    CodecConfig.validate_eq_ok_iff.1 (validate_of_chooseAlignment hvalid hchoose)
  have hholds := forall₂_holds hplaced
  have hnames : placed.map (·.descriptor.name) = tensors.table.keys := map_name_of_holds hholds
  unfold chooseAlignment at hchoose
  unfold encodeRecords Table.contains at hencode
  rw [Enumeration.find?_table] at hchoose hencode
  obtain ⟨rest, hrecords, hkeys⟩ := exists_records_of_recordsOf hencode
  constructor
  . exact hchoose
  . rw [Written.descriptors_ofPlan, List.map_map]
    change (placed.map (·.descriptor.name)).Perm _
    rw [hnames]
    exact tensors.keys_table_perm
  . have hsorted := tensors.pairwise_keys_table
    rw [← hnames, List.pairwise_map] at hsorted
    rw [Written.descriptors_ofPlan, List.pairwise_map]
    exact hsorted
  . refine ⟨rest, ?_, ?_, ?_⟩
    . rw [Written.records_ofPlan]
      exact hrecords
    . rw [hkeys]
      exact metadata.keys_table_perm
    . have hsorted := metadata.pairwise_keys_table
      unfold Table.keys at hsorted
      rw [← hkeys, List.pairwise_map] at hsorted
      exact hsorted
  . rw [Written.descriptors_ofPlan, List.head?_map]
    intro t ht
    obtain ⟨t', ht', rfl⟩ := Option.map_eq_some_iff.1 ht
    exact (isChain_of_placeTensors hplaced).1 t' ht'
  . have horder := hsound.order
    rw [Written.descriptors_ofPlan] at horder ⊢
    exact isChain_isLeast hpower hsmall hplaced horder
  . rw [Written.payloads_ofPlan, Written.descriptors_ofPlan, List.map_map, List.map_map]
    apply List.map_congr_left
    intro t ht
    obtain ⟨e, _, hte⟩ := exists_left_of_forall₂ hholds ht
    unfold Function.comp Descriptor.extent
    rw [hte.size_eq]

/--
Whatever the order in which tensors and metadata are listed, saving them does the same, and all
files that it makes are the same and canonical.
-/
theorem saveEnumerated_canonical {tensors tensors' : Enumeration View}
    {metadata metadata' : Enumeration MetaValue} {config : CodecConfig}
    (htensors : tensors.entries.Perm tensors'.entries)
    (hmetadata : metadata.entries.Perm metadata'.entries)
    : (∀ d path, saveEnumerated d path tensors' metadata' config
        = saveEnumerated d path tensors metadata config) ∧
      ∃ (w : Written) (alignment : Nat), ∀ d path written d',
        saveEnumerated d path tensors metadata config = (.ok written, d') →
          (∃ id, d'.find written = .ok (.file id (w.file config.version))) ∧
          w.Canonical alignment tensors metadata config := by
  constructor
  . intro d path
    rw [saveEnumerated_eq_save, saveEnumerated_eq_save, Enumeration.table_eq_of_perm htensors,
      Enumeration.table_eq_of_perm hmetadata]
  . cases hplan : plan tensors.table metadata.table config with
    | error e =>
      -- then nothing is ever saved
      refine ⟨{}, 0, fun d path written d' h => ?_⟩
      rw [saveEnumerated_eq_save, save_eq, hplan] at h
      simp at h
    | ok p =>
      obtain ⟨alignment, records, placed⟩ := p
      refine ⟨Written.ofPlan alignment records placed, alignment, fun d path written d' h => ?_⟩
      rw [saveEnumerated_eq_save] at h
      obtain ⟨hsound, hfind⟩ := exists_find_of_save hplan h
      exact ⟨hfind, canonical_ofPlan hplan hsound⟩

/--
Two tensors, and their names in the order in which they are not written.
-/
def listedTensors : Enumeration View :=
  ⟨[("b", (Tensor.zeros .i16 [2]).toView), ("a", (Tensor.zeros .f32 [3]).toView)], by decide⟩

def relistedTensors : Enumeration View :=
  ⟨[("a", (Tensor.zeros .f32 [3]).toView), ("b", (Tensor.zeros .i16 [2]).toView)], by decide⟩

def listedMetadata : Enumeration MetaValue :=
  ⟨[("é", .string "v"), ("z", .string "w")], by decide⟩

def relistedMetadata : Enumeration MetaValue :=
  ⟨[("z", .string "w"), ("é", .string "v")], by decide⟩

theorem saveEnumerated_canonical_listed
    : (saveEnumerated .empty "m" listedTensors listedMetadata ⟨64, 3, 100⟩).1 = .ok "m.gguf" ∧
        saveEnumerated .empty "m" relistedTensors relistedMetadata ⟨64, 3, 100⟩
          = saveEnumerated .empty "m" listedTensors listedMetadata ⟨64, 3, 100⟩ ∧
        ∃ (w : Written) (alignment id : Nat),
          (saveEnumerated .empty "m" listedTensors listedMetadata ⟨64, 3, 100⟩).2.find "m.gguf"
            = .ok (.file id (w.file 3)) ∧
          w.Canonical alignment listedTensors listedMetadata ⟨64, 3, 100⟩ := by
  have hsaved : (saveEnumerated .empty "m" listedTensors listedMetadata ⟨64, 3, 100⟩).1
      = .ok "m.gguf" := by
    rw [saveEnumerated_eq_save]
    decide +kernel
  have htensors : listedTensors.entries.Perm relistedTensors.entries := List.Perm.swap _ _ _
  have hmetadata : listedMetadata.entries.Perm relistedMetadata.entries := List.Perm.swap _ _ _
  obtain ⟨hsame, w, alignment, hall⟩ := saveEnumerated_canonical htensors hmetadata
  obtain ⟨⟨id, hfind⟩, hcanonical⟩ := hall _ _ _ _ (Prod.fst_eq_iff.1 hsaved)
  exact ⟨hsaved, hsame .empty "m", w, alignment, id, hfind, hcanonical⟩

end TensorFiles.Gguf
