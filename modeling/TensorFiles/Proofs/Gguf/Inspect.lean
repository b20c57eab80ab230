import TensorFiles.Proofs.Gguf.Container.Index
import TensorFiles.Proofs.Gguf.Decode
/-!
This module contains how loading a file and inspecting it go together. Both read the same metadata
and the same descriptors, so a file that can be inspected is only refused by what its descriptors
ask for.
-/

namespace TensorFiles.Gguf

/--
What descriptors must be like for all their payloads to be loaded.
-/
structure Loadable (ds : List Descriptor) : Prop where
  divisible : ∀ t ∈ ds, t.Divisible
  decodable : ∀ t ∈ ds, t.type ∉ undecodableTypes
  distinct : (ds.flatMap (·.producedNames)).Nodup

namespace Container

variable {c c' : Container} {ds : List Descriptor}

theorem names_of_forall₂_decode {outs : List (List (String × Tensor))}
    (h : List.Forall₂ (fun t out => c.decode t = .ok out) ds outs)
    : outs.flatten.map (·.1) = ds.flatMap (·.producedNames) := by
  induction h with
  | nil => rfl
  | cons hdecode _ ih =>
    rw [List.flatten_cons, List.map_append, List.flatMap_cons, names_of_decode hdecode, ih]

theorem exists_decodeAll_iff
    : (∃ tensors, c.decodeAll .empty ds = .ok tensors) ↔
      (∀ t ∈ ds, ∃ out, c.decode t = .ok out) ∧ (ds.flatMap (·.producedNames)).Nodup := by
  simp only [decodeAll_eq_ok_iff, insertNew_eq_ok_iff]
  rw [← exists_forall₂_iff]
  constructor
  . rintro ⟨_, outs, houts, hnodup, _, _⟩
    rw [names_of_forall₂_decode houts] at hnodup
    exact ⟨⟨outs, houts⟩, hnodup⟩
  . rintro ⟨⟨outs, houts⟩, hnodup⟩
    rw [← names_of_forall₂_decode houts] at hnodup
    exact ⟨_, outs, houts, hnodup, fun _ _ => rfl, rfl⟩

theorem keys_perm_of_decodeAll {tensors : Table Tensor}
    (h : c.decodeAll .empty ds = .ok tensors)
    : tensors.keys.Perm (ds.flatMap (·.producedNames)) := by
  obtain ⟨outs, houts, hinsert⟩ := decodeAll_eq_ok_iff.1 h
  obtain ⟨hnodup, _, rfl⟩ := insertNew_eq_ok_iff.1 hinsert
  rw [← names_of_forall₂_decode houts, List.perm_ext_iff_of_nodup (Table.keys_nodup _) hnodup]
  intro key
  rw [Table.mem_keys_insertAll hnodup]
  exact or_iff_left List.not_mem_nil

theorem ReadsIndex.exists_dataStart {metadata : Table MetaValue}
    (h : c.ReadsIndex metadata ds c') (hdone : c.tensorsDone = 0)
    : ∃ start, c'.dataStart = .ok start := by
  obtain ⟨c₁, hmetadata, hds⟩ := h
  have hkept := metadataCall_readMetadata.keepsIndex c
  rw [hmetadata] at hkept
  have hle : c₁.tensorsDone ≤ c₁.tensorCount := by
    rw [hkept.2, hdone]
    exact Nat.zero_le _
  obtain ⟨start, hstart⟩ := Option.isSome_iff_exists.1
    (isSome_dataStart?_of_readDescriptors hle hds)
  unfold dataStart
  rw [hstart]
  exact ⟨start, rfl⟩

theorem exists_decodeAll_iff_loadable
    : (∃ tensors, c.decodeAll .empty ds = .ok tensors) ↔
      c.checkPayloads ds = .ok () ∧ Loadable ds ∧ ∀ t ∈ ds, t.rowBits < wordBound := by
  simp only [exists_decodeAll_iff, exists_decode_iff, checkPayloads_eq_ok_iff]
  constructor
  . rintro ⟨hall, hnodup⟩
    exact ⟨fun t ht => (hall t ht).1, ⟨fun t ht => (hall t ht).2.1.1, fun t ht => (hall t ht).2.2,
      hnodup⟩, fun t ht => (hall t ht).2.1.2⟩
  . rintro ⟨hpayloads, ⟨hdivisible, hdecodable, hnodup⟩, hrows⟩
    exact ⟨fun t ht => ⟨hpayloads t ht, ⟨hdivisible t ht, hrows t ht⟩, hdecodable t ht⟩, hnodup⟩

theorem exists_readContent_iff (hdone : c.tensorsDone = 0)
    : (∃ content, (exec readContent c).1 = .ok content) ↔
      ∃ summary, (exec readSummary c).1 = .ok summary ∧ Loadable summary.tensors ∧
        ∀ t ∈ summary.tensors, t.rowBits < wordBound := by
  simp only [readContent_eq_ok_iff, readSummary_eq_ok_iff]
  constructor
  . rintro ⟨content, ds, c', hindex, hdecode⟩
    obtain ⟨hpayloads, hloadable⟩ := exists_decodeAll_iff_loadable.1 ⟨_, hdecode⟩
    obtain ⟨start, hstart⟩ := hindex.exists_dataStart hdone
    exact ⟨⟨c'.version, c'.alignment, start, content.metadata, ds⟩,
      ⟨c', hindex, hpayloads, hstart, rfl, rfl⟩, hloadable⟩
  . rintro ⟨summary, ⟨c', hindex, hpayloads, _⟩, hloadable⟩
    obtain ⟨tensors, hdecode⟩ := exists_decodeAll_iff_loadable.2 ⟨hpayloads, hloadable⟩
    exact ⟨⟨tensors, summary.metadata⟩, summary.tensors, c', hindex, hdecode⟩

theorem content_of_summary {content : Content} {summary : Summary}
    (hcontent : (exec readContent c).1 = .ok content)
    (hsummary : (exec readSummary c).1 = .ok summary)
    : content.metadata = summary.metadata ∧
      content.tensors.keys.Perm (summary.tensors.flatMap (·.producedNames)) := by
  obtain ⟨ds, c', hindex, hdecode⟩ := readContent_eq_ok_iff.1 hcontent
  obtain ⟨c'', hindex', _⟩ := readSummary_eq_ok_iff.1 hsummary
  obtain ⟨hmetadata, hds, _⟩ := hindex.unique hindex'
  rw [hmetadata, hds]
  exact ⟨rfl, keys_perm_of_decodeAll hdecode⟩

theorem tensorsDone_of_ofFile {d : Disk} {path : String} {config : CodecConfig}
    (h : ofFile d path config = .ok c) : c.tensorsDone = 0 := by
  unfold ofFile at h
  split at h
  . simp at h
  . exact tensorsDone_of_openData h

end Container

/--
A file can be loaded if and only if it can be inspected, its descriptors are loadable and no row of
quantized weights has too many bits to count, which none has without a dimension of 2^60. It then has
the metadata that inspecting it gives, and the tensors that the descriptors name.
-/
theorem load_iff_inspect (d : Disk) (path : String) (config : CodecConfig)
    : ((∃ content, load d path config = .ok content) ↔
        ∃ summary, inspect d path config = .ok summary ∧ Loadable summary.tensors ∧
          ∀ t ∈ summary.tensors, t.rowBits < wordBound) ∧
      (∀ t : Descriptor, (∀ n ∈ t.shape, n < 2 ^ 60) → t.rowBits < wordBound) ∧
      ∀ content summary, load d path config = .ok content →
        inspect d path config = .ok summary →
        content.metadata = summary.metadata ∧
          content.tensors.keys.Perm (summary.tensors.flatMap (·.producedNames)) := by
  simp only [load_eq_ok_iff, inspect_eq_ok_iff]
  cases hopen : Container.ofFile d path config with
  | error e => simpa using fun t => Descriptor.rowBits_lt
  | ok c =>
    simp only [Except.ok.injEq, exists_eq_left']
    refine ⟨Container.exists_readContent_iff (Container.tensorsDone_of_ofFile hopen),
      fun t => Descriptor.rowBits_lt, ?_⟩
    intro content summary hcontent hsummary
    exact Container.content_of_summary hcontent hsummary

/--
A disk with a file of one block of quantized weights.
-/
def oneBlock : Disk :=
  let header := magic ++ LittleEndian.encode 4 3 ++ LittleEndian.encode 8 1 ++
    LittleEndian.encode 8 0
  let index := Descriptor.encode ⟨"w.weight", [32], .q8_0, 0⟩
  ⟨[(["q"], .file 0 (header ++ index ++ List.replicate 34 0))], 1⟩

theorem load_iff_inspect_oneBlock
    : ∃ content, load oneBlock "q" {} = .ok content ∧ content.metadata = .empty ∧
        content.tensors.keys.Perm ["w.weight", "w.scales", "w.biases"] := by
  have hinspect : (inspect oneBlock "q" {}).map (fun s => (s.metadata, s.tensors))
      = .ok (.empty, [⟨"w.weight", [32], .q8_0, 0⟩]) := by
    decide +kernel
  obtain ⟨summary, hsummary, hfields⟩ : ∃ summary, inspect oneBlock "q" {} = .ok summary ∧
      (summary.metadata, summary.tensors) = (.empty, [⟨"w.weight", [32], .q8_0, 0⟩]) := by
    cases hs : inspect oneBlock "q" {} with
    | error e => simp [hs, Except.map] at hinspect
    | ok summary =>
      rw [hs] at hinspect
      exact ⟨summary, rfl, Except.ok.inj hinspect⟩
  rw [Prod.mk.injEq] at hfields
  have hloadable : Loadable summary.tensors := by
    rw [hfields.2]
    refine ⟨?_, by decide, by decide +kernel⟩
    intro t ht stem _
    rw [List.mem_singleton] at ht
    rw [ht]
    exact ⟨32, rfl, rfl⟩
  obtain ⟨hiff, hrows, hboth⟩ := load_iff_inspect oneBlock "q" {}
  have hrow : ∀ t ∈ summary.tensors, t.rowBits < wordBound := by
    intro t ht
    rw [hfields.2, List.mem_singleton] at ht
    rw [ht]
    exact hrows _ (by decide)
  obtain ⟨content, hcontent⟩ := hiff.2 ⟨summary, hsummary, hloadable, hrow⟩
  obtain ⟨hmetadata, hkeys⟩ := hboth content summary hcontent hsummary
  rw [hfields.1] at hmetadata
  rw [hfields.2] at hkeys
  exact ⟨content, hcontent, hmetadata, hkeys⟩

end TensorFiles.Gguf
