import Mathlib.Data.List.Perm.Basic
import TensorFiles.Proofs.Gguf.Parts
import TensorFiles.Proofs.Gguf.Referred
/-!
This module contains the independence of loading from the order of the index. Descriptors can change
places with each other, and so can metadata records that have different keys.
-/

namespace TensorFiles.Gguf

namespace Container

variable {c : Container} {ds ds' : List Descriptor} {tensors : Table Tensor}

/--
No two tensors have the same name, so it does not matter which of them is put in first.
-/
theorem decodeAll_eq_ok_of_perm (hperm : ds.Perm ds') (h : c.decodeAll .empty ds = .ok tensors)
    : c.decodeAll .empty ds' = .ok tensors := by
  obtain ⟨outs, houts, hinsert⟩ := decodeAll_eq_ok_iff.1 h
  obtain ⟨hnodup, _, rfl⟩ := insertNew_eq_ok_iff.1 hinsert
  obtain ⟨outs', houts', houtsPerm⟩ := List.perm_comp_forall₂ hperm.symm houts
  have hflatten := houtsPerm.flatten
  refine decodeAll_eq_ok_iff.2 ⟨outs', houts', insertNew_eq_ok_iff.2 ⟨?_, fun _ _ => rfl, ?_⟩⟩
  . exact (hflatten.map (·.1)).nodup_iff.2 hnodup
  . exact Table.insertAll_eq_of_perm ((hflatten.map (·.1)).nodup_iff.2 hnodup) hflatten .empty

end Container

namespace Parts

variable {limit : Nat} {p p' : Parts limit}

/--
The index of `p'` has the records and the descriptors of `p` in another order, but records that have
the same key follow each other as they do in `p`.
-/
structure Reorders (p p' : Parts limit) : Prop where
  header : p'.header = p.header
  records : p.records.Perm p'.records
  keys : ∀ key, p'.records.filter (·.value.1 = key) = p.records.filter (·.value.1 = key)
  descriptors : p.descriptors.Perm p'.descriptors
  rest : p'.rest = p.rest

namespace Reorders

theorem symm (h : p.Reorders p') : p'.Reorders p where
  header := h.header.symm
  records := h.records.symm
  keys key := (h.keys key).symm
  descriptors := h.descriptors.symm
  rest := h.rest.symm

theorem length_index (h : p.Reorders p') : p'.index.length = p.index.length := by
  have hrecords := (h.records.flatMap_right (·.bytes)).length_eq
  have hdescriptors := (h.descriptors.flatMap_right (·.bytes)).length_eq
  unfold index
  simp only [List.length_append, h.header, hrecords, hdescriptors]

theorem length_file (h : p.Reorders p') : p'.file.length = p.file.length := by
  unfold file
  rw [List.length_append, List.length_append, h.length_index, h.rest]

theorem filter_entries (h : p.Reorders p') (key : String)
    : p'.entries.filter (·.1 = key) = p.entries.filter (·.1 = key) := by
  have hkeys := h.keys key
  unfold entries
  rw [List.filter_map, List.filter_map]
  exact congrArg (List.map (·.value)) hkeys

theorem declaredAlignment?_eq (h : p.Reorders p') (alignment : Nat)
    : declaredAlignment? alignment p'.entries = declaredAlignment? alignment p.entries := by
  rw [← declaredAlignment?_filter, h.filter_entries, declaredAlignment?_filter]

theorem tensors (h : p.Reorders p') : p.tensors.Perm p'.tensors :=
  h.descriptors.map Piece.value

section

variable {path path' : String} {file file' alignment : Nat} {t : Descriptor} {bytes : List UInt8}

theorem alike (h : p.Reorders p')
    : Container.Alike True (p.located path file alignment) (p'.located path' file' alignment) where
  limit := Nat.le_refl limit
  offset := h.length_index
  alignment := rfl
  current := rfl
  recordCount := h.records.length_eq.symm
  recordsDone := h.records.length_eq.symm
  awaitsValue := rfl
  dataStart := congrArg (fun n => some (alignUp n alignment)) h.length_index
  tensors _ := ⟨h.descriptors.length_eq.symm, h.descriptors.length_eq.symm⟩

theorem getElem?_file (h : p.Reorders p') {i : Nat} (hi : p.index.length ≤ i)
    : p'.file[i]? = p.file[i]? := by
  unfold file
  rw [List.getElem?_append_right hi, List.getElem?_append_right (by rw [h.length_index]; exact hi),
    h.length_index, h.rest]

/--
All payloads stand behind the index.
-/
theorem payload_located (h : p.Reorders p') (hpower : isPowerOfTwo alignment = true)
    (hfits : p.index.length + alignment ≤ wordBound)
    (hpayload : (p.located path file alignment).payload t = .ok bytes)
    : (p'.located path' file' alignment).payload t = .ok bytes := by
  apply Container.payload_of_alike hpayload h.alike rfl rfl
  intro start hstart hstands
  have hle : p.index.length ≤ start := by
    rw [← Except.ok.inj hstart]
    exact le_alignUp hpower hfits
  apply hstands.transfer (Nat.le_of_eq h.length_file.symm)
  intro i hi _
  exact h.getElem?_file (by omega)

end

end Reorders

end Parts

section

variable {d d' : Disk} {path path' : String} {file file' : Nat} {config : CodecConfig}
  {p p' : Parts config.maxStringLen} {content : Content}

theorem load_of_reorders_of_load (h : p.Reorders p') (hsize : fileFits d path = true)
    (hfind : d.find path = .ok (.file file p.file))
    (hfind' : d'.find path' = .ok (.file file' p'.file)) (hload : load d path config = .ok content)
    : load d' path' config = .ok content := by
  obtain ⟨alignment, halign, hmetadata, hdecode⟩ := (Parts.load_eq_ok_iff hfind).1 hload
  obtain ⟨hpower, hlt⟩ := declaredAlignment?_valid halign (by decide) (by decide)
  have hfits : p.index.length + alignment ≤ wordBound := by
    have hindex := p.stands_index.length_le
    rw [Nat.zero_add] at hindex
    have hlength := (fileFits_iff_of_find hfind).1 hsize
    exact add_le_wordBound (Nat.lt_of_le_of_lt hindex hlength) hlt
  refine (Parts.load_eq_ok_iff hfind').2 ⟨alignment, ?_, ?_, ?_⟩
  . rw [h.declaredAlignment?_eq, halign]
  . rw [hmetadata, Table.insertAll_eq_of_filter h.filter_entries]
  . apply Container.decodeAll_eq_ok_of_perm h.tensors
    apply Container.decodeAll_of_payload hdecode
    intro t _ bytes
    exact h.payload_located hpower hfits

/--
A file loads as it does with its index in another order.
-/
theorem load_iff_of_reorders (h : p.Reorders p') (hsize : fileFits d path = true)
    (hfind : d.find path = .ok (.file file p.file))
    (hfind' : d'.find path' = .ok (.file file' p'.file))
    : load d path config = .ok content ↔ load d' path' config = .ok content := by
  have hsize' : fileFits d' path' = true := by
    rw [fileFits_iff_of_find hfind']
    rw [fileFits_iff_of_find hfind] at hsize
    rwa [h.length_file]
  exact ⟨load_of_reorders_of_load h hsize hfind hfind',
    load_of_reorders_of_load h.symm hsize' hfind' hfind⟩

end

/--
A record of the key `k` and a text of one byte.
-/
def keyPiece (text : String) (h : text.utf8ByteSize = 1)
    : Piece Read.record ({} : CodecConfig).maxStringLen :=
  have hlimit : text.utf8ByteSize ≤ ({} : CodecConfig).maxStringLen := by
    rw [h]
    decide
  .ofRecord {
    record := ⟨"k", .string, encodeString text⟩
    value := .string text
    reads_key := reads_string (s := "k") (by decide) (by decide)
    reads_value := (reads_u32 ValueType.string.code_lt).bind
      (reads_value_string (by rw [length_encodeString, h]; decide) hlimit) }

def alignmentPiece : Piece Read.record ({} : CodecConfig).maxStringLen :=
  .ofRecord {
    record := alignmentRecord 64
    value := .scalar ⟨.u32, [], [64, 0, 0, 0], rfl⟩
    reads_key := reads_string (by decide) (by decide)
    reads_value := (reads_u32 ValueType.uint32.code_lt).bind
      (reads_value_scalar (t := ⟨.u32, [], [64, 0, 0, 0], rfl⟩) rfl rfl) }

/--
A descriptor of one byte.
-/
def bytePiece (name : String) (offset : Nat) (h : name.utf8ByteSize = 1 ∧ offset < wordBound)
    : Piece Read.descriptor ({} : CodecConfig).maxStringLen :=
  .ofDescriptor {
    descriptor := ⟨name, [1], .i8, offset⟩
    reads := reads_descriptor {
      name := by rw [h.1]; decide
      limit := by rw [h.1]; decide
      rank := show [1].length ≤ maxRank by decide
      shape := show Shape.Fits [1] from ⟨by decide, by decide⟩
      offset := h.2 } }

/--
A file of three records and two descriptors of one byte each.
-/
def fiveParts (records : List (Piece Read.record ({} : CodecConfig).maxStringLen))
    (descriptors : List (Piece Read.descriptor ({} : CodecConfig).maxStringLen))
    (h : (descriptors.length, records.length) = (2, 3)) : Parts ({} : CodecConfig).maxStringLen where
  header := ⟨_, (3, 2, 3), reads_header (by decide) (by decide) (by decide) (by decide)⟩
  records
  descriptors
  rest := List.replicate 25 0 ++ [7] ++ List.replicate 63 0 ++ [8]
  counts := h.symm

def sortedParts : Parts ({} : CodecConfig).maxStringLen :=
  fiveParts [keyPiece "x" rfl, keyPiece "y" rfl, alignmentPiece]
    [bytePiece "a" 0 (by decide), bytePiece "b" 64 (by decide)] rfl

def shuffledParts : Parts ({} : CodecConfig).maxStringLen :=
  fiveParts [keyPiece "x" rfl, alignmentPiece, keyPiece "y" rfl]
    [bytePiece "b" 64 (by decide), bytePiece "a" 0 (by decide)] rfl

theorem sortedParts_reorders : sortedParts.Reorders shuffledParts where
  header := rfl
  records := .cons _ (.swap _ _ _)
  keys key := by
    -- the key is that of the texts, or of the alignment, or of none of the three records
    by_cases hk : "k" = key
    . subst hk
      rfl
    . by_cases ha : alignmentKey = key
      . subst ha
        rfl
      . have hall (l : List (Piece Read.record ({} : CodecConfig).maxStringLen))
            (hl : ∀ r ∈ l, r.value.1 = "k" ∨ r.value.1 = alignmentKey)
            : l.filter (·.value.1 = key) = [] := by
          rw [List.filter_eq_nil_iff]
          intro r hr hkey
          rw [decide_eq_true_eq] at hkey
          cases hl r hr with
          | inl h => exact hk (h.symm.trans hkey)
          | inr h => exact ha (h.symm.trans hkey)
        rw [hall _ (by decide), hall _ (by decide)]
  descriptors := .swap _ _ _
  rest := rfl

theorem load_iff_of_reorders_sortedParts
    : ∃ content, load ⟨[(["s"], .file 0 sortedParts.file)], 1⟩ "s" {} = .ok content ∧
        load ⟨[(["s"], .file 0 shuffledParts.file)], 1⟩ "s" {} = .ok content := by
  have hload : load ⟨[(["s"], .file 0 sortedParts.file)], 1⟩ "s" {} = .ok {
      tensors := .ofList [("a", ⟨.i8, [1], [7], rfl⟩), ("b", ⟨.i8, [1], [8], rfl⟩)]
      metadata := .ofList [("k", .string "y"),
        (alignmentKey, .scalar ⟨.u32, [], [64, 0, 0, 0], rfl⟩)] } := by
    decide +kernel
  exact ⟨_, hload,
    (load_iff_of_reorders sortedParts_reorders (by decide +kernel) rfl rfl).1 hload⟩

end TensorFiles.Gguf
