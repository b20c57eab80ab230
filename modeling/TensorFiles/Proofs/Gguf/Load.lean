import TensorFiles.Gguf.Load
import TensorFiles.Proofs.Disk
import TensorFiles.Proofs.Gguf.Container.Reading
import TensorFiles.Proofs.Result
import TensorFiles.Proofs.Table
/-!
This module contains the loops that load a file: over the records, over the descriptors, and over
the tensors that their payloads give. Loading and inspecting both begin with the index.
-/

namespace TensorFiles.Gguf

namespace Container

variable {c : Container} {data : List UInt8} {stop limit : Nat}
  {records : List (ReadableRecord limit)} {descriptors : List (ReadableDescriptor limit)}

theorem At.exec_setAlignment_of_key
    (h : c.At data stop (.key records descriptors)) {alignment : Nat}
    (hpower : isPowerOfTwo alignment = true)
    : exec (setAlignment alignment) c = (.ok (), { c with alignment }) := by
  have hs : c.current = .metadata := h.counts.1
  unfold setAlignment
  rw [if_neg (by simp [hpower]), exec_bind_of_ok (exec_get c), if_neg (by simp [hs]), exec_modify]

theorem At.exec_readRecords (h : c.At data stop (.key records descriptors)) {alignment : Nat}
    (hpower : isPowerOfTwo alignment = true)
    (hdeclared : ∀ r ∈ records, r.record.key = alignmentKey → r.value.asAlignment = .ok alignment)
    (table : Table MetaValue)
    : ∃ c', exec (readRecords records.length table) c
          = (.ok (table.insertAll (records.map (fun r => (r.record.key, r.value)))), c') ∧
        c'.At data stop (.descriptor descriptors) ∧
        c'.alignment = if alignmentKey ∈ records.map (fun r => r.record.key) then alignment
          else c.alignment := by
  -- all records that declare an alignment declare the same, so it does not matter which is the last
  induction records generalizing c table with
  | nil =>
    obtain ⟨c', hexec, hat, halign⟩ := h.exec_nextKey_nil
    refine ⟨c', ?_, hat, by simpa using halign⟩
    unfold readRecords
    rw [List.length_nil, exec_bind_of_ok hexec, exec_pure]
    rfl
  | cons r records ih =>
    rw [List.forall_mem_cons] at hdeclared
    obtain ⟨c₁, hexec₁, hat₁, halign₁⟩ := h.exec_nextKey
    obtain ⟨c₂, hexec₂, hat₂, halign₂⟩ := hat₁.exec_readValue
    rw [List.length_cons]
    unfold readRecords
    rw [exec_bind_of_ok hexec₁]
    dsimp only
    rw [exec_bind_of_ok hexec₂]
    by_cases hkey : r.record.key = alignmentKey
    . rw [if_pos hkey, hdeclared.1 hkey]
      have hat₃ := hat₂.of_alignment (by simp) alignment
      obtain ⟨c', hexec, hat, halign⟩ := ih hat₃ hdeclared.2 (table.insert r.record.key r.value)
      refine ⟨c', ?_, hat, ?_⟩
      . rw [exec_bind_of_ok (exec_lift _ c₂),
          exec_bind_of_ok (hat₂.exec_setAlignment_of_key hpower), hexec]
        rfl
      . rw [halign]
        simp [hkey]
    . rw [if_neg hkey]
      obtain ⟨c', hexec, hat, halign⟩ := ih hat₂ hdeclared.2 (table.insert r.record.key r.value)
      refine ⟨c', ?_, hat, ?_⟩
      . rw [hexec]
        rfl
      . rw [halign, halign₂, halign₁]
        simp [Ne.symm hkey]

theorem At.exec_readMetadata (h : c.At data stop (.key records descriptors)) {alignment : Nat}
    (hpower : isPowerOfTwo alignment = true)
    (hdeclared : ∀ r ∈ records, r.record.key = alignmentKey → r.value.asAlignment = .ok alignment)
    : ∃ c', exec readMetadata c
          = (.ok (Table.empty.insertAll (records.map (fun r => (r.record.key, r.value)))), c') ∧
        c'.At data stop (.descriptor descriptors) ∧
        c'.alignment = if alignmentKey ∈ records.map (fun r => r.record.key) then alignment
          else c.alignment := by
  have hleft : c.recordCount - c.recordsDone = records.length := by
    have := h.counts.2.2.1
    omega
  unfold readMetadata
  rw [exec_bind_of_ok (exec_get c), hleft]
  exact h.exec_readRecords hpower hdeclared .empty

theorem At.exec_readDescriptorsLeft (h : c.At data stop (.descriptor descriptors))
    : ∃ c', exec (readDescriptorsLeft descriptors.length) c
          = (.ok (descriptors.map (·.descriptor)), c') ∧
        c'.At data stop (.data : Position limit) ∧ c'.alignment = c.alignment := by
  induction descriptors generalizing c with
  | nil =>
    obtain ⟨c', hexec, hat, halign⟩ := h.exec_nextDescriptor_nil
    refine ⟨c', ?_, hat, halign⟩
    unfold readDescriptorsLeft
    rw [List.length_nil, exec_bind_of_ok hexec, exec_pure]
    rfl
  | cons d descriptors ih =>
    obtain ⟨c₁, hexec₁, hat₁, halign₁⟩ := h.exec_nextDescriptor
    obtain ⟨c', hexec, hat, halign⟩ := ih hat₁
    refine ⟨c', ?_, hat, halign.trans halign₁⟩
    rw [List.length_cons]
    unfold readDescriptorsLeft
    rw [exec_bind_of_ok hexec₁]
    dsimp only
    rw [exec_bind_of_ok hexec, exec_pure]
    rfl

theorem At.exec_readDescriptors (h : c.At data stop (.descriptor descriptors))
    : ∃ c', exec readDescriptors c = (.ok (descriptors.map (·.descriptor)), c') ∧
        c'.At data stop (.data : Position limit) ∧ c'.alignment = c.alignment := by
  have hleft : c.tensorCount - c.tensorsDone = descriptors.length := by
    have := h.counts.2
    omega
  unfold readDescriptors
  rw [exec_bind_of_ok (exec_get c), hleft]
  exact h.exec_readDescriptorsLeft

theorem insertNew_append (t : Table Tensor) (front rest : List (String × Tensor))
    : insertNew t (front ++ rest) = insertNew t front >>= fun t => insertNew t rest := by
  induction front generalizing t with
  | nil => rfl
  | cons e front ih =>
    obtain ⟨name, x⟩ := e
    have hcons (l : List (String × Tensor)) : insertNew t ((name, x) :: l)
        = if t.contains name then .error (.gguf (.duplicateTensor name))
          else insertNew (t.insert name x) l := rfl
    rw [List.cons_append, hcons, hcons]
    split
    . rfl
    . exact ih (t.insert name x)

theorem insertNew_eq_ok_iff {t t' : Table Tensor} {entries : List (String × Tensor)}
    : insertNew t entries = .ok t' ↔ (entries.map (·.1)).Nodup ∧
        (∀ e ∈ entries, t.contains e.1 = false) ∧ t' = t.insertAll entries := by
  induction entries generalizing t with
  | nil =>
    simp only [insertNew, Except.ok.injEq, List.map_nil, List.nodup_nil, List.not_mem_nil,
      false_implies, implies_true, true_and, Table.insertAll_nil]
    exact eq_comm
  | cons e entries ih =>
    obtain ⟨name, x⟩ := e
    have hcontains : ∀ k,
        (t.insert name x).contains k = false ↔ k ≠ name ∧ t.contains k = false := by
      intro k
      rw [← Bool.not_eq_true, Table.contains_insert, not_or, Bool.not_eq_true]
    unfold insertNew
    rw [List.map_cons, List.nodup_cons, List.forall_mem_cons, Table.insertAll_cons]
    dsimp only
    split
    . next hthere => simp [hthere]
    . next hnew =>
      rw [ih]
      simp only [hcontains, List.mem_map, Bool.not_eq_true] at hnew ⊢
      constructor
      . rintro ⟨hnodup, hall, rfl⟩
        refine ⟨⟨?_, hnodup⟩, ⟨hnew, fun e he => (hall e he).2⟩, rfl⟩
        rintro ⟨e, he, rfl⟩
        exact (hall e he).1 rfl
      . rintro ⟨⟨hfresh, hnodup⟩, ⟨_, hall⟩, rfl⟩
        refine ⟨hnodup, fun e he => ⟨?_, hall e he⟩, rfl⟩
        intro heq
        exact hfresh ⟨e, he, heq⟩

theorem decodeAll_eq_ok_iff {t t' : Table Tensor} {ds : List Descriptor}
    : c.decodeAll t ds = .ok t' ↔ ∃ outs, List.Forall₂ (fun d out => c.decode d = .ok out) ds outs ∧
        insertNew t outs.flatten = .ok t' := by
  induction ds generalizing t with
  | nil =>
    simp only [decodeAll, List.forall₂_nil_left_iff, exists_eq_left, List.flatten_nil, insertNew]
  | cons d ds ih =>
    unfold decodeAll
    simp only [bind_eq_ok_iff, ih, List.forall₂_cons_left_iff]
    constructor
    . rintro ⟨out, hout, t₁, ht₁, outs, houts, hrest⟩
      refine ⟨out :: outs, ⟨out, outs, hout, houts, rfl⟩, ?_⟩
      rw [List.flatten_cons, insertNew_append, bind_eq_ok_iff]
      exact ⟨t₁, ht₁, hrest⟩
    . rintro ⟨_, ⟨out, outs, hout, houts, rfl⟩, hall⟩
      rw [List.flatten_cons, insertNew_append, bind_eq_ok_iff] at hall
      obtain ⟨t₁, ht₁, hrest⟩ := hall
      exact ⟨out, hout, t₁, ht₁, outs, houts, hrest⟩

variable {c' : Container} {ds : List Descriptor}

theorem checkPayloads_eq_ok_iff
    : c.checkPayloads ds = .ok () ↔ ∀ t ∈ ds, ∃ bytes, c.payload t = .ok bytes := by
  induction ds with
  | nil => simp [checkPayloads]
  | cons t ds ih =>
    unfold checkPayloads
    rw [List.forall_mem_cons, bind_eq_ok_iff, ih, exists_and_right]

/--
Reading the metadata and then the descriptors of `c` leaves `c'`.
-/
def ReadsIndex (c : Container) (metadata : Table MetaValue) (ds : List Descriptor)
    (c' : Container) : Prop :=
  ∃ c₁, exec readMetadata c = (.ok metadata, c₁) ∧ exec readDescriptors c₁ = (.ok ds, c')

theorem ReadsIndex.unique {metadata metadata' : Table MetaValue} {ds' : List Descriptor}
    {c'' : Container} (h : c.ReadsIndex metadata ds c') (h' : c.ReadsIndex metadata' ds' c'')
    : metadata' = metadata ∧ ds' = ds ∧ c'' = c' := by
  obtain ⟨c₁, hmetadata, hdescriptors⟩ := h
  obtain ⟨c₂, hmetadata', hdescriptors'⟩ := h'
  rw [hmetadata, Prod.mk.injEq, Except.ok.injEq] at hmetadata'
  obtain ⟨rfl, rfl⟩ := hmetadata'
  rw [hdescriptors, Prod.mk.injEq, Except.ok.injEq] at hdescriptors'
  exact ⟨rfl, hdescriptors'.1.symm, hdescriptors'.2.symm⟩

theorem readContent_eq_ok_iff {content : Content}
    : (exec readContent c).1 = .ok content ↔ ∃ ds c', c.ReadsIndex content.metadata ds c' ∧
        c'.decodeAll .empty ds = .ok content.tensors := by
  unfold readContent readTensors
  simp only [bind_assoc, fst_exec_bind_eq_ok_iff, exec_get, exec_lift, exec_pure, Prod.mk.injEq,
    Except.ok.injEq]
  constructor
  . rintro ⟨metadata, c₁, hmetadata, ds, c', hds, _, _, ⟨rfl, rfl⟩, tensors, _, ⟨hdecode, _⟩, rfl⟩
    exact ⟨ds, c', ⟨c₁, hmetadata, hds⟩, hdecode⟩
  . rintro ⟨ds, c', ⟨c₁, hmetadata, hds⟩, hdecode⟩
    exact ⟨_, c₁, hmetadata, ds, c', hds, c', c', ⟨rfl, rfl⟩, _, c', ⟨hdecode, rfl⟩, rfl⟩

theorem readSummary_eq_ok_iff {summary : Summary}
    : (exec readSummary c).1 = .ok summary ↔ ∃ c',
        c.ReadsIndex summary.metadata summary.tensors c' ∧
        c'.checkPayloads summary.tensors = .ok () ∧ c'.dataStart = .ok summary.dataStart ∧
        c'.version = summary.version ∧ c'.alignment = summary.alignment := by
  unfold readSummary
  simp only [fst_exec_bind_eq_ok_iff, exec_get, exec_lift, exec_pure, Prod.mk.injEq,
    Except.ok.injEq]
  constructor
  . rintro ⟨_, c₁, hmetadata, _, c', hds, _, _, ⟨rfl, rfl⟩, _, _, ⟨hpayloads, rfl⟩, _, _,
      ⟨hstart, _⟩, rfl⟩
    exact ⟨_, ⟨c₁, hmetadata, hds⟩, hpayloads, hstart, rfl, rfl⟩
  . rintro ⟨c', ⟨c₁, hmetadata, hds⟩, hpayloads, hstart, hversion, halign⟩
    refine ⟨_, c₁, hmetadata, _, c', hds, c', c', ⟨rfl, rfl⟩, (), c', ⟨hpayloads, rfl⟩, _, c',
      ⟨hstart, rfl⟩, ?_⟩
    rw [hversion, halign]

theorem ofFile_eq_of_find {d : Disk} {path : String} {file : Nat}
    {config : CodecConfig}
    (h : d.find path = .ok (.file file data))
    : ofFile d path config = openData path file data config := by
  unfold ofFile
  rw [Disk.map_of_find h]

end Container

theorem load_eq_ok_iff {d : Disk} {path : String} {config : CodecConfig} {content : Content}
    : load d path config = .ok content ↔ ∃ c, Container.ofFile d path config = .ok c ∧
        (exec Container.readContent c).1 = .ok content :=
  bind_eq_ok_iff

theorem inspect_eq_ok_iff {d : Disk} {path : String} {config : CodecConfig} {summary : Summary}
    : inspect d path config = .ok summary ↔ ∃ c, Container.ofFile d path config = .ok c ∧
        (exec Container.readSummary c).1 = .ok summary :=
  bind_eq_ok_iff

end TensorFiles.Gguf
