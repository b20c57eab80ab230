import TensorFiles.Proofs.Gguf.Container.Writing
/-!
This module contains runs of calls on a container that is written, and the invariant that carries
them: the container tracks what the accepted calls have written. Calls that are refused add
nothing.
-/

namespace TensorFiles.Gguf

theorem Section.rank_le_data (s : Section) : s.rank ≤ Section.data.rank := by
  cases s <;> decide

theorem Section.eq_metadata_of_rank_le {s : Section} (h : s.rank ≤ Section.metadata.rank)
    : s = .metadata := by
  cases s with
  | metadata => rfl
  | descriptors => simp [rank] at h
  | data => simp [rank] at h

/--
A call on a container that is written.
-/
inductive WriteCall where
  | record (key : String) (value : MetaValue)
  | encoded (r : EncodedRecord)
  | descriptor (d : Descriptor)
  | payload (bytes : List UInt8)
  | align (alignment : Nat)

namespace WriteCall

def call : WriteCall → Call Unit
  | .record key value => Container.appendRecord key value
  | .encoded r => Container.appendEncoded r.key r.type r.value
  | .descriptor d => Container.appendDescriptor d
  | .payload bytes => Container.appendPayload bytes
  | .align alignment => Container.setAlignment alignment

/--
Whether a call appends a value, a descriptor or a payload.
-/
def isAppend : WriteCall → Bool
  | .record _ _ | .descriptor _ | .payload _ => true
  | .encoded _ | .align _ => false

/--
Whether a call replaces the alignment.
-/
def aligns : WriteCall → Bool
  | .align _ => true
  | _ => false

theorem aligns_of_isAppend {call : WriteCall} (h : call.isAppend = true) : call.aligns = false := by
  cases call <;> first | rfl | simp [isAppend] at h

/--
The record a call appends, in its byte form.
-/
def record? : WriteCall → Option EncodedRecord
  | .record key value => (EncodedRecord.ofValue key value).toOption
  | .encoded r => some r
  | _ => none

def descriptor? : WriteCall → Option Descriptor
  | .descriptor d => some d
  | _ => none

def payload? : WriteCall → Option (List UInt8)
  | .payload bytes => some bytes
  | _ => none

/--
The calls that a result makes count: none if it is an error.
-/
def accepted (call : WriteCall) : Except Error Unit → List WriteCall
  | .ok () => [call]
  | .error _ => []

end WriteCall

/--
`w'` is `w` with what `calls` append.
-/
structure Written.Gains (w : Written) (calls : List WriteCall) (w' : Written) : Prop where
  records : w'.records = w.records ++ calls.filterMap WriteCall.record?
  descriptors : w'.descriptors = w.descriptors ++ calls.filterMap WriteCall.descriptor?
  payloads : w'.payloads.map (·.2) = w.payloads.map (·.2) ++ calls.filterMap WriteCall.payload?
  encoded : ∀ key value, WriteCall.record key value ∈ calls →
    ∃ r, EncodedRecord.ofValue key value = .ok r

theorem Written.gains_nil (w : Written) : w.Gains [] w :=
  ⟨by simp, by simp, by simp, by simp⟩

theorem Written.Gains.trans {w w' w'' : Written} {calls calls' : List WriteCall}
    (h : w.Gains calls w') (h' : w'.Gains calls' w'') : w.Gains (calls ++ calls') w'' where
  records := by rw [h'.records, h.records, List.filterMap_append, List.append_assoc]
  descriptors := by rw [h'.descriptors, h.descriptors, List.filterMap_append, List.append_assoc]
  payloads := by rw [h'.payloads, h.payloads, List.filterMap_append, List.append_assoc]
  encoded := by
    intro key value hmem
    cases List.mem_append.1 hmem with
    | inl hmem => exact h.encoded key value hmem
    | inr hmem => exact h'.encoded key value hmem

/--
The payloads of `w` begin at multiples of `alignment`.
-/
def Written.Aligned (w : Written) (alignment : Nat) : Prop :=
  ∀ d ∈ w.descriptors, d.offset % alignment = 0

theorem Written.Aligned.of_descriptors_eq {w w' : Written} {alignment : Nat}
    (h : w.Aligned alignment) (heq : w'.descriptors = w.descriptors) : w'.Aligned alignment := by
  unfold Aligned
  rw [heq]
  exact h

/--
The number of bytes in a header.
-/
def headerLength : Nat := 24

theorem length_encodeHeader (version tensors records : Nat)
    : (encodeHeader version tensors records).length = headerLength := by
  simp [encodeHeader, magic, headerLength]

/--
The number of bytes of the header and of all that `calls` append to the index.
-/
def indexLength (calls : List WriteCall) : Nat :=
  let w : Written := {
    records := calls.filterMap WriteCall.record?
    descriptors := calls.filterMap WriteCall.descriptor?
  }
  headerLength + w.index.length

theorem Written.Gains.length_index {w : Written} {calls : List WriteCall}
    (h : ({} : Written).Gains calls w) : headerLength + w.index.length = indexLength calls := by
  unfold indexLength index
  rw [h.records, h.descriptors]
  rfl

/--
What holds of all that is written: the sizes are those of the shapes, the payloads come in order,
and those that are there are the first ones declared.
-/
structure Written.Sound (w : Written) : Prop where
  sized : ∀ d ∈ w.descriptors, d.byteSize = .ok d.size
  ranks : ∀ d ∈ w.descriptors, d.shape.length ≤ maxRank
  order : InOrder (w.descriptors.map Descriptor.extent)
  placed : w.payloads.map (fun p => (p.1, p.2.length)) <+: w.descriptors.map Descriptor.extent
  unplaced : w.start? = none → w.payloads = []

theorem Written.Sound.inOrder_payloads {w : Written} (h : w.Sound)
    : InOrder (w.payloads.map (fun p => (p.1, p.2.length))) :=
  h.order.sublist h.placed.sublist

/--
Payloads stand in their places if the data starts behind the index.
-/
theorem Written.Sound.stands_payload {w : Written} (h : w.Sound)
    (hroom : ∀ s, w.start? = some s → headerLength + w.index.length ≤ s) {p : Nat × List UInt8}
    (hp : p ∈ w.payloads) {header : List UInt8} (hheader : header.length = headerLength)
    : ∃ s, w.start? = some s ∧ Stands (w.image header) (s + p.1) p.2 := by
  cases hstart : w.start? with
  | none =>
    rw [h.unplaced hstart] at hp
    simp at hp
  | some s =>
    refine ⟨s, rfl, w.stands_payload hstart ?_ h.inOrder_payloads p hp⟩
    rw [List.length_append, hheader]
    exact hroom s hstart

/--
Each payload belongs to the descriptor of its number.
-/
theorem Written.Sound.exists_extent_eq {w : Written} (h : w.Sound) {i : Nat}
    {p : Nat × List UInt8} (hp : w.payloads[i]? = some p)
    : ∃ t, w.descriptors[i]? = some t ∧ t.extent = (p.1, p.2.length) := by
  obtain ⟨rest, hrest⟩ := h.placed
  obtain ⟨hlt, _⟩ := List.getElem?_eq_some_iff.1 hp
  rw [← Option.map_eq_some_iff, ← List.getElem?_map, ← hrest,
    List.getElem?_append_left (by rwa [List.length_map]), List.getElem?_map, hp]
  rfl

/--
The container `c`, whose output is `o`, has written `w`.
-/
structure Container.Tracks (c : Container) (o : Output) (w : Written) : Prop where
  medium : c.medium = .created o
  bounded : o.flushed ≤ o.image.length
  image : o.image = w.image (encodeHeader c.version 0 0)
  offset : c.offset = o.image.length
  recordsDone : c.recordsDone = w.records.length
  tensorsDone : c.tensorsDone = w.descriptors.length
  payloadsDone : c.payloadsDone = w.payloads.length
  extents : c.extents = w.descriptors.map Descriptor.extent
  sound : w.Sound
  dataStart : c.dataStart? = w.start?
  data : c.current = .data ↔ w.start?.isSome
  metadata : c.current = .metadata → w.descriptors = []
  start : ∀ s, w.start? = some s → s = alignUp (headerLength + w.index.length) c.alignment

/--
From `c`, which tracks `w`, a run that accepts `calls` leads to `c'`, which tracks `w'`.
-/
structure Container.Evolves (c : Container) (o : Output) (w : Written) (calls : List WriteCall)
    (c' : Container) (o' : Output) (w' : Written) : Prop where
  tracks : c'.Tracks o' w'
  output : ∃ bytes, o.Extends bytes o'
  gains : w.Gains calls w'
  version : c'.version = c.version
  path : c'.path = c.path
  current : c.current.rank ≤ c'.current.rank

namespace Container

theorem Evolves.trans {c c' c'' : Container} {o o' o'' : Output} {w w' w'' : Written}
    {calls calls' : List WriteCall} (h : c.Evolves o w calls c' o' w')
    (h' : c'.Evolves o' w' calls' c'' o'' w'') : c.Evolves o w (calls ++ calls') c'' o'' w'' where
  tracks := h'.tracks
  output := by
    obtain ⟨bytes, hext⟩ := h.output
    obtain ⟨bytes', hext'⟩ := h'.output
    exact ⟨bytes ++ bytes', hext.trans hext'⟩
  gains := h.gains.trans h'.gains
  version := by rw [h'.version, h.version]
  path := by rw [h'.path, h.path]
  current := Nat.le_trans h.current h'.current

variable {c : Container} {o : Output} {w : Written}

theorem Tracks.evolves_nil (h : c.Tracks o w) : c.Evolves o w [] c o w :=
  ⟨h, ⟨[], Output.extends_nil h.bounded⟩, w.gains_nil, rfl, rfl, Nat.le_refl _⟩

theorem Tracks.start?_eq_none (h : c.Tracks o w) (hs : c.current ≠ .data) : w.start? = none := by
  rw [← Option.not_isSome_iff_eq_none, ← h.data]
  exact hs

theorem Tracks.image_eq (h : c.Tracks o w) (hs : c.current ≠ .data)
    : o.image = encodeHeader c.version 0 0 ++ w.index := by
  rw [h.image, Written.image, h.start?_eq_none hs]

theorem Tracks.exec_appendEncoded (h : c.Tracks o w) (r : EncodedRecord)
    : (c.current = .metadata ∧ ∃ c' o' w',
        exec (appendEncoded r.key r.type r.value) c = (.ok (), c') ∧
        c.Evolves o w [.encoded r] c' o' w' ∧ c'.alignment = c.alignment ∧
        w'.descriptors = w.descriptors ∧ c'.current = .metadata) ∨
      (c.current ≠ .metadata ∧ ∃ fault, exec (appendEncoded r.key r.type r.value) c
        = (.error (.malformed fault), c)) := by
  by_cases hs : c.current = .metadata
  . left
    obtain ⟨o', hext, hexec⟩ := exec_appendEncoded_of_metadata h.medium h.bounded hs r
    have hdesc := h.metadata hs
    have hnone := h.start?_eq_none (by simp [hs])
    refine ⟨hs, _, o', { w with records := w.records ++ [r] }, hexec, ?_, rfl, rfl, hs⟩
    constructor
    . constructor
      . rfl
      . exact hext.bounded
      . rw [hext.image, h.image_eq (by simp [hs])]
        simp [Written.image, Written.index, hnone, hdesc, wrote]
      . simp [wrote, hext.image, h.offset]
      . simp [h.recordsDone]
      . exact h.tensorsDone
      . exact h.payloadsDone
      . exact h.extents
      . exact ⟨h.sound.sized, h.sound.ranks, h.sound.order, h.sound.placed, h.sound.unplaced⟩
      . exact h.dataStart
      . exact h.data
      . exact h.metadata
      . simp [hnone]
    . exact ⟨_, hext⟩
    . constructor <;> simp [WriteCall.record?, WriteCall.descriptor?, WriteCall.payload?]
    . rfl
    . rfl
    . exact Nat.le_refl _
  . right
    refine ⟨hs, ?_⟩
    unfold appendEncoded
    rw [exec_bind_of_ok (exec_get c), expectSection_eq_error hs,
      exec_bind_of_error (exec_lift _ _)]
    exact ⟨_, rfl⟩

theorem Tracks.leftMetadata (h : c.Tracks o w) : c.leftMetadata.Tracks o w := by
  rw [leftMetadata_eq]
  refine ⟨h.medium, h.bounded, h.image, h.offset, h.recordsDone, h.tensorsDone, h.payloadsDone,
    h.extents, h.sound, h.dataStart, ?_, ?_, h.start⟩
  . rw [← h.data]
    dsimp only
    split
    . next hm => simp [hm]
    . rfl
  . dsimp only
    split
    . simp
    . next hm => exact fun hc => absurd hc hm

theorem rank_le_leftMetadata (c : Container) : c.current.rank ≤ c.leftMetadata.current.rank := by
  unfold leftMetadata
  split
  . next hm =>
    rw [hm]
    exact Nat.zero_le _
  . exact Nat.le_refl _

theorem inOrder_concat {extents : List (Nat × Nat)} (h : InOrder extents) {e : Nat × Nat}
    (hlast : ∀ l ∈ extents.getLast?, l.1 + l.2 ≤ e.1) : InOrder (extents ++ [e]) := by
  unfold InOrder at h ⊢
  rw [List.pairwise_append]
  refine ⟨h, by simp, ?_⟩
  intro a ha b hb
  rw [List.mem_singleton] at hb
  subst hb
  cases List.eq_nil_or_concat extents with
  | inl hnil => simp [hnil] at ha
  | inr hconcat =>
    obtain ⟨front, l, rfl⟩ := hconcat
    rw [List.concat_eq_append] at h ha hlast
    rw [List.pairwise_append] at h
    have hl := hlast l (by simp)
    cases List.mem_append.1 ha with
    | inl ha =>
      have := h.2.2 a ha l (by simp)
      omega
    | inr ha =>
      rw [List.mem_singleton] at ha
      rw [ha]
      exact hl

theorem Tracks.sound_descriptor (h : c.Tracks o w) {d : Descriptor} (ha : c.Admits d)
    : { w with descriptors := w.descriptors ++ [d] }.Sound := by
  constructor
  . rw [List.forall_mem_append, List.forall_mem_singleton]
    exact ⟨h.sound.sized, ha.sized⟩
  . rw [List.forall_mem_append, List.forall_mem_singleton]
    exact ⟨h.sound.ranks, ha.rank⟩
  . rw [List.map_append]
    apply inOrder_concat h.sound.order
    rw [← h.extents]
    exact ha.order
  . rw [List.map_append]
    exact h.sound.placed.trans (List.prefix_append _ _)
  . exact h.sound.unplaced

theorem Tracks.exec_appendDescriptor (h : c.Tracks o w) (d : Descriptor)
    : (c.Admits d ∧ ∃ c' o' w', exec (appendDescriptor d) c = (.ok (), c') ∧
        c.Evolves o w [.descriptor d] c' o' w' ∧ c'.alignment = c.alignment ∧
        c'.current = .descriptors) ∨
      (¬ c.Admits d ∧ ∃ e c', exec (appendDescriptor d) c = (.error e, c') ∧
        c.Evolves o w [] c' o w ∧ c'.alignment = c.alignment) := by
  by_cases ha : c.Admits d
  . left
    obtain ⟨o', hext, hexec⟩ := exec_appendDescriptor_of_admits h.medium h.bounded ha
    have hnone := h.start?_eq_none ha.current
    have hcurrent := current_leftMetadata ha.current
    rw [leftMetadata_eq] at hexec hcurrent
    refine ⟨ha, _, o', { w with descriptors := w.descriptors ++ [d] }, hexec, ?_, rfl, hcurrent⟩
    constructor
    . constructor
      . rfl
      . exact hext.bounded
      . rw [hext.image, h.image_eq ha.current]
        simp [Written.image, Written.index, hnone, wrote]
      . simp [wrote, hext.image, h.offset]
      . exact h.recordsDone
      . simp [h.tensorsDone]
      . exact h.payloadsDone
      . simp [h.extents]
      . exact h.sound_descriptor ha
      . exact h.dataStart
      . have := ha.current
        simp only [wrote, hnone]
        split
        . simp
        . simpa using this
      . intro hc
        simp only [wrote] at hc
        split at hc
        . simp at hc
        . next hm => exact absurd hc hm
      . simp [hnone]
    . exact ⟨_, hext⟩
    . constructor <;> simp [WriteCall.record?, WriteCall.descriptor?, WriteCall.payload?]
    . rfl
    . rfl
    . rw [← leftMetadata_eq]
      exact c.rank_le_leftMetadata
  . right
    obtain ⟨e, hexec⟩ := exec_appendDescriptor_of_not_admits ha
    refine ⟨ha, e, _, hexec, ?_, ?_⟩
    . have hleft := h.leftMetadata.evolves_nil
      refine ⟨hleft.tracks, hleft.output, hleft.gains, ?_, ?_, c.rank_le_leftMetadata⟩
      . rw [leftMetadata_eq]
      . rw [leftMetadata_eq]
    . rw [leftMetadata_eq]

/--
Once the data section has begun it stays where it is; before that it begins at the next boundary.
-/
theorem Tracks.exec_startData (h : c.Tracks o w)
    : ∃ c' o' start, exec startData c = (.ok (), c') ∧
        c.Evolves o w [] c' o' { w with start? := some start } ∧ c'.dataStart? = some start ∧
        c'.alignment = c.alignment := by
  by_cases hs : c.current = .data
  . have hsome := h.data.1 hs
    obtain ⟨start, hstart⟩ := Option.isSome_iff_exists.1 hsome
    refine ⟨c, o, start, exec_startData_of_data hs, ?_, ?_, rfl⟩
    . rw [← hstart]
      exact h.evolves_nil
    . rw [h.dataStart, hstart]
  . obtain ⟨o', hext, hexec⟩ := exec_startData_of_ne_data h.medium h.bounded hs
    have hnone := h.start?_eq_none hs
    have himage := h.image_eq hs
    refine ⟨_, o', _, hexec, ?_, rfl, rfl⟩
    constructor
    . constructor
      . rfl
      . exact hext.bounded
      . rw [hext.image, h.offset, himage]
        simp [Written.image, Written.index, h.sound.unplaced hnone, padded, wrote]
      . simp [wrote, hext.image, h.offset]
      . exact h.recordsDone
      . exact h.tensorsDone
      . exact h.payloadsDone
      . exact h.extents
      . exact ⟨h.sound.sized, h.sound.ranks, h.sound.order, h.sound.placed, by simp⟩
      . rfl
      . simp
      . simp
      . intro s hstart
        rw [Option.some.injEq] at hstart
        rw [← hstart, h.offset, himage, List.length_append, length_encodeHeader]
        rfl
    . exact ⟨_, hext⟩
    . constructor <;> simp
    . rfl
    . rfl
    . exact c.current.rank_le_data

theorem Tracks.start_add_stop_le (h : c.Tracks o w) {start : Nat} (hstart : w.start? = some start)
    : start + w.stop ≤ c.offset := by
  rw [h.offset, h.image]
  exact w.start_add_stop_le _ hstart

/--
A payload that is written at its place is one more that is tracked.
-/
theorem Tracks.evolves_payload (h : c.Tracks o w) {start offset : Nat} {bytes : List UInt8}
    {o' : Output} (hstart : w.start? = some start)
    (hoffset : c.extents[c.payloadsDone]? = some (offset, bytes.length))
    (hext : o.Extends (List.replicate (start + offset - c.offset) 0 ++ bytes) o')
    : c.Evolves o w [.payload bytes]
        { c.wrote o' (start + offset - c.offset + bytes.length) with
          payloadsDone := c.payloadsDone + 1 }
        o' { w with payloads := w.payloads ++ [(offset, bytes)] } := by
  constructor
  . constructor
    . rfl
    . exact hext.bounded
    . rw [hext.image, h.offset, h.image]
      simp [Written.image, Written.index, hstart, place, padded, wrote]
    . simp [wrote, hext.image, h.offset]
    . exact h.recordsDone
    . exact h.tensorsDone
    . simp [h.payloadsDone]
    . exact h.extents
    . refine ⟨h.sound.sized, h.sound.ranks, h.sound.order, ?_, by simp [hstart]⟩
      have hplaced := h.sound.placed
      rw [h.extents, h.payloadsDone] at hoffset
      rw [List.prefix_iff_eq_take] at hplaced ⊢
      simp only [List.length_map, List.map_append, List.length_append, List.map_cons,
        List.map_nil, List.length_cons, List.length_nil] at hplaced ⊢
      rw [List.take_add_one, ← hplaced, hoffset]
      rfl
    . exact h.dataStart
    . exact h.data
    . exact h.metadata
    . exact h.start
  . exact ⟨_, hext⟩
  . constructor <;> simp [WriteCall.record?, WriteCall.descriptor?, WriteCall.payload?]
  . rfl
  . rfl
  . exact Nat.le_refl _

/--
A payload is accepted if it has the size that the next descriptor declares, unless it is too far
behind the one before it.
-/
theorem Tracks.exec_appendPayload (h : c.Tracks o w) (bytes : List UInt8)
    : (∃ offset, (w.descriptors.map Descriptor.extent)[w.payloads.length]?
          = some (offset, bytes.length) ∧
        ∃ c' o' w', exec (appendPayload bytes) c = (.ok (), c') ∧
          c.Evolves o w [.payload bytes] c' o' w' ∧ c'.alignment = c.alignment ∧
          w'.descriptors = w.descriptors ∧ w'.payloads = w.payloads ++ [(offset, bytes)]) ∨
      ((∀ offset, (w.descriptors.map Descriptor.extent)[w.payloads.length]?
          = some (offset, bytes.length) → w.stop + maxAllocation < offset) ∧
        ∃ e c' o' w', exec (appendPayload bytes) c = (.error e, c') ∧
          c.Evolves o w [] c' o' w' ∧ c'.alignment = c.alignment ∧
          w'.descriptors = w.descriptors) := by
  obtain ⟨c₁, o₁, start, hexec₁, hevolves₁, hstart₁, halign₁⟩ := h.exec_startData
  have h₁ := hevolves₁.tracks
  have hstop : start + w.stop ≤ c₁.offset := h₁.start_add_stop_le rfl
  have hextents : c₁.extents = w.descriptors.map Descriptor.extent := h₁.extents
  have hdone : c₁.payloadsDone = w.payloads.length := h₁.payloadsDone
  rw [← hextents, ← hdone]
  by_cases hnext : ∃ offset, c₁.extents[c₁.payloadsDone]? = some (offset, bytes.length)
  . obtain ⟨offset, hoffset⟩ := hnext
    by_cases hgap : start + offset - c₁.offset ≤ maxAllocation
    . left
      obtain ⟨o', hext, hexec⟩ := exec_appendPayload_of_declared hexec₁ h₁.medium h₁.bounded hstart₁
        hoffset hgap
      have hevolves := hevolves₁.trans (h₁.evolves_payload rfl hoffset hext)
      exact ⟨offset, hoffset, _, o', _, hexec, hevolves, halign₁, rfl, rfl⟩
    . right
      obtain ⟨e, hexec⟩ := exec_appendPayload_of_far hexec₁ hstart₁ hoffset (Nat.not_le.1 hgap)
      refine ⟨fun offset' hoffset' => ?_, e, c₁, o₁, _, hexec, hevolves₁, halign₁, rfl⟩
      rw [hoffset, Option.some.injEq, Prod.mk.injEq] at hoffset'
      omega
  . right
    have hrefused (offset : Nat) : c₁.extents[c₁.payloadsDone]? ≠ some (offset, bytes.length) :=
      fun heq => hnext ⟨offset, heq⟩
    obtain ⟨e, hexec⟩ := exec_appendPayload_of_not_declared hexec₁ hrefused
    exact ⟨fun offset heq => absurd heq (hrefused offset), e, c₁, o₁, _, hexec, hevolves₁, halign₁,
      rfl⟩

theorem Tracks.exec_setAlignment (h : c.Tracks o w) (alignment : Nat)
    : (∃ c', exec (setAlignment alignment) c = (.ok (), c') ∧
        c.Evolves o w [.align alignment] c' o w ∧ c'.alignment = alignment) ∨
      (∃ fault, exec (setAlignment alignment) c = (.error (.malformed fault), c)) := by
  unfold setAlignment
  by_cases hp : isPowerOfTwo alignment
  . by_cases hs : c.current = .data
    . right
      rw [if_neg (by simp [hp]), exec_bind_of_ok (exec_get c), if_pos hs,
        exec_bind_of_error (exec_throw _ _)]
      exact ⟨_, rfl⟩
    . left
      rw [if_neg (by simp [hp]), exec_bind_of_ok (exec_get c), if_neg hs, exec_modify]
      refine ⟨_, rfl, ?_, rfl⟩
      constructor
      . refine ⟨h.medium, h.bounded, h.image, h.offset, h.recordsDone, h.tensorsDone,
          h.payloadsDone, h.extents, h.sound, h.dataStart, h.data, h.metadata, ?_⟩
        intro s hstart
        rw [h.start?_eq_none hs] at hstart
        simp at hstart
      . exact ⟨[], Output.extends_nil h.bounded⟩
      . constructor <;> simp [WriteCall.record?, WriteCall.descriptor?, WriteCall.payload?]
      . rfl
      . rfl
      . exact Nat.le_refl _
  . right
    rw [if_pos (by simp [hp]), exec_bind_of_error (exec_throw _ _)]
    exact ⟨_, rfl⟩

theorem Tracks.exec_appendRecord (h : c.Tracks o w) (key : String) (value : MetaValue)
    : ∃ r c' o' w', exec (appendRecord key value) c = (r, c') ∧
        c.Evolves o w ((WriteCall.record key value).accepted r) c' o' w' ∧
        c'.alignment = c.alignment ∧ w'.descriptors = w.descriptors := by
  unfold appendRecord
  cases hencode : value.encode key with
  | error e =>
    refine ⟨.error e, c, o, w, ?_, h.evolves_nil, rfl, rfl⟩
    rw [exec_bind_of_error (exec_lift _ c)]
  | ok encoded =>
    obtain ⟨type, bytes⟩ := encoded
    have hvalue : EncodedRecord.ofValue key value = .ok ⟨key, type, bytes⟩ := by
      unfold EncodedRecord.ofValue
      rw [hencode]
      rfl
    rw [exec_bind_of_ok (exec_lift _ c)]
    cases h.exec_appendEncoded ⟨key, type, bytes⟩ with
    | inl haccepted =>
      obtain ⟨_, c', o', w', hexec, hevolves, halign, hdesc, _⟩ := haccepted
      refine ⟨.ok (), c', o', w', hexec, ?_, halign, hdesc⟩
      refine ⟨hevolves.tracks, hevolves.output, ?_, hevolves.version, hevolves.path,
        hevolves.current⟩
      constructor
      . rw [hevolves.gains.records]
        simp [WriteCall.accepted, WriteCall.record?, hvalue, Except.toOption]
      . exact hevolves.gains.descriptors
      . exact hevolves.gains.payloads
      . intro key' value' hmem
        simp only [WriteCall.accepted, List.mem_singleton, WriteCall.record.injEq] at hmem
        obtain ⟨rfl, rfl⟩ := hmem
        exact ⟨_, hvalue⟩
    | inr hrefused =>
      obtain ⟨_, fault, hexec⟩ := hrefused
      exact ⟨_, c, o, w, hexec, h.evolves_nil, rfl, rfl⟩

/--
Every call keeps the container on track. One that appends leaves the alignment as it is and
accepts no descriptor that is not aligned.
-/
theorem Tracks.exec_call (h : c.Tracks o w) (call : WriteCall)
    : ∃ r c' o' w', exec call.call c = (r, c') ∧ c.Evolves o w (call.accepted r) c' o' w' ∧
        (call.aligns = false → c'.alignment = c.alignment ∧
          (w.Aligned c.alignment → w'.Aligned c.alignment)) := by
  cases call with
  | record key value =>
    obtain ⟨r, c', o', w', hexec, hevolves, halign, hdesc⟩ := h.exec_appendRecord key value
    refine ⟨r, c', o', w', hexec, hevolves, fun _ => ⟨halign, ?_⟩⟩
    exact fun haligned => haligned.of_descriptors_eq hdesc
  | encoded r =>
    cases h.exec_appendEncoded r with
    | inl haccepted =>
      obtain ⟨_, c', o', w', hexec, hevolves, halign, hdesc, _⟩ := haccepted
      refine ⟨_, c', o', w', hexec, hevolves, fun _ => ⟨halign, ?_⟩⟩
      exact fun haligned => haligned.of_descriptors_eq hdesc
    | inr hrefused =>
      obtain ⟨_, fault, hexec⟩ := hrefused
      exact ⟨_, c, o, w, hexec, h.evolves_nil, fun _ => ⟨rfl, id⟩⟩
  | descriptor d =>
    cases h.exec_appendDescriptor d with
    | inl haccepted =>
      obtain ⟨hadmits, c', o', w', hexec, hevolves, halign, _⟩ := haccepted
      refine ⟨_, c', o', w', hexec, hevolves, fun _ => ⟨halign, ?_⟩⟩
      intro haligned e he
      rw [hevolves.gains.descriptors, List.mem_append] at he
      cases he with
      | inl he => exact haligned e he
      | inr he =>
        rw [List.mem_singleton.1 he]
        exact hadmits.aligned
    | inr hrefused =>
      obtain ⟨_, e, c', hexec, hevolves, halign⟩ := hrefused
      exact ⟨_, c', o, w, hexec, hevolves, fun _ => ⟨halign, id⟩⟩
  | payload bytes =>
    cases h.exec_appendPayload bytes with
    | inl haccepted =>
      obtain ⟨_, _, c', o', w', hexec, hevolves, halign, hdesc, _⟩ := haccepted
      refine ⟨_, c', o', w', hexec, hevolves, fun _ => ⟨halign, ?_⟩⟩
      exact fun haligned => haligned.of_descriptors_eq hdesc
    | inr hrefused =>
      obtain ⟨_, e, c', o', w', hexec, hevolves, halign, hdesc⟩ := hrefused
      refine ⟨_, c', o', w', hexec, hevolves, fun _ => ⟨halign, ?_⟩⟩
      exact fun haligned => haligned.of_descriptors_eq hdesc
  | align alignment =>
    cases h.exec_setAlignment alignment with
    | inl haccepted =>
      obtain ⟨c', hexec, hevolves, _⟩ := haccepted
      exact ⟨_, c', o, w, hexec, hevolves, by simp [WriteCall.aligns]⟩
    | inr hrefused =>
      obtain ⟨fault, hexec⟩ := hrefused
      exact ⟨_, c, o, w, hexec, h.evolves_nil, by simp [WriteCall.aligns]⟩

/--
A row of calls keeps the container on track as far as it gets. If it gets to the end, all calls have
been accepted.
-/
theorem Tracks.exec_forM (h : c.Tracks o w) (calls : List WriteCall)
    (haligns : ∀ call ∈ calls, call.aligns = false)
    : ∃ r c' o' w' accepted, exec (forM calls WriteCall.call) c = (r, c') ∧
        c.Evolves o w accepted c' o' w' ∧ (r = .ok () → accepted = calls) ∧
        c'.alignment = c.alignment ∧ (w.Aligned c.alignment → w'.Aligned c.alignment) := by
  induction calls generalizing c o w with
  | nil => exact ⟨.ok (), c, o, w, [], rfl, h.evolves_nil, fun _ => rfl, rfl, id⟩
  | cons call calls ih =>
    rw [List.forall_mem_cons] at haligns
    obtain ⟨r, c₁, o₁, w₁, hexec₁, hevolves₁, halign₁⟩ := h.exec_call call
    obtain ⟨heq₁, haligned₁⟩ := halign₁ haligns.1
    rw [List.forM_cons]
    cases r with
    | error e =>
      refine ⟨.error e, c₁, o₁, w₁, [], exec_bind_of_error hexec₁, hevolves₁, by simp, heq₁,
        haligned₁⟩
    | ok u =>
      obtain ⟨r, c₂, o₂, w₂, accepted, hexec₂, hevolves₂, hall, heq₂, haligned₂⟩ :=
        ih hevolves₁.tracks haligns.2
      rw [heq₁] at heq₂ haligned₂
      refine ⟨r, c₂, o₂, w₂, call :: accepted, ?_, hevolves₁.trans hevolves₂, ?_, heq₂,
        fun haligned => haligned₂ (haligned₁ haligned)⟩
      . rw [exec_bind_of_ok hexec₁, hexec₂]
      . intro hr
        rw [hall hr]

end Container

end TensorFiles.Gguf
