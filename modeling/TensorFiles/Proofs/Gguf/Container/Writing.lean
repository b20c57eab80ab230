import TensorFiles.Proofs.Exec
import TensorFiles.Proofs.Gguf.Container.Written
/-!
This module contains what the writing calls of a container do. Each either writes its record,
descriptor or payload behind what is there, or is refused; a refused call can still have moved the
section on.
-/

namespace TensorFiles.Gguf

/--
The output `o'` is what `o` becomes when `bytes` are written to it.
-/
structure Output.Extends (o : Output) (bytes : List UInt8) (o' : Output) : Prop where
  file : o'.file = o.file
  image : o'.image = o.image ++ bytes
  flushed : o.flushed ≤ o'.flushed
  bounded : o'.flushed ≤ o'.image.length

namespace Output

theorem extends_nil {o : Output} (h : o.flushed ≤ o.image.length) : o.Extends [] o :=
  ⟨rfl, by simp, Nat.le_refl _, h⟩

theorem Extends.trans {o o' o'' : Output} {bytes bytes' : List UInt8}
    (h : o.Extends bytes o') (h' : o'.Extends bytes' o'') : o.Extends (bytes ++ bytes') o'' where
  file := by rw [h'.file, h.file]
  image := by rw [h'.image, h.image, List.append_assoc]
  flushed := Nat.le_trans h.flushed h'.flushed
  bounded := h'.bounded

theorem extends_push {o : Output} (bytes : List UInt8) (h : o.flushed ≤ o.image.length)
    : o.Extends bytes (o.push bytes) where
  file := rfl
  image := rfl
  flushed := by
    simp only [push]
    split
    . omega
    . split
      . exact h
      . exact Nat.le_refl _
  bounded := by
    simp only [push, List.length_append]
    split
    . exact Nat.le_refl _
    . split
      . omega
      . omega

end Output

namespace Container

/--
The container after `n` bytes have gone to its output, which is `o` then.
-/
def wrote (c : Container) (o : Output) (n : Nat) : Container :=
  { c with medium := .created o, offset := c.offset + n }

theorem wrote_wrote (c : Container) (o o' : Output) (n n' : Nat)
    : (c.wrote o n).wrote o' n' = c.wrote o' (n + n') := by
  simp only [wrote, Nat.add_assoc]

/--
On every container that is written, `call` writes `bytes` and does nothing else.
-/
def Pushes (call : Call Unit) (bytes : List UInt8) : Prop :=
  ∀ (c : Container) (o : Output), c.medium = .created o → o.flushed ≤ o.image.length →
    ∃ o', o.Extends bytes o' ∧ exec call c = (.ok (), c.wrote o' bytes.length)

theorem pushes_push (bytes : List UInt8) : Pushes (push bytes) bytes := by
  intro c o hm hle
  refine ⟨o.push bytes, Output.extends_push bytes hle, ?_⟩
  unfold push
  rw [exec_bind_of_ok (exec_get c)]
  simp only [hm]
  rfl

theorem pushes_pure : Pushes (pure ()) [] := by
  intro c o hm hle
  refine ⟨o, Output.extends_nil hle, ?_⟩
  rw [exec_pure, wrote, ← hm]
  rfl

theorem Pushes.bind {x : Call Unit} {f : Unit → Call Unit} {bytes bytes' : List UInt8}
    (hx : Pushes x bytes) (hf : Pushes (f ()) bytes') : Pushes (x >>= f) (bytes ++ bytes') := by
  intro c o hm hle
  obtain ⟨o', hext, hexec⟩ := hx c o hm hle
  obtain ⟨o'', hext', hexec'⟩ := hf (c.wrote o' bytes.length) o' rfl hext.bounded
  refine ⟨o'', hext.trans hext', ?_⟩
  rw [exec_bind_of_ok hexec, hexec', wrote_wrote, List.length_append]

theorem Pushes.exec_bind {call : Call Unit} {bytes : List UInt8} (h : Pushes call bytes)
    {c : Container} {o : Output} (hm : c.medium = .created o) (hle : o.flushed ≤ o.image.length)
    (f : Unit → Call Unit)
    : ∃ o', o.Extends bytes o' ∧
        exec (call >>= f) c = exec (f ()) (c.wrote o' bytes.length) := by
  obtain ⟨o', hext, hexec⟩ := h c o hm hle
  exact ⟨o', hext, exec_bind_of_ok hexec⟩

theorem pushes_pushString (s : String) : Pushes (pushString s) (encodeString s) := by
  unfold pushString encodeString
  exact (pushes_push _).bind (pushes_push _)

theorem pushes_forIn (dims : List Nat)
    : Pushes (forIn dims PUnit.unit fun dim _ => do
        push (LittleEndian.encode 8 dim)
        pure (ForInStep.yield PUnit.unit)) (dims.flatMap (LittleEndian.encode 8)) := by
  induction dims with
  | nil => exact pushes_pure
  | cons dim dims ih =>
    rw [List.forIn_cons, List.flatMap_cons]
    simp only [bind_assoc, pure_bind]
    exact (pushes_push _).bind ih

theorem exec_padTo {c : Container} {o : Output} (hm : c.medium = .created o)
    (hle : o.flushed ≤ o.image.length) {target : Nat} (hgap : target - c.offset ≤ maxAllocation)
    : ∃ o', o.Extends (List.replicate (target - c.offset) 0) o' ∧
        exec (padTo target) c = (.ok (), c.wrote o' (target - c.offset)) := by
  unfold padTo
  rw [exec_bind_of_ok (exec_get c)]
  split
  . rw [if_neg (Nat.not_lt.2 hgap)]
    obtain ⟨o', hext, hexec⟩ := pushes_push (List.replicate (target - c.offset) 0) c o hm hle
    rw [List.length_replicate] at hexec
    exact ⟨o', hext, hexec⟩
  . next h =>
    rw [Nat.sub_eq_zero_of_le (Nat.not_lt.1 h)]
    exact pushes_pure c o hm hle

theorem exec_padTo_of_far {c : Container} {target : Nat} (hfar : maxAllocation < target - c.offset)
    : ∃ e, exec (padTo target) c = (.error e, c) := by
  have hlt : c.offset < target := by
    unfold maxAllocation at hfar
    omega
  unfold padTo
  rw [exec_bind_of_ok (exec_get c), if_pos hlt, if_pos hfar,
    exec_bind_of_error (exec_throw _ c)]
  exact ⟨_, rfl⟩

/--
The next boundary is never too far away.
-/
theorem alignUp_sub_le (off align : Nat) : alignUp off align - off ≤ maxAllocation := by
  unfold alignUp
  split
  . omega
  . have hsum : (off + align - 1) &&& (wordBound - align) ≤ off + align - 1 := Nat.and_le_left
    have hmask : (off + align - 1) &&& (wordBound - align) ≤ wordBound - align := Nat.and_le_right
    unfold wordBound at hsum hmask ⊢
    unfold maxAllocation
    omega

theorem expectSection_eq_ok {c : Container} {operation : String} {expected : Section}
    (h : c.current = expected) : c.expectSection operation expected = .ok () := by
  unfold expectSection
  rw [if_pos h]

theorem expectSection_eq_error {c : Container} {operation : String} {expected : Section}
    (h : c.current ≠ expected)
    : c.expectSection operation expected
        = .error (.gguf (.wrongSection operation c.current expected)) := by
  unfold expectSection
  rw [if_neg h]

theorem exec_appendEncoded_of_metadata {c : Container} {o : Output} (hm : c.medium = .created o)
    (hle : o.flushed ≤ o.image.length) (hs : c.current = .metadata) (r : EncodedRecord)
    : ∃ o', o.Extends r.encode o' ∧
        exec (appendEncoded r.key r.type r.value) c
          = (.ok (), { c.wrote o' r.encode.length with recordsDone := c.recordsDone + 1 }) := by
  have hpush : Pushes (do
      pushString r.key
      push (LittleEndian.encode 4 r.type.code)
      push r.value) r.encode := by
    unfold EncodedRecord.encode
    rw [List.append_assoc]
    exact (pushes_pushString _).bind ((pushes_push _).bind (pushes_push _))
  obtain ⟨o', hext, hexec⟩ := hpush.exec_bind hm hle
    (fun _ => modify fun c => { c with recordsDone := c.recordsDone + 1 })
  refine ⟨o', hext, ?_⟩
  unfold appendEncoded
  rw [exec_bind_of_ok (exec_get c), expectSection_eq_ok hs, exec_bind_of_ok (exec_lift _ c)]
  simp only [bind_assoc] at hexec
  rw [hexec, exec_modify]
  rfl

/--
The container once it has left the metadata.
-/
def leftMetadata (c : Container) : Container :=
  if c.current = .metadata then { c with current := .descriptors } else c

/--
What a container asks of the next descriptor.
-/
structure Admits (c : Container) (d : Descriptor) : Prop where
  current : c.current ≠ .data
  rank : d.shape.length ≤ maxRank
  aligned : d.offset % c.alignment = 0
  order : ∀ e ∈ c.extents.getLast?, e.1 + e.2 ≤ d.offset
  sized : d.byteSize = .ok d.size

theorem leftMetadata_eq (c : Container)
    : c.leftMetadata = { c with
        current := if c.current = .metadata then .descriptors else c.current } := by
  unfold leftMetadata
  split
  . rfl
  . rfl

theorem pushes_descriptor (d : Descriptor) : Pushes (do
    pushString d.name
    push (LittleEndian.encode 4 d.shape.length)
    for dim in d.shape.reverse do
      push (LittleEndian.encode 8 dim)
    push (LittleEndian.encode 4 d.type.code)
    push (LittleEndian.encode 8 d.offset)) d.encode := by
  unfold Descriptor.encode
  simp only [List.append_assoc]
  apply (pushes_pushString _).bind
  apply (pushes_push _).bind
  apply (pushes_forIn _).bind
  exact (pushes_push _).bind (pushes_push _)

theorem current_leftMetadata {c : Container} (h : c.current ≠ .data)
    : c.leftMetadata.current = .descriptors := by
  rw [leftMetadata_eq]
  dsimp only
  split
  . rfl
  . next hm =>
    cases hc : c.current with
    | metadata => exact absurd hc hm
    | descriptors => rfl
    | data => exact absurd hc h

theorem exec_appendDescriptor_of_admits {c : Container} {o : Output} (hm : c.medium = .created o)
    (hle : o.flushed ≤ o.image.length) {d : Descriptor} (h : c.Admits d)
    : ∃ o', o.Extends d.encode o' ∧
        exec (appendDescriptor d) c
          = (.ok (), { c.leftMetadata.wrote o' d.encode.length with
              extents := c.extents ++ [d.extent]
              tensorsDone := c.tensorsDone + 1 }) := by
  have hmedium : c.leftMetadata.medium = .created o := by
    rw [leftMetadata_eq]
    exact hm
  obtain ⟨o', hext, hexec⟩ := (pushes_descriptor d).exec_bind hmedium hle (fun _ =>
    modify fun c =>
      { c with extents := c.extents ++ [(d.offset, d.size)], tensorsDone := c.tensorsDone + 1 })
  refine ⟨o', hext, ?_⟩
  simp only [bind_assoc] at hexec
  have hfields : c.leftMetadata.alignment = c.alignment ∧ c.leftMetadata.extents = c.extents ∧
      c.leftMetadata.tensorsDone = c.tensorsDone := by
    rw [leftMetadata_eq]
    exact ⟨rfl, rfl, rfl⟩
  obtain ⟨halign, hextents, hdone⟩ := hfields
  unfold appendDescriptor
  rw [exec_bind_of_ok (exec_modify _ c)]
  change exec _ c.leftMetadata = _
  rw [exec_bind_of_ok (exec_get _), expectSection_eq_ok (current_leftMetadata h.current),
    exec_bind_of_ok (exec_lift _ _)]
  rw [if_neg (Nat.not_lt.2 h.rank), halign, if_neg (by simp [h.aligned]), hextents]
  have hrest : exec (do
      let size ← (liftM d.byteSize : Call Nat)
      pushString d.name
      push (LittleEndian.encode 4 d.shape.length)
      for dim in d.shape.reverse do
        push (LittleEndian.encode 8 dim)
      push (LittleEndian.encode 4 d.type.code)
      push (LittleEndian.encode 8 d.offset)
      modify fun c =>
        { c with extents := c.extents ++ [(d.offset, size)], tensorsDone := c.tensorsDone + 1 })
      c.leftMetadata = (.ok (), { c.leftMetadata.wrote o' d.encode.length with
              extents := c.extents ++ [d.extent]
              tensorsDone := c.tensorsDone + 1 }) := by
    rw [h.sized, exec_bind_of_ok (exec_lift _ _), hexec, exec_modify]
    simp only [wrote, hextents, hdone]
    rfl
  cases hlast : c.extents.getLast? with
  | none => exact hrest
  | some e =>
    have := h.order e hlast
    dsimp only
    rw [if_neg (by omega)]
    exact hrest

theorem exec_appendDescriptor_of_rank {c : Container} {d : Descriptor} (hs : c.current ≠ .data)
    (h : maxRank < d.shape.length)
    : exec (appendDescriptor d) c
        = (.error (.gguf (.rankTooLarge d.name d.shape.length)), c.leftMetadata) := by
  unfold appendDescriptor
  rw [exec_bind_of_ok (exec_modify _ c)]
  change exec _ c.leftMetadata = _
  rw [exec_bind_of_ok (exec_get _), expectSection_eq_ok (current_leftMetadata hs),
    exec_bind_of_ok (exec_lift _ _), if_pos h, exec_bind_of_error (exec_throw _ _)]

theorem exec_appendDescriptor_of_not_admits {c : Container} {d : Descriptor} (h : ¬ c.Admits d)
    : ∃ e, exec (appendDescriptor d) c = (.error e, c.leftMetadata) := by
  have hfields : c.leftMetadata.alignment = c.alignment ∧ c.leftMetadata.extents = c.extents := by
    rw [leftMetadata_eq]
    exact ⟨rfl, rfl⟩
  obtain ⟨halign, hextents⟩ := hfields
  unfold appendDescriptor
  rw [exec_bind_of_ok (exec_modify _ c)]
  change ∃ e, exec _ c.leftMetadata = _
  rw [exec_bind_of_ok (exec_get _)]
  by_cases hs : c.current = .data
  . have hleft : c.leftMetadata.current ≠ .descriptors := by
      rw [leftMetadata_eq]
      simp [hs]
    rw [expectSection_eq_error hleft, exec_bind_of_error (exec_lift _ _)]
    exact ⟨_, rfl⟩
  rw [expectSection_eq_ok (current_leftMetadata hs), exec_bind_of_ok (exec_lift _ _)]
  by_cases hrank : maxRank < d.shape.length
  . rw [if_pos hrank, exec_bind_of_error (exec_throw _ _)]
    exact ⟨_, rfl⟩
  rw [if_neg hrank, halign]
  by_cases haligned : d.offset % c.alignment ≠ 0
  . rw [if_pos haligned, exec_bind_of_error (exec_throw _ _)]
    exact ⟨_, rfl⟩
  rw [if_neg haligned, hextents]
  -- what is left to refuse is the order of the payloads and then the size
  have hsize (horder : ∀ e ∈ c.extents.getLast?, e.1 + e.2 ≤ d.offset)
      : ∃ e, d.byteSize = .error e := by
    cases hsized : d.byteSize with
    | error e => exact ⟨e, rfl⟩
    | ok n =>
      rw [Descriptor.eq_size_of_byteSize hsized] at hsized
      exact absurd ⟨hs, Nat.not_lt.1 hrank, Decidable.not_not.1 haligned, horder, hsized⟩ h
  cases hlast : c.extents.getLast? with
  | none =>
    obtain ⟨e, he⟩ := hsize (by simp [hlast])
    dsimp only
    rw [he, exec_bind_of_error (exec_lift _ _)]
    exact ⟨_, rfl⟩
  | some extent =>
    dsimp only
    by_cases hover : d.offset < extent.1 + extent.2
    . rw [if_pos hover, exec_bind_of_error (exec_throw _ _)]
      exact ⟨_, rfl⟩
    . obtain ⟨e, he⟩ := hsize (by simpa [hlast] using hover)
      rw [if_neg hover, he, exec_bind_of_error (exec_lift _ _)]
      exact ⟨_, rfl⟩

theorem exec_startData_of_data {c : Container} (h : c.current = .data)
    : exec startData c = (.ok (), c) := by
  unfold startData
  rw [exec_bind_of_ok (exec_get c), if_neg (by simp [h]), exec_pure]

theorem exec_startData_of_ne_data {c : Container} {o : Output} (hm : c.medium = .created o)
    (hle : o.flushed ≤ o.image.length) (h : c.current ≠ .data)
    : ∃ o', o.Extends (List.replicate (alignUp c.offset c.alignment - c.offset) 0) o' ∧
        exec startData c
          = (.ok (), { c.wrote o' (alignUp c.offset c.alignment - c.offset) with
              current := .data
              dataStart? := some (alignUp c.offset c.alignment) }) := by
  obtain ⟨o', hext, hexec⟩ := exec_padTo (c := { c with current := .data }) hm hle
    (alignUp_sub_le c.offset c.alignment)
  refine ⟨o', hext, ?_⟩
  unfold startData
  rw [exec_bind_of_ok (exec_get c), if_pos h]
  dsimp only
  rw [exec_bind_of_ok (exec_modify _ c), exec_bind_of_ok hexec, exec_modify]
  rfl

theorem exec_appendPayload_of_declared {c c' : Container} {o : Output} {start offset : Nat}
    {bytes : List UInt8} (hs : exec startData c = (.ok (), c')) (hm : c'.medium = .created o)
    (hle : o.flushed ≤ o.image.length) (hstart : c'.dataStart? = some start)
    (h : c'.extents[c'.payloadsDone]? = some (offset, bytes.length))
    (hgap : start + offset - c'.offset ≤ maxAllocation)
    : ∃ o', o.Extends (List.replicate (start + offset - c'.offset) 0 ++ bytes) o' ∧
        exec (appendPayload bytes) c
          = (.ok (), { c'.wrote o' (start + offset - c'.offset + bytes.length) with
              payloadsDone := c'.payloadsDone + 1 }) := by
  obtain ⟨o₁, hext₁, hexec₁⟩ := exec_padTo hm hle hgap
  obtain ⟨o₂, hext₂, hexec₂⟩ := pushes_push bytes (c'.wrote o₁ (start + offset - c'.offset)) o₁
    rfl hext₁.bounded
  refine ⟨o₂, hext₁.trans hext₂, ?_⟩
  have hdata : c'.dataStart = .ok start := by
    unfold dataStart
    rw [hstart]
  unfold appendPayload
  rw [exec_bind_of_ok hs, exec_bind_of_ok (exec_get _), h]
  dsimp only
  rw [if_neg (by simp), hdata, exec_bind_of_ok (exec_lift _ _), exec_bind_of_ok hexec₁,
    exec_bind_of_ok hexec₂, exec_modify, wrote_wrote]
  rfl

theorem exec_appendPayload_of_far {c c' : Container} {start offset : Nat} {bytes : List UInt8}
    (hs : exec startData c = (.ok (), c')) (hstart : c'.dataStart? = some start)
    (h : c'.extents[c'.payloadsDone]? = some (offset, bytes.length))
    (hfar : maxAllocation < start + offset - c'.offset)
    : ∃ e, exec (appendPayload bytes) c = (.error e, c') := by
  obtain ⟨e, hpad⟩ := exec_padTo_of_far hfar
  have hdata : c'.dataStart = .ok start := by
    unfold dataStart
    rw [hstart]
  unfold appendPayload
  rw [exec_bind_of_ok hs, exec_bind_of_ok (exec_get _), h]
  dsimp only
  rw [if_neg (by simp), hdata, exec_bind_of_ok (exec_lift _ _), exec_bind_of_error hpad]
  exact ⟨e, rfl⟩

theorem exec_appendPayload_of_not_declared {c c' : Container} {bytes : List UInt8}
    (hs : exec startData c = (.ok (), c'))
    (h : ∀ offset, c'.extents[c'.payloadsDone]? ≠ some (offset, bytes.length))
    : ∃ e, exec (appendPayload bytes) c = (.error e, c') := by
  unfold appendPayload
  rw [exec_bind_of_ok hs, exec_bind_of_ok (exec_get _)]
  cases he : c'.extents[c'.payloadsDone]? with
  | none => exact ⟨_, rfl⟩
  | some extent =>
    obtain ⟨offset, size⟩ := extent
    dsimp only
    by_cases hsize : bytes.length = size
    . subst hsize
      exact absurd he (h offset)
    . rw [if_pos hsize, exec_bind_of_error (exec_throw _ _)]
      exact ⟨_, rfl⟩

end Container

end TensorFiles.Gguf
