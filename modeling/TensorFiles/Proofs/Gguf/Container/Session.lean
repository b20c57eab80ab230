import TensorFiles.Proofs.Alignment
import TensorFiles.Proofs.Disk
import TensorFiles.Proofs.Gguf.Container.Calls
import TensorFiles.Proofs.Result
/-!
This module contains whole writing sessions: a file is created, calls follow in any order, and the
file is closed. After every call the disk holds what has left the buffer, and after the last it
holds the bytes of what the accepted calls have written.
-/

namespace TensorFiles.Gguf

/--
A call on a container, after which the disk is brought up to date.
-/
def WriteCall.perform (call : WriteCall) (s : Container × Disk)
    : Except Error Unit × (Container × Disk) :=
  let (r, c) := exec call.call s.1
  (r, (c, s.1.sync c s.2))

/--
Make calls one after the other, whether or not they fail, with those that are accepted.
-/
def performAll : List WriteCall → Container × Disk → List WriteCall × (Container × Disk)
  | [], s => ([], s)
  | call :: calls, s =>
    let (r, s) := call.perform s
    let (accepted, s) := performAll calls s
    (call.accepted r ++ accepted, s)

namespace Container

/--
The file at the path of `c` holds what has left the buffer of `o`.
-/
def Flushed (c : Container) (o : Output) (d : Disk) : Prop :=
  d.find c.path = .ok (.file o.file (o.image.take o.flushed))

variable {c : Container} {o : Output} {w : Written} {d d' : Disk}

theorem length_take_flushed {o : Output} (h : o.flushed ≤ o.image.length)
    : (o.image.take o.flushed).length = o.flushed := by
  rw [List.length_take, Nat.min_eq_left h]

theorem Flushed.sync {c' : Container} {o' : Output} {bytes : List UInt8} (h : c.Flushed o d)
    (hm : c.medium = .created o) (hm' : c'.medium = .created o') (hpath : c'.path = c.path)
    (hle : o.flushed ≤ o.image.length) (hext : o.Extends bytes o')
    : c'.Flushed o' (c.sync c' d) := by
  have hkeep : o.image.take o.flushed = (o'.image.take o'.flushed).take o.flushed := by
    rw [List.take_take, Nat.min_eq_left hext.flushed, hext.image, List.take_append_of_le_length hle]
  have hsync : c.sync c' d
      = d.writeAt o.file o.flushed ((o'.image.take o'.flushed).drop o.flushed) := by
    unfold Container.sync
    rw [hm', hm]
    dsimp only
    rw [hext.file]
  have hwrite := Disk.find_append ((o'.image.take o'.flushed).drop o.flushed) h
  rw [length_take_flushed hle, hkeep, List.take_append_drop] at hwrite
  unfold Flushed
  rw [hpath, hsync, hext.file]
  exact hwrite

theorem Flushed.sync_of_evolves {calls : List WriteCall} {c' : Container} {o' : Output}
    {w' : Written} (h : c.Flushed o d)
    (htracks : c.Tracks o w) (hevolves : c.Evolves o w calls c' o' w')
    : c'.Flushed o' (c.sync c' d) := by
  obtain ⟨bytes, hext⟩ := hevolves.output
  exact h.sync htracks.medium hevolves.tracks.medium hevolves.path htracks.bounded hext

/--
The container `c`, which was made for `path` and `config`, has written `w`, and `d` holds what has
left its buffer.
-/
structure Writes (c : Container) (d : Disk) (path : String) (config : CodecConfig) (o : Output)
    (w : Written) : Prop where
  tracks : c.Tracks o w
  flushed : c.Flushed o d
  aligned : w.Aligned config.alignment
  alignment : c.alignment = config.alignment
  version : c.version = config.version
  path : c.path = path

variable {path : String} {config : CodecConfig}

theorem Writes.of_evolves {calls : List WriteCall} {c' : Container} {o' : Output} {w' : Written}
    (h : c.Writes d path config o w) (he : c.Evolves o w calls c' o' w')
    (halign : c'.alignment = c.alignment ∧ (w.Aligned c.alignment → w'.Aligned c.alignment))
    : c'.Writes (c.sync c' d) path config o' w' := by
  rw [h.alignment] at halign
  exact ⟨he.tracks, h.flushed.sync_of_evolves h.tracks he, halign.2 h.aligned, halign.1,
    he.version.trans h.version, he.path.trans h.path⟩

theorem Writes.perform (h : c.Writes d path config o w) {call : WriteCall}
    (haligns : call.aligns = false)
    : ∃ r c' d' o' w', call.perform (c, d) = (r, (c', d')) ∧ c'.Writes d' path config o' w' ∧
        w.Gains (call.accepted r) w' := by
  obtain ⟨r, c', o', w', hexec, hevolves, halign⟩ := h.tracks.exec_call call
  refine ⟨r, c', _, o', w', ?_, h.of_evolves hevolves (halign haligns), hevolves.gains⟩
  unfold WriteCall.perform
  rw [hexec]

theorem Writes.performAll (h : c.Writes d path config o w) {calls : List WriteCall}
    (haligns : ∀ call ∈ calls, call.aligns = false)
    : ∃ accepted c' d' o' w', performAll calls (c, d) = (accepted, (c', d')) ∧
        c'.Writes d' path config o' w' ∧ w.Gains accepted w' := by
  -- a refused call changes the container, too, but not what has been written
  induction calls generalizing c d o w with
  | nil => exact ⟨[], c, d, o, w, rfl, h, w.gains_nil⟩
  | cons call calls ih =>
    rw [List.forall_mem_cons] at haligns
    obtain ⟨r, c₁, d₁, o₁, w₁, hperform, hwrites₁, hgains₁⟩ := h.perform haligns.1
    obtain ⟨accepted, c₂, d₂, o₂, w₂, hall, hwrites₂, hgains₂⟩ := ih hwrites₁ haligns.2
    refine ⟨call.accepted r ++ accepted, c₂, d₂, o₂, w₂, ?_, hwrites₂, hgains₁.trans hgains₂⟩
    unfold Gguf.performAll
    rw [hperform]
    dsimp only
    rw [hall]

theorem Writes.exec_forM (h : c.Writes d path config o w) {calls : List WriteCall}
    (haligns : ∀ call ∈ calls, call.aligns = false)
    : ∃ r c' o' w' accepted, exec (forM calls WriteCall.call) c = (r, c') ∧
        c'.Writes (c.sync c' d) path config o' w' ∧ w.Gains accepted w' ∧
        (r = .ok () → accepted = calls) := by
  obtain ⟨r, c', o', w', accepted, hexec, hevolves, hall, halign⟩ :=
    h.tracks.exec_forM calls haligns
  exact ⟨r, c', o', w', accepted, hexec, h.of_evolves hevolves halign, hevolves.gains, hall⟩

theorem Tracks.find_discard (h : c.Tracks o w) (hd : c.Flushed o d)
    : (c.discard d).find c.path = .error .notFound := by
  have hcreated : c.isCreated = true := by
    unfold isCreated
    rw [h.medium]
  unfold discard
  rw [if_pos hcreated]
  exact Disk.find_remove hd

theorem Writes.find_discard (h : c.Writes d path config o w)
    : (c.discard d).find path = .error .notFound := by
  have hfind := h.tracks.find_discard h.flushed
  rw [h.path] at hfind
  exact hfind

theorem exists_writes_of_create (h : create d path config = .ok (c, d'))
    : config.validate = .ok () ∧ (∃ id, d.create path = .ok (d', id)) ∧ c.current = .metadata ∧
        ∃ o, c.Writes d' path config o {} := by
  unfold create at h
  rw [bind_eq_ok_iff] at h
  obtain ⟨_, hvalid, h⟩ := h
  refine ⟨hvalid, ?_⟩
  split at h
  . simp at h
  . next made id hd =>
    simp only [Except.ok.injEq, Prod.mk.injEq] at h
    obtain ⟨rfl, rfl⟩ := h
    refine ⟨⟨id, hd⟩, rfl, Output.push ⟨id, [], 0⟩ (encodeHeader config.version 0 0), ?_, ?_, ?_,
      rfl, rfl, rfl⟩
    . constructor
      . rfl
      . exact (Output.extends_push _ (Nat.zero_le 0)).bounded
      . simp [Written.image, Written.index]
      . simp [Output.image_push]
      . rfl
      . rfl
      . rfl
      . rfl
      . constructor <;> simp [InOrder]
      . rfl
      . simp
      . simp
      . simp
    . have hlen := length_encodeHeader config.version 0 0
      have hnone : (Output.push ⟨id, [], 0⟩ (encodeHeader config.version 0 0)).flushed = 0 := by
        simp [Output.push, hlen, headerLength, Output.capacity]
      unfold Flushed
      rw [hnone, List.take_zero]
      exact Disk.find_create hd
    . intro t ht
      simp at ht

theorem overwrite_image (w : Written) (version tensors records : Nat)
    : 8 ≤ (w.image (encodeHeader version 0 0)).length ∧
        Disk.overwrite (w.image (encodeHeader version 0 0)) 8
            (LittleEndian.encode 8 tensors ++ LittleEndian.encode 8 records)
          = w.image (encodeHeader version tensors records) := by
  have hheaders : (encodeHeader version 0 0).length
      = (encodeHeader version tensors records).length := by
    rw [length_encodeHeader, length_encodeHeader]
  obtain ⟨rest, himage, himage'⟩ := w.exists_image_append hheaders
  have hfront : (magic ++ LittleEndian.encode 4 version).length = 8 := by
    simp [magic]
  have hwidth : (LittleEndian.encode 8 tensors ++ LittleEndian.encode 8 records).length
      = (LittleEndian.encode 8 0 ++ LittleEndian.encode 8 0).length := by
    simp
  have hcounts := Disk.overwrite_append (magic ++ LittleEndian.encode 4 version) hwidth rest
  rw [himage, himage', encodeHeader, encodeHeader]
  simp only [List.append_assoc] at hcounts hfront ⊢
  rw [hfront] at hcounts
  refine ⟨?_, hcounts⟩
  rw [← List.append_assoc, List.length_append, hfront]
  exact Nat.le_add_right _ _

theorem Tracks.close_eq_ok_iff (h : c.Tracks o w)
    : (c.close d).1 = .ok () ↔ w.payloads.length = w.descriptors.length := by
  have hcounts : c.payloadsDone = c.extents.length ↔ w.payloads.length = w.descriptors.length := by
    rw [h.payloadsDone, h.extents, List.length_map]
  unfold close
  rw [h.medium, ← hcounts]
  dsimp only
  split
  . next hne => simp [hne]
  . next heq => simpa using heq

/--
Closing a container that lacks payloads is no better than forgetting it.
-/
theorem Tracks.close_snd_eq_discard (h : c.Tracks o w) (hclose : (c.close d).1 ≠ .ok ())
    : (c.close d).2 = c.discard d := by
  unfold close at hclose ⊢
  rw [h.medium] at hclose ⊢
  dsimp only at hclose ⊢
  split
  . rfl
  . next hall =>
    rw [if_neg hall] at hclose
    exact absurd rfl hclose

theorem Tracks.find_close (h : c.Tracks o w) (hd : c.Flushed o d)
    (hclose : c.close d = (.ok (), d'))
    : w.payloads.length = w.descriptors.length ∧
        d'.find c.path = .ok (.file o.file
          (w.image (encodeHeader c.version w.descriptors.length w.records.length))) := by
  unfold close at hclose
  rw [h.medium] at hclose
  dsimp only at hclose
  split at hclose
  . simp at hclose
  . next hall =>
    simp only [Prod.mk.injEq, true_and] at hclose
    rw [h.payloadsDone, h.extents, List.length_map, Decidable.not_not] at hall
    refine ⟨hall, ?_⟩
    -- first the rest of the image leaves the buffer
    have hrest := Disk.find_append (o.image.drop o.flushed) hd
    rw [length_take_flushed h.bounded, List.take_append_drop, h.image] at hrest
    -- then the header gets its counts
    obtain ⟨hlarge, hcounts⟩ := overwrite_image w c.version c.tensorsDone c.recordsDone
    have hfinal := Disk.find_writeAt
      (LittleEndian.encode 8 c.tensorsDone ++ LittleEndian.encode 8 c.recordsDone) hrest hlarge
    rw [hcounts, h.tensorsDone, h.recordsDone, ← h.image] at hfinal
    rw [← hclose, h.tensorsDone, h.recordsDone]
    exact hfinal

/--
Each payload stands where the descriptor of its number says, unless the start of the data leaves the
machine word.
-/
theorem Tracks.exists_stands_payload (h : c.Tracks o w) (hpower : isPowerOfTwo c.alignment = true)
    (hfits : headerLength + w.index.length + c.alignment ≤ wordBound) {i : Nat}
    {p : Nat × List UInt8} (hp : w.payloads[i]? = some p) {header : List UInt8}
    (hheader : header.length = headerLength)
    : ∃ t start, w.descriptors[i]? = some t ∧ w.start? = some start ∧ p.2.length = t.size ∧
        Stands (w.image header) (start + t.offset) p.2 := by
  obtain ⟨t, ht, hextent⟩ := h.sound.exists_extent_eq hp
  rw [Descriptor.extent, Prod.mk.injEq] at hextent
  have hroom : ∀ s, w.start? = some s → headerLength + w.index.length ≤ s := by
    intro s hs
    rw [h.start s hs]
    exact le_alignUp hpower hfits
  obtain ⟨start, hstart, hstands⟩ :=
    h.sound.stands_payload hroom (List.mem_of_getElem? hp) hheader
  rw [← hextent.1] at hstands
  exact ⟨t, start, ht, hstart, hextent.2.symm, hstands⟩

end Container

end TensorFiles.Gguf
