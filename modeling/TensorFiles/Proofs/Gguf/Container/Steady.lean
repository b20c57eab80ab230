import TensorFiles.Gguf.Load
import TensorFiles.Proofs.Gguf.Container.Alignment
import TensorFiles.Proofs.Gguf.Container.Answered
import TensorFiles.Proofs.Gguf.Container.ReadBack
import TensorFiles.Proofs.Gguf.Load
/-!
This module contains what holds of a container whenever a call returns, whether or not it has been
accepted: its alignment is a power of two, and the data has been located exactly if the section is
that of the data. From one call to the next neither the section nor the offset goes back.
-/

namespace TensorFiles.Gguf

namespace Container

/--
The container `c'` has come as far as `c` or farther.
-/
structure Ascends (c c' : Container) : Prop where
  current : c.current.rank ≤ c'.current.rank
  offset : c.offset ≤ c'.offset

theorem ascends_refl (c : Container) : c.Ascends c :=
  ⟨Nat.le_refl _, Nat.le_refl _⟩

theorem Ascends.trans {c c' c'' : Container} (h : c.Ascends c') (h' : c'.Ascends c'')
    : c.Ascends c'' :=
  ⟨Nat.le_trans h.current h'.current, Nat.le_trans h.offset h'.offset⟩

/--
What holds of every container.
-/
structure Steady (c : Container) : Prop where
  alignment : isPowerOfTwo c.alignment = true
  located : c.dataStart?.isSome ↔ c.current = .data
  start : ∀ start, c.dataStart? = some start → start % c.alignment = 0

/--
What holds of a container that has opened a file with the content `data`.
-/
structure SteadyOpened (data : List UInt8) (c : Container) : Prop extends Steady c where
  content : c.data = .ok data
  room : c.offset ≤ data.length

/--
The payloads among `calls` stand in `image`, each where the data starts plus what the descriptor
says that belongs to it.
-/
def Placed (calls : List WriteCall) (start? : Option Nat) (image : List UInt8) : Prop :=
  ∀ (i : Nat) (bytes : List UInt8), (calls.filterMap WriteCall.payload?)[i]? = some bytes →
    ∃ (t : Descriptor) (start : Nat), (calls.filterMap WriteCall.descriptor?)[i]? = some t ∧
      start? = some start ∧ bytes.length = t.size ∧ Stands image (start + t.offset) bytes

/--
What holds of a container that has accepted `calls` since it was created. The payloads are in their
places as long as the start of the data has not left the machine word.
-/
structure SteadyCreated (calls : List WriteCall) (c : Container) : Prop extends Steady c where
  written : ∃ o, c.medium = .created o ∧ c.offset = o.image.length ∧
    (c.offset + c.alignment ≤ wordBound → Placed calls c.dataStart? o.image)
  extents : c.extents = (calls.filterMap WriteCall.descriptor?).map Descriptor.extent
  order : InOrder c.extents

section

variable {c c' : Container} {data : List UInt8}

theorem Steady.dataStart?_eq_none (h : c.Steady) (hs : c.current ≠ .data)
    : c.dataStart? = none := by
  rw [← Option.not_isSome_iff_eq_none, h.located]
  exact hs

/--
As long as the data has not been located, the section can be left and the alignment replaced.
-/
theorem Steady.before_data (h : c.Steady) (hs : c.current ≠ .data) (current : Section)
    {alignment : Nat} (hcurrent : current ≠ .data) (hpower : isPowerOfTwo alignment = true)
    : Steady { c with current, alignment } := by
  have hnone := h.dataStart?_eq_none hs
  refine ⟨hpower, ?_, ?_⟩
  . rw [hnone]
    simp [hcurrent]
  . rw [hnone]
    simp

end

end Container

/--
A call on a container that is read: for what is next in the index, or for a payload.
-/
inductive OpenedCall where
  | index (call : ReadCall)
  | payload (t : Descriptor)

namespace OpenedCall

/--
What a call leaves behind.
-/
def after (c : Container) : OpenedCall → Container
  | .index call => (exec call.call c).2
  | .payload t => (exec (do let c ← getThe Container; (c.payload t : Except Error _)) c).2

end OpenedCall

namespace Container

variable {c c' : Container} {data : List UInt8}

theorem SteadyOpened.leave_metadata (h : c.SteadyOpened data) (hs : c.current = .metadata)
    : SteadyOpened data { c with current := .descriptors } ∧
        c.Ascends { c with current := .descriptors } := by
  have hsteady := h.before_data (by simp [hs]) .descriptors (by simp) h.alignment
  refine ⟨⟨hsteady, h.content, h.room⟩, ?_, Nat.le_refl _⟩
  rw [hs]
  exact Nat.zero_le _

theorem SteadyOpened.leftRecords (h : c.SteadyOpened data)
    : c.leftRecords.SteadyOpened data ∧ c.Ascends c.leftRecords := by
  unfold Container.leftRecords
  split
  . next hleft => exact h.leave_metadata hleft.1
  . exact ⟨h, c.ascends_refl⟩

theorem SteadyOpened.of_answered (h : c.SteadyOpened data) {call : ReadCall} {answer : Answer}
    (hanswered : Answered data c call answer c') : c'.SteadyOpened data ∧ c.Ascends c' := by
  have hopened : c.Opened data := ⟨h.content, h.room⟩
  obtain ⟨⟨hcontent, hroom⟩, hoffset⟩ := hopened.of_answered hanswered
  cases hanswered with
  | lastKey hcurrent _ _ => exact h.leave_metadata hcurrent
  | key _ _ _ _ =>
    exact ⟨⟨⟨h.alignment, h.located, h.start⟩, hcontent, hroom⟩, Nat.le_refl _, hoffset⟩
  | value _ _ _ =>
    exact ⟨⟨⟨h.alignment, h.located, h.start⟩, hcontent, hroom⟩, Nat.le_refl _, hoffset⟩
  | lastDescriptor _ _ =>
    refine ⟨⟨⟨h.alignment, by simp, ?_⟩, hcontent, hroom⟩, c.current.rank_le_data, hoffset⟩
    intro start hstart
    rw [Option.some.injEq] at hstart
    rw [← hstart]
    exact alignUp_mod _ h.alignment
  | descriptor hcurrent _ _ =>
    -- the descriptor comes from the container that has left the metadata
    obtain ⟨hsteady, hascends⟩ := h.leftRecords
    rw [c.leftRecords_eq, hcurrent] at hsteady hascends
    exact ⟨⟨⟨h.alignment, hsteady.located, hsteady.start⟩, hcontent, hroom⟩, hascends.current,
      hoffset⟩
  | aligned hpower hcurrent =>
    exact ⟨⟨h.before_data hcurrent _ hcurrent hpower, hcontent, hroom⟩, Nat.le_refl _, hoffset⟩

/--
What answered calls keep, and what is kept where the metadata is left, is kept by all calls.
-/
theorem foldl_after_induction {p : Container → Prop} (hopened : ∀ c, p c → c.Opened data)
    (hanswered : ∀ c c' call answer, p c → Answered data c call answer c' → p c')
    (hleft : ∀ c, p c → p c.leftRecords) (h : p c) (calls : List OpenedCall)
    : p (calls.foldl OpenedCall.after c) := by
  induction calls generalizing c with
  | nil => exact h
  | cons call calls ih =>
    apply ih
    cases call with
    | index call =>
      unfold OpenedCall.after
      dsimp only
      rcases hexec : exec call.call c with ⟨e | answer, c'⟩
      . rcases exec_call_eq_error hexec with rfl | rfl
        . exact h
        . exact hleft c h
      . exact hanswered c c' call answer h ((hopened c h).exec_call_eq_ok_iff.1 hexec)
    | payload t => exact h

theorem SteadyOpened.foldl_after (h : c.SteadyOpened data) (calls : List OpenedCall)
    : (calls.foldl OpenedCall.after c).SteadyOpened data ∧
        c.Ascends (calls.foldl OpenedCall.after c) := by
  have hopened (c' : Container) (hc' : c'.SteadyOpened data ∧ c.Ascends c') : c'.Opened data :=
    ⟨hc'.1.content, hc'.1.room⟩
  apply foldl_after_induction hopened _ _ ⟨h, c.ascends_refl⟩
  . intro c₁ c₂ call answer hc₁ hanswered
    obtain ⟨hsteady, hascends⟩ := hc₁.1.of_answered hanswered
    exact ⟨hsteady, hc₁.2.trans hascends⟩
  . intro c' hc'
    obtain ⟨hsteady, hascends⟩ := hc'.1.leftRecords
    exact ⟨hsteady, hc'.2.trans hascends⟩

theorem steadyOpened_of_openData {path : String} {file : Nat} {config : CodecConfig}
    (h : openData path file data config = .ok c) : c.SteadyOpened data := by
  obtain ⟨version, tensors, records, bytes, hstands, _, rfl⟩ := openData_eq_ok h
  have hroom := hstands.length_le
  rw [Nat.zero_add] at hroom
  have hpower : isPowerOfTwo defaultAlignment = true := by decide
  exact ⟨⟨hpower, by simp, by simp⟩, rfl, hroom⟩

variable {o : Output} {w : Written} {calls : List WriteCall}

theorem Tracks.length_index_le (h : c.Tracks o w)
    : headerLength + w.index.length ≤ c.offset := by
  have hindex := (w.stands_index (encodeHeader c.version 0 0)).length_le
  rw [List.length_append, length_encodeHeader, ← h.image, ← h.offset, Nat.zero_add] at hindex
  exact hindex

theorem Tracks.placed (h : c.Tracks o w) (hgains : ({} : Written).Gains calls w)
    (hpower : isPowerOfTwo c.alignment = true) (hfits : c.offset + c.alignment ≤ wordBound)
    : Placed calls c.dataStart? o.image := by
  intro i bytes hbytes
  have hpayloads := hgains.payloads
  simp only [List.map_nil, List.nil_append] at hpayloads
  rw [← hpayloads, List.getElem?_map, Option.map_eq_some_iff] at hbytes
  obtain ⟨p, hp, rfl⟩ := hbytes
  have hindex := h.length_index_le
  obtain ⟨t, start, ht, hstart, hlength, hstands⟩ := h.exists_stands_payload hpower (by omega) hp
    (length_encodeHeader c.version 0 0)
  rw [hgains.descriptors, List.nil_append] at ht
  rw [← h.image] at hstands
  exact ⟨t, start, ht, h.dataStart.trans hstart, hlength, hstands⟩

theorem Tracks.steadyCreated (h : c.Tracks o w) (hgains : ({} : Written).Gains calls w)
    (hpower : isPowerOfTwo c.alignment = true) : c.SteadyCreated calls where
  alignment := hpower
  located := by
    rw [h.dataStart]
    exact h.data.symm
  start := by
    intro start hstart
    rw [h.dataStart] at hstart
    rw [h.start start hstart]
    exact alignUp_mod _ hpower
  written := ⟨o, h.medium, h.offset, h.placed hgains hpower⟩
  extents := by
    rw [h.extents, hgains.descriptors]
    rfl
  order := by
    rw [h.extents]
    exact h.sound.order

theorem Evolves.ascends {o' : Output} {w' : Written} (h : c.Evolves o w calls c' o' w')
    (htracks : c.Tracks o w) : c.Ascends c' := by
  obtain ⟨bytes, hext⟩ := h.output
  refine ⟨h.current, ?_⟩
  rw [htracks.offset, h.tracks.offset, hext.image, List.length_append]
  exact Nat.le_add_right _ _

end Container

/--
A container that is read keeps steady, and so does one that is written, whatever calls are made and
whether or not they are accepted. Further calls only move it on.
-/
theorem steady_of_calls (d : Disk) (path : String) (config : CodecConfig)
    : (∀ file data c, d.map path = .ok (file, data) → Container.ofFile d path config = .ok c →
        ∀ calls more : List OpenedCall,
          (calls.foldl OpenedCall.after c).SteadyOpened data ∧
          (calls.foldl OpenedCall.after c).Ascends
            (more.foldl OpenedCall.after (calls.foldl OpenedCall.after c))) ∧
      ∀ created, Container.create d path config = .ok created →
        ∀ calls more : List WriteCall,
          (performAll calls created).2.1.SteadyCreated (performAll calls created).1 ∧
          (performAll calls created).2.1.Ascends
            (performAll more (performAll calls created).2).2.1 := by
  constructor
  . intro file data c hmap hopen calls more
    unfold Container.ofFile at hopen
    rw [hmap] at hopen
    obtain ⟨hsteady, _⟩ := (Container.steadyOpened_of_openData hopen).foldl_after calls
    exact ⟨hsteady, (hsteady.foldl_after more).2⟩
  . intro created hcreate calls more
    obtain ⟨c₀, d₀⟩ := created
    obtain ⟨hvalid, _, _, o, hwrites⟩ := Container.exists_writes_of_create hcreate
    have hpower : isPowerOfTwo c₀.alignment = true := by
      rw [hwrites.alignment]
      exact (CodecConfig.validate_eq_ok_iff.1 hvalid).1
    obtain ⟨_, c₁, d₁, o₁, w₁, hrun₁, hevolves₁, hd₁, halign₁, hrespect₁⟩ :=
      hwrites.tracks.performAll hwrites.flushed calls
    obtain ⟨_, c₂, d₂, o₂, w₂, hrun₂, hevolves₂, _⟩ := hevolves₁.tracks.performAll hd₁ more
    rw [hrun₁, hrun₂]
    refine ⟨hevolves₁.tracks.steadyCreated hevolves₁.gains ?_, hevolves₂.ascends hevolves₁.tracks⟩
    rw [halign₁]
    exact hrespect₁.isPowerOfTwo_alignmentAfter hpower

/--
A disk with a container that holds nothing.
-/
def hollowDisk : Disk :=
  ⟨[(["h"], .file 0 (encodeHeader 3 0 0))], 1⟩

theorem steady_of_calls_refusedCalls
    : (∃ c, Container.ofFile hollowDisk "h" {} = .ok c ∧
        ([.payload ⟨"t", [1], .i8, 0⟩, .index (.align 64), .index .descriptor].foldl
          OpenedCall.after c).SteadyOpened (encodeHeader 3 0 0)) ∧
      Container.create .empty "a" {} = .ok newContainer ∧
        (performAll refusedCalls newContainer).2.1.SteadyCreated
          [.record "k" (.string "v"), .descriptor ⟨"t", [2], .i8, 0⟩, .payload [5, 6]] ∧
        (performAll refusedCalls newContainer).2.1.Ascends
          (performAll [.align 64] (performAll refusedCalls newContainer).2).2.1 := by
  have hopen : Container.ofFile hollowDisk "h" {} = .ok {
      medium := .opened 0 (encodeHeader 3 0 0)
      path := "h"
      offset := headerLength
      alignment := defaultAlignment
      version := 3
      maxStringLen := ({} : CodecConfig).maxStringLen } := by
    have hfind : hollowDisk.find "h" = .ok (.file 0 (encodeHeader 3 0 0)) := rfl
    rw [Container.ofFile_eq_of_find hfind]
    exact Container.openData_eq ⟨[], [], rfl, rfl⟩ (by decide) (by decide) (by decide)
  have hcreate : Container.create .empty "a" {} = .ok newContainer := rfl
  have hrun : (performAll refusedCalls newContainer).1
      = [.record "k" (.string "v"), .descriptor ⟨"t", [2], .i8, 0⟩, .payload [5, 6]] := by
    cbv
  have hmap : hollowDisk.map "h" = .ok (0, encodeHeader 3 0 0) := rfl
  obtain ⟨hopened, _⟩ := steady_of_calls hollowDisk "h" {}
  obtain ⟨_, hcreated⟩ := steady_of_calls .empty "a" {}
  have hwritten := hcreated _ hcreate refusedCalls [.align 64]
  rw [hrun] at hwritten
  exact ⟨⟨_, hopen, (hopened 0 _ _ hmap hopen _ []).1⟩, hcreate, hwritten⟩

end TensorFiles.Gguf
