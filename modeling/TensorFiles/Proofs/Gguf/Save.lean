import Mathlib.Data.Prod.Basic
import TensorFiles.Proofs.Gguf.Container.AppendAll
/-!
This module contains what saving does to the file at its path when it fails. A plan that is
refused leaves the file alone; but the number of dimensions is no part of the plan, and a tensor
that has too many is refused when the file has been emptied already.
-/

namespace TensorFiles.Gguf

namespace Container

variable {c : Container} {o : Output} {w : Written} {d d' : Disk} {path : String}
  {config : CodecConfig}

theorem Writes.close_fst (h : c.Writes d path config o w)
    (hall : w.payloads.length = w.descriptors.length) : (c.close d).1 = .ok () :=
  h.tracks.close_eq_ok_iff.2 hall

theorem exists_of_create_eq_error {e : Error} (hvalid : config.validate = .ok ())
    (h : create d path config = .error e) : ∃ failure, e = .io path failure := by
  unfold create at h
  rw [hvalid] at h
  simp only [bind, Except.bind] at h
  split at h
  . next failure _ =>
    simp only [Except.error.injEq] at h
    exact ⟨failure, h.symm⟩
  . simp at h

/--
Tensors that are in place make a file exactly if none has too many dimensions. If one has, no file
is left.
-/
theorem writeFile_of_inPlace (hcreate : create d path config = .ok (c, d'))
    (records : List EncodedRecord) {placed : List PlacedTensor}
    (hplace : InPlace config.alignment 0 placed)
    (hsized : ∀ t ∈ placed, t.descriptor.byteSize = .ok t.descriptor.size)
    (hpayloads : placed.map (fun t => t.payload.length) = placed.map (fun t => t.descriptor.size))
    (hnear : Near 0 (placed.map (fun t => (t.descriptor.offset, t.payload))))
    : ((∀ t ∈ placed, t.descriptor.shape.length ≤ maxRank) →
        (writeFile d path config (appendAll records placed)).1 = .ok ()) ∧
      ((∃ t ∈ placed, maxRank < t.descriptor.shape.length) →
        (writeFile d path config (appendAll records placed)).2.find path = .error .notFound) := by
  obtain ⟨r, c', d₁, o', w', accepted, hexec, hwrites', hgains, hall, hfile⟩ :=
    exists_of_writeFile hcreate records placed
  rw [hfile]
  have hdone (hr : r = .ok ()) := Written.Gains.eq_of_planCalls (hall hr ▸ hgains)
  constructor
  . intro hranks
    obtain ⟨_, _, hs, o, hwrites⟩ := exists_writes_of_create hcreate
    rw [← hwrites.alignment] at hplace
    obtain ⟨c'', o'', w'', hexec'', _⟩ :=
      hwrites.tracks.exec_appendAll hs records hplace hsized hpayloads hnear hranks
    rw [hexec, Prod.mk.injEq] at hexec''
    obtain ⟨_, hdescriptors, hpayloads'⟩ := hdone hexec''.1
    rw [hexec''.1]
    apply hwrites'.close_fst
    have hlength := congrArg List.length hpayloads'
    rw [List.length_map, List.length_map] at hlength
    rw [hlength, hdescriptors, List.length_map]
  . rintro ⟨t, ht, hrank⟩
    cases r with
    | ok u =>
      obtain ⟨_, hdescriptors, _⟩ := hdone rfl
      have hsound := hwrites'.tracks.sound.ranks t.descriptor (by
        rw [hdescriptors]
        exact List.mem_map_of_mem ht)
      omega
    | error e => exact hwrites'.find_discard

/--
Where writing fails for another reason than an access to the file system, a tensor has too many
dimensions, and the file that was made in the place of another, or of none, is gone.
-/
theorem find_of_writeFile_eq_error {e : Error} {records : List EncodedRecord}
    {placed : List PlacedTensor} (hvalid : config.validate = .ok ())
    (hplace : InPlace config.alignment 0 placed)
    (hsized : ∀ t ∈ placed, t.descriptor.byteSize = .ok t.descriptor.size)
    (hpayloads : placed.map (fun t => t.payload.length) = placed.map (fun t => t.descriptor.size))
    (hnear : Near 0 (placed.map (fun t => (t.descriptor.offset, t.payload))))
    (h : writeFile d path config (appendAll records placed) = (.error e, d'))
    (hio : ∀ p failure, e ≠ .io p failure)
    : (∃ t ∈ placed, maxRank < t.descriptor.shape.length) ∧ d'.find path = .error .notFound ∧
        (d.isFile path = true ∨ d.find path = .error .notFound) := by
  cases hcreate : create d path config with
  | error e' =>
    exfalso
    obtain ⟨failure, hfailure⟩ := exists_of_create_eq_error hvalid hcreate
    unfold writeFile at h
    rw [hcreate, hfailure, Prod.mk.injEq, Except.error.injEq] at h
    exact hio path failure h.1.symm
  | ok created =>
    obtain ⟨c, d₁⟩ := created
    obtain ⟨hok, hremoved⟩ := writeFile_of_inPlace hcreate records hplace hsized hpayloads hnear
    have hrank : ∃ t ∈ placed, maxRank < t.descriptor.shape.length := by
      by_contra hnone
      have hranks : ∀ t ∈ placed, t.descriptor.shape.length ≤ maxRank := by
        intro t ht
        exact Nat.not_lt.1 (fun hlt => hnone ⟨t, ht, hlt⟩)
      rw [h] at hok
      simpa using hok hranks
    have hgone := hremoved hrank
    rw [h] at hgone
    refine ⟨hrank, hgone, ?_⟩
    obtain ⟨_, ⟨id, hmade⟩, _⟩ := exists_writes_of_create hcreate
    cases Disk.find_of_create hmade with
    | inl hthere =>
      left
      obtain ⟨data, hfind⟩ := hthere
      unfold Disk.isFile
      rw [hfind]
    | inr habsent => exact .inr habsent

end Container

/--
What makes saving remove the file that is at its path: there is one, all that is planned is
accepted, and a tensor has too many dimensions.
-/
structure Clobbers (d : Disk) (path : String) (tensors : Table View) (metadata : Table MetaValue)
    (config : CodecConfig) : Prop where
  present : d.isFile (FileFormat.gguf.normalize path) = true
  planned : ∃ p, plan tensors metadata config = .ok p
  rank : ∃ e ∈ tensors.entries, maxRank < e.2.rank

/--
Saving that fails for another reason than an access to the file system leaves the file at its path
as it is, or absent, with the one exception.
-/
theorem find_of_save_eq_error {d d' : Disk} {path : String} {tensors : Table View}
    {metadata : Table MetaValue} {config : CodecConfig} {e : Error}
    (h : save d path tensors metadata config = (.error e, d'))
    (hio : ∀ p failure, e ≠ .io p failure)
    : (Clobbers d path tensors metadata config →
        d'.find (FileFormat.gguf.normalize path) = .error .notFound) ∧
      (¬ Clobbers d path tensors metadata config →
        d'.find (FileFormat.gguf.normalize path) = d.find (FileFormat.gguf.normalize path)) := by
  rw [save_eq] at h
  cases hplan : plan tensors metadata config with
  | error e' =>
    rw [hplan] at h
    simp only [Prod.mk.injEq] at h
    obtain ⟨_, rfl⟩ := h
    refine ⟨fun hclobbers => ?_, fun _ => rfl⟩
    obtain ⟨p, hp⟩ := hclobbers.planned
    rw [hplan] at hp
    simp at hp
  | ok p =>
    obtain ⟨alignment, records, placed⟩ := p
    rw [hplan] at h
    simp only [Prod.mk.injEq] at h
    obtain ⟨hresult, hdisk⟩ := h
    obtain ⟨hvalid, halign, _, hplaced⟩ := plan_eq_ok_iff.1 hplan
    have hvalid' := validate_of_chooseAlignment hvalid halign
    obtain ⟨hplace, hsized, hpayloads⟩ := inPlace_of_plan hplan
    have hwrite : Container.writeFile d (FileFormat.gguf.normalize path) { config with alignment }
        (Container.appendAll records placed) = (.error e, d') := by
      exact Prod.ext (map_eq_error_iff.1 hresult) hdisk
    obtain ⟨hrank, hgone, hbefore⟩ :=
      Container.find_of_writeFile_eq_error hvalid' hplace hsized hpayloads
        (Container.near_of_placeTensors hplaced) hwrite hio
    refine ⟨fun _ => hgone, fun hspared => ?_⟩
    cases hbefore with
    | inl hthere =>
      exfalso
      apply hspared
      refine ⟨hthere, ⟨_, hplan⟩, ?_⟩
      by_contra hnone
      have hranks : ∀ e ∈ tensors.entries, e.2.rank ≤ maxRank := by
        intro e he
        exact Nat.not_lt.1 (fun hlt => hnone ⟨e, he, hlt⟩)
      obtain ⟨t, ht, hlt⟩ := hrank
      have := forall_of_forall₂_holds (p := fun _ shape => shape.length ≤ maxRank)
        (forall₂_holds hplaced) hranks t ht
      omega
    | inr habsent => rw [hgone, habsent]

/--
A disk with one file.
-/
def keptDisk : Disk := ⟨[(["keep.gguf"], .file 0 [1, 2, 3])], 1⟩

/--
One tensor with nine dimensions.
-/
def rankNine : Table View :=
  .ofList [("t", (Tensor.zeros .i8 [1, 1, 1, 1, 1, 1, 1, 1, 1]).toView)]

theorem find_of_save_rankNine
    : keptDisk.find "keep.gguf" = .ok (.file 0 [1, 2, 3]) ∧
        (save keptDisk "keep.gguf" rankNine .empty {}).1 = .error (.gguf (.rankTooLarge "t" 9)) ∧
        (save keptDisk "keep.gguf" rankNine .empty {}).2.find "keep.gguf" = .error .notFound := by
  have hpath : FileFormat.gguf.normalize "keep.gguf" = "keep.gguf" := by decide +kernel
  have herror : (save keptDisk "keep.gguf" rankNine .empty {}).1
      = .error (.gguf (.rankTooLarge "t" 9)) := by decide +kernel
  have hclobbers : Clobbers keptDisk "keep.gguf" rankNine .empty {} := by
    constructor
    . decide +kernel
    . exact isSome_toOption_iff.1 (by decide +kernel)
    . exact ⟨_, List.mem_cons_self, by decide⟩
  have hfind := (find_of_save_eq_error (Prod.fst_eq_iff.1 herror)
    (by simp [Error.gguf])).1 hclobbers
  rw [hpath] at hfind
  exact ⟨by decide +kernel, herror, hfind⟩

end TensorFiles.Gguf
