import TensorFiles.Proofs.Gguf.Container.Alignment
import TensorFiles.Proofs.Gguf.Container.ReadBack
/-!
This module contains how writing sessions end. A file is left where they have been exactly if the
container has been closed in good order, and then its header counts what has been appended.
-/

namespace TensorFiles.Gguf

namespace WriteCall

/--
Whether a call appends a metadata record.
-/
def isRecord : WriteCall → Bool
  | .record _ _ | .encoded _ => true
  | _ => false

end WriteCall

/--
Every record that has been appended is one that is written.
-/
theorem countP_isRecord {calls : List WriteCall}
    (hencoded : ∀ key value, WriteCall.record key value ∈ calls →
      ∃ r, EncodedRecord.ofValue key value = .ok r)
    : calls.countP WriteCall.isRecord = (calls.filterMap WriteCall.record?).length := by
  rw [List.length_filterMap_eq_countP]
  apply List.countP_congr
  intro call hmem
  cases call with
  | record key value =>
    obtain ⟨r, hr⟩ := hencoded key value hmem
    simp [WriteCall.isRecord, WriteCall.record?, hr, Except.toOption]
  | encoded r => simp [WriteCall.isRecord, WriteCall.record?]
  | descriptor t => simp [WriteCall.isRecord, WriteCall.record?]
  | payload bytes => simp [WriteCall.isRecord, WriteCall.record?]
  | align alignment => simp [WriteCall.isRecord, WriteCall.record?]

/--
A session that is given up leaves no file. One that is closed leaves a file exactly if there is a
payload for every descriptor, and only then does closing succeed.
-/
theorem find_of_ended {d : Disk} {path : String} {config : CodecConfig}
    {created written : Container × Disk} {calls accepted : List WriteCall}
    (hcreate : Container.create d path config = .ok created)
    (hrun : performAll calls created = (accepted, written))
    : (written.1.discard written.2).find path = .error .notFound ∧
        ((∃ node, (written.1.close written.2).2.find path = .ok node) ↔
          (written.1.close written.2).1 = .ok ()) ∧
        ((written.1.close written.2).1 = .ok () ↔
          (accepted.filterMap WriteCall.payload?).length
            = (accepted.filterMap WriteCall.descriptor?).length) ∧
        ((written.1.close written.2).1 = .ok () → ∃ file data,
          (written.1.close written.2).2.find path = .ok (.file file data) ∧
          data.take headerLength
            = encodeHeader config.version (accepted.filterMap WriteCall.descriptor?).length
                (accepted.countP WriteCall.isRecord)) := by
  obtain ⟨c₀, d₀⟩ := created
  obtain ⟨c, d'⟩ := written
  obtain ⟨_, _, _, o₀, hwrites⟩ := Container.exists_writes_of_create hcreate
  obtain ⟨accepted', c', d'', o, w, hrun', hevolves, hflushed, _⟩ :=
    hwrites.tracks.performAll hwrites.flushed calls
  rw [hrun, Prod.mk.injEq, Prod.mk.injEq] at hrun'
  obtain ⟨rfl, rfl, rfl⟩ := hrun'
  obtain ⟨hrecords, hdescriptors, hpayloads, hencoded⟩ := hevolves.gains
  simp only [List.nil_append, List.map_nil] at hrecords hdescriptors hpayloads
  have hpath : c.path = path := hevolves.path.trans hwrites.path
  have hversion : c.version = config.version := hevolves.version.trans hwrites.version
  have hdiscard := hevolves.tracks.find_discard hflushed
  rw [hpath] at hdiscard
  have hclosed (hok : (c.close d').1 = .ok ()) : ∃ file data,
      (c.close d').2.find path = .ok (.file file data) ∧
      data.take headerLength
        = encodeHeader config.version (accepted.filterMap WriteCall.descriptor?).length
            (accepted.countP WriteCall.isRecord) := by
    obtain ⟨_, hfind⟩ := hevolves.tracks.find_close hflushed (Prod.ext hok rfl)
    rw [hpath, hversion, hdescriptors, hrecords, ← countP_isRecord hencoded] at hfind
    refine ⟨_, _, hfind, ?_⟩
    obtain ⟨more, himage⟩ := w.exists_image_eq (encodeHeader config.version
      (accepted.filterMap WriteCall.descriptor?).length (accepted.countP WriteCall.isRecord))
    rw [himage, List.append_assoc]
    exact List.take_left' (length_encodeHeader _ _ _)
  refine ⟨hdiscard, ⟨?_, ?_⟩, ?_, hclosed⟩
  . rintro ⟨node, hnode⟩
    by_contra hfailed
    rw [hevolves.tracks.close_snd_eq_discard hfailed, hdiscard] at hnode
    simp at hnode
  . intro hok
    obtain ⟨file, data, hfind, _⟩ := hclosed hok
    exact ⟨_, hfind⟩
  . rw [hevolves.tracks.close_eq_ok_iff, hdescriptors, ← hpayloads, List.length_map]

/--
Before the last call of the session its payload is missing, after it the file is complete.
-/
theorem find_of_ended_refusedCalls
    : Container.create .empty "a" {} = .ok newContainer ∧
        (∃ missing, performAll refusedCalls.dropLast newContainer
            = ([.record "k" (.string "v"), .descriptor ⟨"t", [2], .i8, 0⟩], missing) ∧
          (missing.1.close missing.2).1 ≠ .ok () ∧
          ¬ ∃ node, (missing.1.close missing.2).2.find "a" = .ok node) ∧
        ∃ complete, performAll refusedCalls newContainer
            = ([.record "k" (.string "v"), .descriptor ⟨"t", [2], .i8, 0⟩, .payload [5, 6]],
              complete) ∧
          (complete.1.discard complete.2).find "a" = .error .notFound ∧
          ∃ file data, (complete.1.close complete.2).2.find "a" = .ok (.file file data) ∧
            data.take headerLength = encodeHeader 3 1 1 := by
  have hcreate : Container.create .empty "a" {} = .ok newContainer := rfl
  have hmissing : performAll refusedCalls.dropLast newContainer
      = ([.record "k" (.string "v"), .descriptor ⟨"t", [2], .i8, 0⟩],
        (performAll refusedCalls.dropLast newContainer).2) := by
    apply Prod.fst_eq_iff.1
    cbv
  have hrun : performAll refusedCalls newContainer
      = ([.record "k" (.string "v"), .descriptor ⟨"t", [2], .i8, 0⟩, .payload [5, 6]],
        (performAll refusedCalls newContainer).2) := by
    apply Prod.fst_eq_iff.1
    cbv
  obtain ⟨_, hleft, hclosed, _⟩ := find_of_ended hcreate hmissing
  obtain ⟨hgone, _, hclosed', hcounts⟩ := find_of_ended hcreate hrun
  have hfailed := hclosed.not.2 (by decide)
  exact ⟨hcreate, ⟨_, hmissing, hfailed, hleft.not.2 hfailed⟩, _, hrun, hgone,
    hcounts (hclosed'.2 rfl)⟩

end TensorFiles.Gguf
