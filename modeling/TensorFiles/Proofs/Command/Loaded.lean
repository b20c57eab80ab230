import TensorFiles.Command.Conversion
import TensorFiles.Proofs.FileFormat
import TensorFiles.Proofs.Gguf.Shapes
import TensorFiles.Proofs.Npy.Shapes
import TensorFiles.Proofs.SafeTensors.Shapes
/-!
This module contains the loading of files whose formats are known by their paths, and the shapes of
the tensors that come out of them.
-/

namespace TensorFiles

theorem Failure.lift_eq_ok_iff {α : Type} {r : Except Error α} {a : α}
    : lift r = .ok a ↔ r = .ok a :=
  mapError_eq_ok_iff

theorem Failure.during_eq_ok_iff {α : Type} (context : String) {r : Except Failure α} {a : α}
    : during context r = .ok a ↔ r = .ok a :=
  mapError_eq_ok_iff

namespace Command

variable {d : Disk} {path : String} {s : Settings} {content : Gguf.Content}

theorem formatOf_eq_ok_iff {format : FileFormat}
    : formatOf path = .ok format ↔ FileFormat.ofPath? path = some format := by
  unfold formatOf
  cases FileFormat.ofPath? path with
  | none => simp
  | some f => simp

theorem normalize_of_formatOf {format : FileFormat} (h : formatOf path = .ok format)
    : format.normalize path = path :=
  FileFormat.normalize_eq_self_iff.2 (formatOf_eq_ok_iff.1 h)

/--
What is loaded from a file of some format.
-/
def Loads (format : FileFormat) (d : Disk) (path : String) (s : Settings)
    (content : Gguf.Content) : Prop :=
  match format with
  | .npy => ∃ t, Npy.load d path = .ok t ∧
      ⟨Table.empty.insert (tensorName path) t, .empty⟩ = content
  | .safeTensors => ∃ archive, SafeTensors.load d path = .ok archive ∧
      ⟨archive.tensors, archive.metadata.map (fun _ text => .string text)⟩ = content
  | .gguf => Gguf.load d path s.codec = .ok content

theorem loadAny_eq_ok_iff
    : loadAny d path s = .ok content ↔ ∃ format, formatOf path = .ok format ∧
        Loads format d path s content := by
  unfold loadAny
  rw [bind_eq_ok_iff]
  apply exists_congr
  intro format
  apply and_congr_right
  intro _
  cases format with
  | npy =>
    simp only [Loads, bind_eq_ok_iff, pure_eq_ok_iff, Failure.lift_eq_ok_iff]
  | safeTensors =>
    simp only [Loads, bind_eq_ok_iff, pure_eq_ok_iff, Failure.lift_eq_ok_iff]
  | gguf => exact Failure.lift_eq_ok_iff

theorem entries_singleton (name : String) (t : Tensor)
    : (Table.empty.insert name t).entries = [(name, t)] := rfl

/--
The products of the shapes that are loaded fit a machine word.
-/
theorem fits_of_loadAny (h : loadAny d path s = .ok content)
    : ∀ e ∈ content.tensors.entries, Shape.Fits e.2.shape := by
  obtain ⟨format, _, hloads⟩ := loadAny_eq_ok_iff.1 h
  cases format with
  | npy =>
    obtain ⟨t, hload, rfl⟩ := hloads
    rw [entries_singleton, List.forall_mem_singleton]
    obtain ⟨_, _, _, hdecode⟩ := Npy.load_eq_ok_iff.1 hload
    exact Npy.fits_of_decode hdecode
  | safeTensors =>
    obtain ⟨archive, hload, rfl⟩ := hloads
    obtain ⟨_, _, _, hdecode⟩ := SafeTensors.load_eq_ok_iff.1 hload
    exact fun e he => (SafeTensors.fits_of_decode hdecode e he).2
  | gguf => exact fun e he => (Gguf.fits_of_load hloads e he).2

/--
Only an `.npy` stream has room for shapes of more dimensions than its own kind can be written with.
-/
theorem rank_of_loadAny (h : loadAny d path s = .ok content) (hformat : formatOf path ≠ .ok .npy)
    : ∀ e ∈ content.tensors.entries, e.2.rank ≤ SafeTensors.maxHeaderLength := by
  obtain ⟨format, hf, hloads⟩ := loadAny_eq_ok_iff.1 h
  cases format with
  | npy => exact absurd hf hformat
  | safeTensors =>
    obtain ⟨archive, hload, rfl⟩ := hloads
    obtain ⟨_, _, _, hdecode⟩ := SafeTensors.load_eq_ok_iff.1 hload
    exact fun e he => (SafeTensors.fits_of_decode hdecode e he).1
  | gguf =>
    intro e he
    exact Nat.le_trans (Gguf.fits_of_load hloads e he).1 (by decide)

end Command

end TensorFiles
