import TensorFiles.Proofs.Gguf.Canonical
import TensorFiles.Proofs.Gguf.Container.Steady
/-!
This module contains where the parts of a container begin. The offsets that are planned, and the start
of the data in a container that is written or read, are what comes before them, rounded up.
-/

namespace TensorFiles.Gguf

namespace Container

/--
What holds of a container that reads `data`: the data section, once it is located, starts behind the
place that reading has come to.
-/
structure Locates (data : List UInt8) (c : Container) : Prop extends SteadyOpened data c where
  start_eq : ∀ start, c.dataStart? = some start → start = alignUp c.offset c.alignment

variable {c c' : Container} {data : List UInt8}

theorem current_ne_data_of_leftRecords (h : c.leftRecords.current = .descriptors)
    : c.current ≠ .data := by
  intro hs
  unfold leftRecords at h
  rw [if_neg (by simp [hs]), hs] at h
  simp at h

/--
The data section is located by the answer that there is no further descriptor. All other answers are
given before that.
-/
theorem Answered.dataStart?_cases {call : ReadCall} {answer : Answer}
    (h : Answered data c call answer c')
    : (c.current ≠ .data ∧ c'.dataStart? = c.dataStart?) ∨
        c'.dataStart? = some (alignUp c'.offset c'.alignment) := by
  cases h with
  | lastKey hcurrent _ _ => exact .inl ⟨by simp [hcurrent], rfl⟩
  | key hcurrent _ _ _ => exact .inl ⟨by simp [hcurrent], rfl⟩
  | value hcurrent _ _ => exact .inl ⟨by simp [hcurrent], rfl⟩
  | lastDescriptor _ _ => exact .inr rfl
  | descriptor hcurrent _ _ => exact .inl ⟨current_ne_data_of_leftRecords hcurrent, rfl⟩
  | aligned _ hcurrent => exact .inl ⟨hcurrent, rfl⟩

theorem Locates.of_answered (h : c.Locates data) {call : ReadCall} {answer : Answer}
    (hanswered : Answered data c call answer c') : c'.Locates data := by
  refine ⟨(h.toSteadyOpened.of_answered hanswered).1, fun start hstart => ?_⟩
  rcases hanswered.dataStart?_cases with ⟨hs, hkept⟩ | hlocated
  . rw [hkept, h.dataStart?_eq_none hs] at hstart
    simp at hstart
  . rw [hlocated, Option.some.injEq] at hstart
    exact hstart.symm

theorem Locates.leftRecords (h : c.Locates data) : c.leftRecords.Locates data := by
  refine ⟨h.toSteadyOpened.leftRecords.1, ?_⟩
  rw [c.leftRecords_eq]
  exact h.start_eq

theorem Locates.foldl_after (h : c.Locates data) (calls : List OpenedCall)
    : (calls.foldl OpenedCall.after c).Locates data :=
  foldl_after_induction (fun _ hc => ⟨hc.content, hc.room⟩) (fun _ _ _ _ hc => hc.of_answered)
    (fun _ hc => hc.leftRecords) h calls

end Container

section

variable {d : Disk} {path : String} {config : CodecConfig} {start : Nat}

end

end TensorFiles.Gguf
