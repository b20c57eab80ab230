import TensorFiles.Proofs.Gguf.Container.Session
import TensorFiles.Proofs.Gguf.Container.Steps
/-!
This module contains writing sessions in which the alignment is replaced between the other calls. A
descriptor is aligned for the alignment that is in force when it is accepted.
-/

namespace TensorFiles.Gguf

namespace WriteCall

/--
The alignment in force after a call.
-/
def nextAlignment (alignment : Nat) : WriteCall → Nat
  | .align next => next
  | _ => alignment

/--
What holds of a call that is accepted while `alignment` is in force.
-/
def Respects (alignment : Nat) : WriteCall → Prop
  | .descriptor t => t.offset % alignment = 0
  | .align next => isPowerOfTwo next = true
  | _ => True

end WriteCall

/--
The alignment in force after calls that have been accepted.
-/
def alignmentAfter (alignment : Nat) (calls : List WriteCall) : Nat :=
  calls.foldl WriteCall.nextAlignment alignment

/--
Each call respects the alignment that is in force by then.
-/
def Respect : (alignment : Nat) → List WriteCall → Prop
  | _, [] => True
  | alignment, call :: calls =>
    call.Respects alignment ∧ Respect (call.nextAlignment alignment) calls

variable {alignment : Nat} {calls : List WriteCall}

theorem Respect.respects {front rest : List WriteCall} {call : WriteCall}
    (h : Respect alignment (front ++ call :: rest))
    : call.Respects (alignmentAfter alignment front) := by
  induction front generalizing alignment with
  | nil => exact h.1
  | cons first front ih => exact ih h.2

theorem Respect.left {front rest : List WriteCall} (h : Respect alignment (front ++ rest))
    : Respect alignment front := by
  induction front generalizing alignment with
  | nil => trivial
  | cons first front ih => exact ⟨h.1, ih h.2⟩

/--
All alignments that come into force are powers of two.
-/
theorem Respect.isPowerOfTwo_alignmentAfter (h : Respect alignment calls)
    (hpower : isPowerOfTwo alignment = true)
    : isPowerOfTwo (alignmentAfter alignment calls) = true := by
  induction calls generalizing alignment with
  | nil => exact hpower
  | cons call calls ih =>
    apply ih h.2
    cases call with
    | align next => exact h.1
    | record key value => exact hpower
    | encoded r => exact hpower
    | descriptor t => exact hpower
    | payload bytes => exact hpower

namespace Container

variable {c c' : Container} {o : Output} {w : Written} {d : Disk}

/--
Only a change of the alignment that is accepted changes the alignment.
-/
theorem Tracks.exec_call_eq (h : c.Tracks o w) (call : WriteCall)
    : ∃ r c' o' w', exec call.call c = (r, c') ∧ c.Evolves o w (call.accepted r) c' o' w' ∧
        c'.alignment = alignmentAfter c.alignment (call.accepted r) ∧
        Respect c.alignment (call.accepted r) := by
  obtain ⟨r, c', o', w', hexec, hevolves, hkept⟩ := h.exec_call call
  refine ⟨r, c', o', w', hexec, hevolves, ?_⟩
  cases r with
  | error e =>
    refine ⟨?_, trivial⟩
    cases call with
    | align next =>
      rw [exec_setAlignment_eq_error hexec]
      rfl
    | record key value => exact (hkept rfl).1
    | encoded r => exact (hkept rfl).1
    | descriptor t => exact (hkept rfl).1
    | payload bytes => exact (hkept rfl).1
  | ok u =>
    cases call with
    | align next =>
      obtain ⟨hpower, _, rfl⟩ := exec_setAlignment_eq_ok_iff.1 hexec
      exact ⟨rfl, hpower, trivial⟩
    | descriptor t =>
      refine ⟨(hkept rfl).1, ?_, trivial⟩
      cases h.exec_appendDescriptor t with
      | inl haccepted => exact haccepted.1.aligned
      | inr hrefused =>
        obtain ⟨_, fault, c'', hrefused, _⟩ := hrefused
        have hsame := hrefused.symm.trans hexec
        simp at hsame
    | record key value => exact ⟨(hkept rfl).1, trivial, trivial⟩
    | encoded r => exact ⟨(hkept rfl).1, trivial, trivial⟩
    | payload bytes => exact ⟨(hkept rfl).1, trivial, trivial⟩

theorem Tracks.performAll (h : c.Tracks o w) (hd : c.Flushed o d) (calls : List WriteCall)
    : ∃ accepted c' d' o' w', performAll calls (c, d) = (accepted, (c', d')) ∧
        c.Evolves o w accepted c' o' w' ∧ c'.Flushed o' d' ∧
        c'.alignment = alignmentAfter c.alignment accepted ∧ Respect c.alignment accepted := by
  induction calls generalizing c d o w with
  | nil => exact ⟨[], c, d, o, w, rfl, h.evolves_nil, hd, rfl, trivial⟩
  | cons call calls ih =>
    obtain ⟨r, c₁, o₁, w₁, hexec, hevolves₁, halign₁, hrespect₁⟩ := h.exec_call_eq call
    obtain ⟨accepted, c₂, d₂, o₂, w₂, hall, hevolves₂, hd₂, halign₂, hrespect₂⟩ :=
      ih hevolves₁.tracks (hd.sync_of_evolves h hevolves₁)
    refine ⟨call.accepted r ++ accepted, c₂, d₂, o₂, w₂, ?_, hevolves₁.trans hevolves₂, hd₂, ?_⟩
    . unfold Gguf.performAll WriteCall.perform
      rw [hexec]
      dsimp only
      rw [hall]
    . rw [halign₁] at halign₂ hrespect₂
      cases r with
      | error e => exact ⟨halign₂, hrespect₂⟩
      | ok u => exact ⟨halign₂, hrespect₁.1, hrespect₂⟩

end Container

end TensorFiles.Gguf
