import TensorFiles.Gguf.Container.Reading
import TensorFiles.Proofs.Gguf.Container.Index
import TensorFiles.Proofs.Gguf.Delimited
/-!
This module contains all that a single call can do to a container that is read: when it succeeds,
with which answer, and what it leaves behind if it fails.
-/

namespace TensorFiles.Gguf.Container

variable {α β : Type} {c c' : Container} {data : List UInt8}

/--
The container once its metadata is known to have ended.
-/
def leftRecords (c : Container) : Container :=
  if c.current = .metadata ∧ c.recordsDone = c.recordCount ∧ !c.awaitsValue then
    { c with current := .descriptors }
  else
    c

theorem leftRecords_eq (c : Container)
    : c.leftRecords = { c with current := c.leftRecords.current } := by
  unfold leftRecords
  split
  . rfl
  . rfl

theorem exec_advance_eq_ok_iff {least : Nat} {read : Read α} {a : α}
    (hread : Delimited least read) (hdata : c.data = .ok data) (hroom : c.offset ≤ data.length)
    : exec (advance read) c = (.ok a, c') ↔ ∃ stop,
        exec read ⟨data, c.offset, c.maxStringLen⟩ = (.ok a, ⟨data, stop, c.maxStringLen⟩) ∧
        c' = { c with offset := stop } := by
  constructor
  . intro h
    obtain ⟨cursor, hcursor, rfl⟩ := exec_advance_eq_ok hdata h
    obtain ⟨bytes, _, _, rfl, _⟩ := hread _ cursor a hroom hcursor
    exact ⟨_, hcursor, rfl⟩
  . rintro ⟨stop, hcursor, rfl⟩
    unfold exec at hcursor
    unfold advance
    rw [exec_bind_of_ok (exec_get c), hdata, exec_bind_of_ok (exec_lift _ c)]
    simp only [hcursor]
    rw [exec_bind_of_ok (exec_modify _ c), exec_pure]

theorem exec_advance_eq_error {read : Read α} {e : Error}
    (h : exec (advance read) c = (.error e, c')) : c' = c := by
  unfold advance at h
  rw [exec_bind_of_ok (exec_get c)] at h
  cases hdata : c.data with
  | error e =>
    rw [hdata, exec_bind_of_error (exec_lift _ c), Prod.mk.injEq] at h
    exact h.2.symm
  | ok data =>
    rw [hdata, exec_bind_of_ok (exec_lift _ c)] at h
    split at h
    . rw [exec_bind_of_ok (exec_modify _ c), exec_pure] at h
      simp at h
    . rw [exec_throw, Prod.mk.injEq] at h
      exact h.2.symm

/--
Read on and change the container. All calls on the index end like this.
-/
theorem exec_advance_modify_eq_ok_iff {least : Nat} {read : Read α} {f : Container → Container}
    {g : α → β} {b : β} (hread : Delimited least read) (hdata : c.data = .ok data)
    (hroom : c.offset ≤ data.length)
    : exec (do let a ← advance read; modify f; return g a) c = (.ok b, c') ↔ ∃ a stop,
        exec read ⟨data, c.offset, c.maxStringLen⟩ = (.ok a, ⟨data, stop, c.maxStringLen⟩) ∧
        b = g a ∧ c' = f { c with offset := stop } := by
  constructor
  . intro h
    obtain ⟨a, _, hadvance, h⟩ := exec_bind_eq_ok h
    obtain ⟨stop, hbytes, rfl⟩ := (exec_advance_eq_ok_iff hread hdata hroom).1 hadvance
    rw [exec_bind_of_ok (exec_modify _ _), exec_pure_eq_ok_iff] at h
    exact ⟨a, stop, hbytes, h.1.symm, h.2.symm⟩
  . rintro ⟨a, stop, hbytes, rfl, rfl⟩
    have hadvance := (exec_advance_eq_ok_iff hread hdata hroom).2 ⟨stop, hbytes, rfl⟩
    rw [exec_bind_of_ok hadvance, exec_bind_of_ok (exec_modify _ _), exec_pure]

theorem exec_advance_modify_eq_error {read : Read α} {f : Container → Container} {g : α → β}
    {e : Error} (h : exec (do let a ← advance read; modify f; return g a) c = (.error e, c'))
    : c' = c := by
  rw [exec_bind_eq_error_iff] at h
  rcases h with hread | ⟨a, _, _, h⟩
  . exact exec_advance_eq_error hread
  . rw [exec_bind_of_ok (exec_modify _ _), exec_pure] at h
    simp at h

section

variable {operation : String} {expected : Section} {rest : Unit → Call α}

theorem exec_expect_eq_ok_iff {a : α}
    : exec (liftM (c.expectSection operation expected) >>= rest) c = (.ok a, c') ↔
      c.current = expected ∧ exec (rest ()) c = (.ok a, c') := by
  unfold expectSection
  split
  . next hcurrent => simp [exec_bind_of_ok (exec_lift _ c), hcurrent]
  . next hcurrent => simp [exec_bind_of_error (exec_lift _ c), hcurrent]

theorem exec_expect_eq_error {e : Error}
    (h : exec (liftM (c.expectSection operation expected) >>= rest) c = (.error e, c'))
    : c' = c ∨ exec (rest ()) c = (.error e, c') := by
  rw [exec_bind_eq_error_iff] at h
  rcases h with hsection | ⟨_, _, hsection, h⟩
  . rw [exec_lift_eq_iff] at hsection
    exact .inl hsection.2.symm
  . rw [exec_lift_eq_iff] at hsection
    rw [hsection.2]
    exact .inr h

end

section

variable (hdata : c.data = .ok data) (hroom : c.offset ≤ data.length)
include hdata hroom

theorem exec_nextKey_eq_ok_iff {key? : Option String}
    : exec nextKey c = (.ok key?, c') ↔ c.current = .metadata ∧ c.awaitsValue = false ∧
        ((c.recordsDone = c.recordCount ∧ key? = none ∧ c' = { c with current := .descriptors }) ∨
          (c.recordsDone ≠ c.recordCount ∧ ∃ key stop,
            exec Read.string ⟨data, c.offset, c.maxStringLen⟩
              = (.ok key, ⟨data, stop, c.maxStringLen⟩) ∧
            key? = some key ∧ c' = { c with offset := stop, awaitsValue := true })) := by
  unfold nextKey
  rw [exec_bind_of_ok (exec_get c), exec_expect_eq_ok_iff]
  dsimp only
  rw [exec_guard_eq_ok_iff, Bool.not_eq_true]
  refine and_congr_right fun _ => and_congr_right fun _ => ?_
  split
  . next hlast =>
    rw [exec_bind_of_ok (exec_modify _ c), exec_pure]
    simp [hlast, eq_comm]
  . next hmore =>
    rw [exec_advance_modify_eq_ok_iff delimited_string hdata hroom]
    simp [hmore]

theorem exec_readValue_eq_ok_iff {value : MetaValue}
    : exec readValue c = (.ok value, c') ↔ c.current = .metadata ∧ c.awaitsValue = true ∧ ∃ stop,
        exec (Read.u32 >>= Read.value) ⟨data, c.offset, c.maxStringLen⟩
          = (.ok value, ⟨data, stop, c.maxStringLen⟩) ∧
        c' = { c with offset := stop, awaitsValue := false, recordsDone := c.recordsDone + 1 } := by
  unfold readValue
  rw [exec_bind_of_ok (exec_get c), exec_expect_eq_ok_iff]
  dsimp only
  rw [exec_guard_eq_ok_iff, exec_advance_modify_eq_ok_iff delimited_typedValue hdata hroom]
  simp

theorem exec_nextDescriptor_eq_ok_iff {d? : Option Descriptor}
    : exec nextDescriptor c = (.ok d?, c') ↔ c.leftRecords.current = .descriptors ∧
        ((c.tensorsDone = c.tensorCount ∧ d? = none ∧ c' = { c with
            current := .data
            dataStart? := some (alignUp c.offset c.alignment) }) ∨
          (c.tensorsDone ≠ c.tensorCount ∧ ∃ d stop,
            exec Read.descriptor ⟨data, c.offset, c.maxStringLen⟩
              = (.ok d, ⟨data, stop, c.maxStringLen⟩) ∧
            d? = some d ∧ c' = { c with
              current := .descriptors
              offset := stop
              tensorsDone := c.tensorsDone + 1 })) := by
  have hleft := c.leftRecords_eq
  unfold nextDescriptor
  rw [exec_bind_of_ok (exec_modify _ c)]
  change exec _ c.leftRecords = _ ↔ _
  rw [exec_bind_of_ok (exec_get _), exec_expect_eq_ok_iff]
  refine and_congr_right fun hcurrent => ?_
  rw [hcurrent] at hleft
  rw [hleft]
  dsimp only
  split
  . next hlast =>
    rw [exec_bind_of_ok (exec_modify _ _), exec_pure]
    simp [hlast, eq_comm]
  . next hmore =>
    rw [exec_advance_modify_eq_ok_iff (c := { c with current := .descriptors })
      delimited_descriptor hdata hroom]
    simp [hmore]

end

section

variable {e : Error}

theorem exec_nextKey_eq_error (h : exec nextKey c = (.error e, c')) : c' = c := by
  unfold nextKey at h
  rw [exec_bind_of_ok (exec_get c)] at h
  rcases exec_expect_eq_error h with hkept | h
  . exact hkept
  dsimp only at h
  rcases exec_guard_eq_error h with hkept | h
  . exact hkept
  split at h
  . rw [exec_bind_of_ok (exec_modify _ c), exec_pure] at h
    simp at h
  . exact exec_advance_modify_eq_error h

theorem exec_readValue_eq_error (h : exec readValue c = (.error e, c')) : c' = c := by
  unfold readValue at h
  rw [exec_bind_of_ok (exec_get c)] at h
  rcases exec_expect_eq_error h with hkept | h
  . exact hkept
  dsimp only at h
  rcases exec_guard_eq_error h with hkept | h
  . exact hkept
  exact exec_advance_modify_eq_error h

theorem exec_nextDescriptor_eq_error (h : exec nextDescriptor c = (.error e, c'))
    : c' = c.leftRecords := by
  unfold nextDescriptor at h
  rw [exec_bind_of_ok (exec_modify _ c)] at h
  change exec _ c.leftRecords = _ at h
  rw [exec_bind_of_ok (exec_get _)] at h
  rcases exec_expect_eq_error h with hkept | h
  . exact hkept
  split at h
  . rw [exec_bind_of_ok (exec_modify _ _), exec_pure] at h
    simp at h
  . exact exec_advance_modify_eq_error h

theorem exec_setAlignment_eq_error {alignment : Nat}
    (h : exec (setAlignment alignment) c = (.error e, c')) : c' = c := by
  unfold setAlignment at h
  rcases exec_guard_eq_error h with hkept | h
  . exact hkept
  rw [exec_bind_of_ok (exec_get c)] at h
  rcases exec_guard_eq_error h with hkept | h
  . exact hkept
  rw [exec_modify] at h
  simp at h

end

theorem exec_setAlignment_eq_ok_iff {alignment : Nat}
    : exec (setAlignment alignment) c = (.ok (), c') ↔
      isPowerOfTwo alignment = true ∧ c.current ≠ .data ∧ c' = { c with alignment } := by
  unfold setAlignment
  dsimp only
  rw [exec_guard_eq_ok_iff, exec_bind_of_ok (exec_get c), exec_guard_eq_ok_iff, exec_modify]
  simp [@eq_comm Container c']

end TensorFiles.Gguf.Container
