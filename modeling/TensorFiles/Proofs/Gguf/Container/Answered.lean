import TensorFiles.Proofs.Gguf.Container.Reading
import TensorFiles.Proofs.Gguf.Container.Steps
/-!
This module contains what the calls on the index of a container do, all in one place: what they leave
behind when they are answered, and that they leave next to nothing when they are refused.
-/

namespace TensorFiles.Gguf.Container

/--
The container reads `data` and has not come past its end.
-/
structure Opened (data : List UInt8) (c : Container) : Prop where
  content : c.data = .ok data
  room : c.offset ≤ data.length

/--
What a call on the index that is answered leaves behind.
-/
inductive Answered (data : List UInt8) (c : Container) : ReadCall → Answer → Container → Prop where
  | lastKey (hcurrent : c.current = .metadata) (hawaits : c.awaitsValue = false)
      (hlast : c.recordsDone = c.recordCount)
      : Answered data c .key (.key none) { c with current := .descriptors }
  | key {key : String} {stop : Nat} (hcurrent : c.current = .metadata)
      (hawaits : c.awaitsValue = false) (hmore : c.recordsDone ≠ c.recordCount)
      (hread : exec Read.string ⟨data, c.offset, c.maxStringLen⟩
        = (.ok key, ⟨data, stop, c.maxStringLen⟩))
      : Answered data c .key (.key (some key)) { c with offset := stop, awaitsValue := true }
  | value {value : MetaValue} {stop : Nat} (hcurrent : c.current = .metadata)
      (hawaits : c.awaitsValue = true)
      (hread : exec (Read.u32 >>= Read.value) ⟨data, c.offset, c.maxStringLen⟩
        = (.ok value, ⟨data, stop, c.maxStringLen⟩))
      : Answered data c .value (.value value)
          { c with offset := stop, awaitsValue := false, recordsDone := c.recordsDone + 1 }
  | lastDescriptor (hcurrent : c.leftRecords.current = .descriptors)
      (hlast : c.tensorsDone = c.tensorCount)
      : Answered data c .descriptor (.descriptor none)
          { c with current := .data, dataStart? := some (alignUp c.offset c.alignment) }
  | descriptor {d : Descriptor} {stop : Nat} (hcurrent : c.leftRecords.current = .descriptors)
      (hmore : c.tensorsDone ≠ c.tensorCount)
      (hread : exec Read.descriptor ⟨data, c.offset, c.maxStringLen⟩
        = (.ok d, ⟨data, stop, c.maxStringLen⟩))
      : Answered data c .descriptor (.descriptor (some d))
          { c with current := .descriptors, offset := stop, tensorsDone := c.tensorsDone + 1 }
  | aligned {alignment : Nat} (hpower : isPowerOfTwo alignment = true)
      (hcurrent : c.current ≠ .data)
      : Answered data c (.align alignment) .aligned { c with alignment }

variable {c c' : Container} {data : List UInt8} {call : ReadCall} {answer : Answer} {e : Error}

theorem Opened.exec_call_eq_ok_iff (h : c.Opened data)
    : exec call.call c = (.ok answer, c') ↔ Answered data c call answer c' := by
  constructor
  . intro hexec
    cases call with
    | key =>
      obtain ⟨key?, hkey, rfl⟩ := exec_map_eq_ok_iff.1 hexec
      obtain ⟨hcurrent, hawaits, hnext⟩ := (exec_nextKey_eq_ok_iff h.content h.room).1 hkey
      rcases hnext with ⟨hlast, rfl, rfl⟩ | ⟨hmore, key, stop, hread, rfl, rfl⟩
      . exact .lastKey hcurrent hawaits hlast
      . exact .key hcurrent hawaits hmore hread
    | value =>
      obtain ⟨value, hvalue, rfl⟩ := exec_map_eq_ok_iff.1 hexec
      obtain ⟨hcurrent, hawaits, stop, hread, rfl⟩ :=
        (exec_readValue_eq_ok_iff h.content h.room).1 hvalue
      exact .value hcurrent hawaits hread
    | descriptor =>
      obtain ⟨d?, hdescriptor, rfl⟩ := exec_map_eq_ok_iff.1 hexec
      obtain ⟨hcurrent, hnext⟩ := (exec_nextDescriptor_eq_ok_iff h.content h.room).1 hdescriptor
      rcases hnext with ⟨hlast, rfl, rfl⟩ | ⟨hmore, d, stop, hread, rfl, rfl⟩
      . exact .lastDescriptor hcurrent hlast
      . exact .descriptor hcurrent hmore hread
    | align alignment =>
      obtain ⟨_, halign, rfl⟩ := exec_map_eq_ok_iff.1 hexec
      obtain ⟨hpower, hcurrent, rfl⟩ := exec_setAlignment_eq_ok_iff.1 halign
      exact .aligned hpower hcurrent
  . intro hanswered
    cases hanswered with
    | lastKey hcurrent hawaits hlast =>
      exact exec_map_of_ok ((exec_nextKey_eq_ok_iff h.content h.room).2
        ⟨hcurrent, hawaits, .inl ⟨hlast, rfl, rfl⟩⟩) _
    | key hcurrent hawaits hmore hread =>
      exact exec_map_of_ok ((exec_nextKey_eq_ok_iff h.content h.room).2
        ⟨hcurrent, hawaits, .inr ⟨hmore, _, _, hread, rfl, rfl⟩⟩) _
    | value hcurrent hawaits hread =>
      exact exec_map_of_ok ((exec_readValue_eq_ok_iff h.content h.room).2
        ⟨hcurrent, hawaits, _, hread, rfl⟩) _
    | lastDescriptor hcurrent hlast =>
      exact exec_map_of_ok ((exec_nextDescriptor_eq_ok_iff h.content h.room).2
        ⟨hcurrent, .inl ⟨hlast, rfl, rfl⟩⟩) _
    | descriptor hcurrent hmore hread =>
      exact exec_map_of_ok ((exec_nextDescriptor_eq_ok_iff h.content h.room).2
        ⟨hcurrent, .inr ⟨hmore, _, _, hread, rfl, rfl⟩⟩) _
    | aligned hpower hcurrent =>
      exact exec_map_of_ok (exec_setAlignment_eq_ok_iff.2 ⟨hpower, hcurrent, rfl⟩) _

theorem Opened.of_answered (h : c.Opened data) (hanswered : Answered data c call answer c')
    : c'.Opened data ∧ c.offset ≤ c'.offset := by
  cases hanswered with
  | lastKey => exact ⟨⟨h.content, h.room⟩, Nat.le_refl _⟩
  | key _ _ _ hread =>
    obtain ⟨hle, hroom⟩ := delimited_string.stop_le h.room hread
    exact ⟨⟨h.content, hroom⟩, Nat.le_of_add_right_le hle⟩
  | value _ _ hread =>
    obtain ⟨hle, hroom⟩ := delimited_typedValue.stop_le h.room hread
    exact ⟨⟨h.content, hroom⟩, Nat.le_of_add_right_le hle⟩
  | lastDescriptor => exact ⟨⟨h.content, h.room⟩, Nat.le_refl _⟩
  | descriptor _ _ hread =>
    obtain ⟨hle, hroom⟩ := delimited_descriptor.stop_le h.room hread
    exact ⟨⟨h.content, hroom⟩, Nat.le_of_add_right_le hle⟩
  | aligned => exact ⟨⟨h.content, h.room⟩, Nat.le_refl _⟩

/--
The section of the descriptors is all that a call on the index can change if it fails.
-/
theorem exec_call_eq_error (h : exec call.call c = (.error e, c')) : c' = c ∨ c' = c.leftRecords := by
  cases call with
  | key => exact .inl (exec_nextKey_eq_error (exec_map_eq_error_iff.1 h))
  | value => exact .inl (exec_readValue_eq_error (exec_map_eq_error_iff.1 h))
  | descriptor => exact .inr (exec_nextDescriptor_eq_error (exec_map_eq_error_iff.1 h))
  | align alignment => exact .inl (exec_setAlignment_eq_error (exec_map_eq_error_iff.1 h))

end TensorFiles.Gguf.Container
