import TensorFiles.Bytes.LittleEndian
/-!
This module contains the places of bytes in other bytes.
-/

namespace TensorFiles

/--
The bytes `bytes` stand in `data` at `offset`.
-/
def Stands (data : List UInt8) (offset : Nat) (bytes : List UInt8) : Prop :=
  ∃ front rest, data = front ++ bytes ++ rest ∧ front.length = offset

theorem stands_of_append (front bytes rest : List UInt8)
    : Stands (front ++ bytes ++ rest) front.length bytes :=
  ⟨front, rest, rfl, rfl⟩

section

variable {data : List UInt8} {offset : Nat}

theorem stands_nil (h : offset ≤ data.length) : Stands data offset [] :=
  ⟨data.take offset, data.drop offset, by simp, by simp [h]⟩

theorem stands_take_drop {n : Nat} (h : offset + n ≤ data.length)
    : Stands data offset ((data.drop offset).take n) := by
  refine ⟨data.take offset, data.drop (offset + n), ?_, by simp; omega⟩
  rw [← List.drop_drop, List.append_assoc, List.take_append_drop, List.take_append_drop]

end

namespace Stands

variable {data bytes bytes' : List UInt8} {offset : Nat}

theorem length_le (h : Stands data offset bytes) : offset + bytes.length ≤ data.length := by
  obtain ⟨front, rest, rfl, rfl⟩ := h
  simp only [List.length_append]
  omega

theorem offset_le (h : Stands data offset bytes) : offset ≤ data.length :=
  Nat.le_trans (Nat.le_add_right _ _) h.length_le

theorem take_drop (h : Stands data offset bytes)
    : (data.drop offset).take bytes.length = bytes := by
  obtain ⟨front, rest, rfl, rfl⟩ := h
  simp

theorem append (h : Stands data offset bytes) (more : List UInt8)
    : Stands (data ++ more) offset bytes := by
  obtain ⟨front, rest, rfl, rfl⟩ := h
  exact ⟨front, rest ++ more, by simp, rfl⟩

theorem left (h : Stands data offset (bytes ++ bytes')) : Stands data offset bytes := by
  obtain ⟨front, rest, rfl, rfl⟩ := h
  exact ⟨front, bytes' ++ rest, by simp, rfl⟩

theorem right (h : Stands data offset (bytes ++ bytes'))
    : Stands data (offset + bytes.length) bytes' := by
  obtain ⟨front, rest, rfl, rfl⟩ := h
  exact ⟨front ++ bytes, rest, by simp, by simp⟩

theorem join (h : Stands data offset bytes) (h' : Stands data (offset + bytes.length) bytes')
    : Stands data offset (bytes ++ bytes') := by
  obtain ⟨front, rest, rfl, rfl⟩ := h
  obtain ⟨front', rest', heq, hlength⟩ := h'
  rw [← List.length_append] at hlength
  rw [List.append_assoc front'] at heq
  obtain ⟨_, hrest⟩ := List.append_inj heq hlength.symm
  rw [hrest]
  exact ⟨front, rest', by simp, rfl⟩

/--
What stands somewhere also stands in data that has the same bytes there.
-/
theorem transfer {data' : List UInt8} (h : Stands data offset bytes)
    (hlength : data.length ≤ data'.length)
    (hagree : ∀ i, offset ≤ i → i < offset + bytes.length → data'[i]? = data[i]?)
    : Stands data' offset bytes := by
  have hroom : offset + bytes.length ≤ data'.length := Nat.le_trans h.length_le hlength
  have heq : (data'.drop offset).take bytes.length = (data.drop offset).take bytes.length := by
    apply List.ext_getElem?
    intro i
    rw [List.getElem?_take, List.getElem?_take, List.getElem?_drop, List.getElem?_drop]
    split
    . exact hagree (offset + i) (Nat.le_add_right offset i) (by omega)
    . rfl
  rw [h.take_drop] at heq
  rw [← heq]
  exact stands_take_drop hroom

end Stands

section

variable {f : α → List UInt8} {l : List α}

theorem length_le_flatMap_of_mem {a : α} (h : a ∈ l) : (f a).length ≤ (l.flatMap f).length := by
  obtain ⟨front, rest, rfl⟩ := List.append_of_mem h
  simp only [List.flatMap_append, List.flatMap_cons, List.length_append]
  omega

theorem length_le_flatMap (h : ∀ a ∈ l, 0 < (f a).length) : l.length ≤ (l.flatMap f).length := by
  induction l with
  | nil => simp
  | cons a l ih =>
    rw [List.forall_mem_cons] at h
    have := ih h.2
    rw [List.flatMap_cons, List.length_append, List.length_cons]
    omega

end

end TensorFiles
