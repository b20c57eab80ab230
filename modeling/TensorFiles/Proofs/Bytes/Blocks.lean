import TensorFiles.Bytes.Blocks
/-!
This module contains the lengths of pieces and of what is put together from them.
-/

namespace TensorFiles

theorem length_of_mem_blocks {length count : Nat} {row : List α} (h : count * length ≤ row.length)
    : ∀ b ∈ blocks length count row, b.length = length := by
  induction count generalizing row with
  | zero => simp [blocks]
  | succ count ih =>
    rw [Nat.succ_mul] at h
    unfold blocks
    rw [List.forall_mem_cons]
    constructor
    . rw [List.length_take]
      omega
    . apply ih
      rw [List.length_drop]
      omega

theorem mem_of_mem_blocks {length count : Nat} {row b : List α}
    (h : b ∈ blocks length count row) {a : α} (ha : a ∈ b) : a ∈ row := by
  have hflat : a ∈ (blocks length count row).flatten := List.mem_flatten_of_mem h ha
  rw [flatten_blocks] at hflat
  exact List.mem_of_mem_take hflat

/--
A row that fits exactly is got back from its pieces.
-/
theorem flatten_blocks_of_length_eq {length count : Nat} {row : List α}
    (h : row.length = count * length) : (blocks length count row).flatten = row := by
  rw [flatten_blocks, ← h, List.take_length]

/--
What is put together from pieces of equal length is cut into them again.
-/
theorem blocks_flatten {pieces : List (List α)} {length : Nat}
    (h : ∀ p ∈ pieces, p.length = length)
    : blocks length pieces.length pieces.flatten = pieces := by
  induction pieces with
  | nil => rfl
  | cons p pieces ih =>
    rw [List.forall_mem_cons] at h
    rw [List.length_cons, List.flatten_cons, blocks, List.take_left' h.1, List.drop_left' h.1,
      ih h.2]

theorem length_flatMap_of_forall {f : α → List β} {l : List α} {n : Nat}
    (h : ∀ a ∈ l, (f a).length = n) : (l.flatMap f).length = l.length * n := by
  induction l with
  | nil => simp
  | cons a l ih =>
    rw [List.forall_mem_cons] at h
    rw [List.flatMap_cons, List.length_append, h.1, ih h.2, List.length_cons, Nat.succ_mul,
      Nat.add_comm]

theorem getElem?_blocks {length count k : Nat} (row : List α) (h : k < count)
    : (blocks length count row)[k]? = some ((row.drop (k * length)).take length) := by
  induction k generalizing count row with
  | zero =>
    cases count with
    | zero => omega
    | succ count => simp [blocks]
  | succ k ih =>
    cases count with
    | zero => omega
    | succ count =>
      have hk : k < count := by omega
      rw [blocks, List.getElem?_cons_succ, ih _ hk, List.drop_drop, Nat.succ_mul, Nat.add_comm]

section

variable {f : α → List β} {l : List α} {n k : Nat} {a : α}

theorem drop_flatMap_of_forall (h : ∀ a ∈ l, (f a).length = n) (hk : l[k]? = some a)
    : (l.flatMap f).drop (k * n) = f a ++ (l.drop (k + 1)).flatMap f := by
  induction l generalizing k with
  | nil => simp at hk
  | cons b l ih =>
    rw [List.forall_mem_cons] at h
    cases k with
    | zero =>
      rw [List.getElem?_cons_zero, Option.some.injEq] at hk
      rw [hk, Nat.zero_mul]
      rfl
    | succ k =>
      rw [List.getElem?_cons_succ] at hk
      rw [List.flatMap_cons, Nat.succ_mul, Nat.add_comm, ← List.drop_drop, List.drop_left' h.1,
        ih h.2 hk]
      rfl

/--
What is put together from pieces of equal length is found in the piece it comes from.
-/
theorem getElem?_flatMap_of_forall (h : ∀ a ∈ l, (f a).length = n) (hk : l[k]? = some a) {j : Nat}
    (hj : j < n) : (l.flatMap f)[k * n + j]? = (f a)[j]? := by
  have hlength := h a (List.mem_of_getElem? hk)
  rw [← List.getElem?_drop, drop_flatMap_of_forall h hk, List.getElem?_append_left]
  omega

theorem take_drop_flatMap_of_forall (h : ∀ a ∈ l, (f a).length = n) (hk : l[k]? = some a)
    {j m : Nat} (hj : j + m ≤ n)
    : ((l.flatMap f).drop (k * n + j)).take m = ((f a).drop j).take m := by
  have hlength := h a (List.mem_of_getElem? hk)
  rw [← List.drop_drop, drop_flatMap_of_forall h hk, List.drop_append_of_le_length,
    List.take_append_of_le_length]
  . rw [List.length_drop]
    omega
  . omega

end

end TensorFiles
