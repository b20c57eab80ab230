/-!
This module contains the cutting of a row into pieces of equal length.
-/

namespace TensorFiles

/--
The first `count` consecutive pieces of `length` elements.
-/
def blocks (length : Nat) : (count : Nat) → (row : List α) → List (List α)
  | 0, _ => []
  | count + 1, row => row.take length :: blocks length count (row.drop length)

@[simp]
theorem length_blocks (length count : Nat) (row : List α)
    : (blocks length count row).length = count := by
  induction count generalizing row with
  | zero => rfl
  | succ count ih => simp [blocks, ih]

theorem flatten_blocks (length count : Nat) (row : List α)
    : (blocks length count row).flatten = row.take (count * length) := by
  induction count generalizing row with
  | zero => simp [blocks]
  | succ count ih =>
    rw [blocks, List.flatten_cons, ih, Nat.add_comm count 1, Nat.add_mul, Nat.one_mul,
      List.take_add]

end TensorFiles
