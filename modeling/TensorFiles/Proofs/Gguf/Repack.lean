import TensorFiles.Gguf.Repack
import TensorFiles.Proofs.Bytes.Blocks
import TensorFiles.Proofs.Shape
import TensorFiles.Proofs.Tensor.View
/-!
This module contains when quantized weights can be unpacked: the last dimension has to be a whole
number of blocks, the payload has to be long enough, and the number of bits in a row has to fit a
machine word.
-/

namespace TensorFiles.Gguf

theorem exists_halfAt {block : List UInt8} {offset : Nat} (h : offset + 2 ≤ block.length)
    : ∃ n, halfAt block offset = .ok n := by
  unfold halfAt
  rw [if_pos h]
  exact ⟨_, rfl⟩

theorem exists_nibbleAt {codes : List UInt8} (index : Nat) (h : index < 2 * codes.length)
    : ∃ b, nibbleAt codes index = .ok b := by
  unfold nibbleAt
  split
  . exact ⟨_, rfl⟩
  . exact ⟨_, rfl⟩

theorem numel_dropLast_append (shape : List Nat) (n : Nat)
    : Shape.numel (shape.dropLast ++ [n]) = Shape.numel shape.dropLast * n := by
  rw [Shape.numel_append, Shape.numel_cons, Shape.numel_nil, Nat.mul_one]

theorem numel_of_getLast? {shape : List Nat} {last : Nat} (h : shape.getLast? = some last)
    : Shape.numel shape = Shape.numel shape.dropLast * last := by
  rw [← numel_dropLast_append, List.dropLast_append_getLast? _ h]

theorem numel_mod_of_getLast? {shape : List Nat} {last n : Nat} (h : shape.getLast? = some last)
    (hwhole : last % n = 0) : Shape.numel shape % n = 0 := by
  rw [numel_of_getLast? h, Nat.mul_mod, hwhole, Nat.mul_zero, Nat.zero_mod]

/--
The length from which on eight times as much does not fit a machine word.
-/
def longPayload : Nat := 0x2000000000000000

namespace Scheme

theorem weights_of_mem {s : Scheme} (hs : s ∈ all) : s.weights = 32 := by
  simp only [all, List.mem_cons, List.not_mem_nil, or_false] at hs
  rcases hs with rfl | rfl | rfl <;> rfl

theorem packedLength_of_mem {s : Scheme} (hs : s ∈ all) : s.packedLength = s.bits * 4 := by
  simp only [all, List.mem_cons, List.not_mem_nil, or_false] at hs
  rcases hs with rfl | rfl | rfl <;> rfl

theorem bits_of_mem {s : Scheme} (hs : s ∈ all) : s.bits = 4 ∨ s.bits = 8 := by
  simp only [all, List.mem_cons, List.not_mem_nil, or_false] at hs
  rcases hs with rfl | rfl | rfl
  . exact .inl rfl
  . exact .inl rfl
  . exact .inr rfl

theorem lastDim_eq_ok_iff {s : Scheme} (hs : s ∈ all) {name : String} {shape : List Nat}
    {last : Nat}
    : s.lastDim name shape = .ok last ↔ shape.getLast? = some last ∧ last % 32 = 0 := by
  unfold lastDim
  rw [weights_of_mem hs]
  cases shape.getLast? with
  | none => simp
  | some l =>
    dsimp only
    rw [if_neg (by decide)]
    split
    . next h =>
      simp only [Except.ok.injEq, Option.some.injEq]
      constructor
      . rintro rfl
        exact ⟨rfl, h⟩
      . exact fun h' => h'.1
    . next h =>
      simp only [reduceCtorEq, Option.some.injEq, false_iff, not_and]
      rintro rfl
      exact h

theorem packedDim_eq_ok_iff {s : Scheme} {last n : Nat}
    : s.packedDim last = .ok n ↔ last * s.bits < wordBound ∧ n = last * s.bits / 32 := by
  unfold packedDim
  split
  . next hlt => simp [hlt, eq_comm]
  . next hlt => simp [hlt]

section

variable {s : Scheme} {shape : List Nat} {last : Nat}

/--
The groups of all rows are the blocks.
-/
theorem numel_groups (hs : s ∈ all) (hlast : shape.getLast? = some last) (hwhole : last % 32 = 0)
    : Shape.numel (shape.dropLast ++ [last / s.weights]) = Shape.numel shape / s.weights := by
  obtain ⟨k, rfl⟩ := Nat.dvd_of_mod_eq_zero hwhole
  rw [numel_dropLast_append, numel_of_getLast? hlast, weights_of_mem hs, Nat.mul_left_comm,
    Nat.mul_div_cancel_left k (by decide), Nat.mul_div_cancel_left _ (by decide)]

/--
A block takes as many words as a code has bits.
-/
theorem numel_packed (hs : s ∈ all) (hlast : shape.getLast? = some last) (hwhole : last % 32 = 0)
    : Shape.numel (shape.dropLast ++ [last * s.bits / 32])
        = Shape.numel shape / s.weights * s.bits := by
  rw [← numel_groups hs hlast hwhole]
  simp only [numel_dropLast_append, weights_of_mem hs]
  obtain ⟨k, rfl⟩ := Nat.dvd_of_mod_eq_zero hwhole
  rw [Nat.mul_div_cancel_left k (by decide), Nat.mul_assoc 32, Nat.mul_div_cancel_left _ (by decide),
    Nat.mul_assoc]

theorem packed_le (hs : s ∈ all) (last : Nat) : last * s.bits / 32 ≤ last := by
  have hbits : s.bits ≤ 32 := by
    rcases bits_of_mem hs with h | h <;> rw [h] <;> decide
  exact Nat.div_le_of_le_mul (Nat.mul_comm last s.bits ▸ Nat.mul_le_mul_right last hbits)

/--
The blocks of a shape that machine words can multiply take no more bytes than fit one.
-/
theorem reserve_eq_ok (hs : s ∈ all) (hsmall : Shape.Small shape)
    : Quantized.reserve s (Shape.numel shape / s.weights) = .ok () := by
  have hlt := hsmall.numel_lt
  unfold Quantized.reserve
  rw [packedLength_of_mem hs, weights_of_mem hs]
  apply if_pos
  unfold wordBound at hlt ⊢
  rcases bits_of_mem hs with hbits | hbits
  . rw [hbits]
    omega
  . rw [hbits]
    omega

theorem four_mul_bits_le (hs : s ∈ all) : 2 ≤ s.bytes ∧ s.bits * 4 ≤ s.bytes := by
  simp only [all, List.mem_cons, List.not_mem_nil, or_false] at hs
  rcases hs with rfl | rfl | rfl <;> decide

/--
If there are weights, a row of them has at most eight times as many bits as the blocks have bytes.
-/
theorem rowBits_le (hs : s ∈ all) (hlast : shape.getLast? = some last) (hwhole : last % 32 = 0)
    (hsome : Shape.numel shape ≠ 0)
    : last * s.bits ≤ 8 * (Shape.numel shape / s.weights * s.bytes) := by
  have hmod := numel_mod_of_getLast? hlast hwhole
  have hcount := Nat.div_add_mod (Shape.numel shape) 32
  have hfront : 0 < Shape.numel shape.dropLast := by
    apply Nat.pos_of_ne_zero
    intro hzero
    rw [numel_of_getLast? hlast, hzero, Nat.zero_mul] at hsome
    exact hsome rfl
  calc last * s.bits
    _ ≤ Shape.numel shape * s.bits := by
      rw [numel_of_getLast? hlast]
      exact Nat.mul_le_mul_right s.bits (Nat.le_mul_of_pos_left last hfront)
    _ = 8 * (Shape.numel shape / 32 * (s.bits * 4)) := by
      rw [hmod] at hcount
      rw [← hcount]
      grind
    _ ≤ 8 * (Shape.numel shape / s.weights * s.bytes) := by
      rw [weights_of_mem hs]
      exact Nat.mul_le_mul_left 8 (Nat.mul_le_mul_left _ (four_mul_bits_le hs).2)

/--
If there are weights, blocks that are there are so few that the products of the shape and the bits of
a row fit a machine word.
-/
theorem fits_of_numel_ne_zero (hs : s ∈ all) (hlast : shape.getLast? = some last)
    (hwhole : last % 32 = 0) (hsome : Shape.numel shape ≠ 0) {length : Nat}
    (hlong : Shape.numel shape / s.weights * s.bytes ≤ length) (hlt : length < longPayload)
    : Shape.Small shape ∧ last * s.bits < wordBound := by
  have hmod := numel_mod_of_getLast? hlast hwhole
  have hrow := rowBits_le hs hlast hwhole hsome
  have hbytes := Nat.mul_le_mul_left (Shape.numel shape / s.weights) (four_mul_bits_le hs).2
  have hbits : 4 ≤ s.bits := by
    rcases bits_of_mem hs with h | h
    . exact Nat.le_of_eq h.symm
    . rw [h]
      decide
  have hnumel : Shape.numel shape ≤ 2 * (Shape.numel shape / s.weights * (s.bits * 4)) := by
    have hcount := Nat.mul_le_mul_left (Shape.numel shape / s.weights)
      (Nat.mul_le_mul_right 4 hbits)
    rw [weights_of_mem hs] at hcount ⊢
    omega
  unfold longPayload at hlt
  constructor
  . apply Shape.small_of_numel_lt hsome
    unfold wordBound
    omega
  . unfold wordBound
    omega

end

end Scheme

namespace Quantized

theorem exists_packNibbles {codes : List UInt8} {start count : Nat}
    (h : start + count ≤ codes.length)
    : ∃ packed, packNibbles codes start count = .ok packed ∧ packed.length = count := by
  induction count generalizing start with
  | zero => exact ⟨[], rfl, rfl⟩
  | succ count ih =>
    have hlow : 2 * start < 2 * codes.length := by omega
    have hhigh : 2 * start + 1 < 2 * codes.length := by omega
    have hnext : start + 1 + count ≤ codes.length := by omega
    obtain ⟨low, hlow⟩ := exists_nibbleAt _ hlow
    obtain ⟨high, hhigh⟩ := exists_nibbleAt _ hhigh
    obtain ⟨rest, hrest, hlength⟩ := ih hnext
    refine ⟨(low ||| (high <<< 4)) :: rest, ?_, ?_⟩
    . unfold packNibbles
      simp only [bind_eq_ok_iff, pure_eq_ok_iff]
      exact ⟨low, hlow, high, hhigh, rest, hrest, rfl⟩
    . rw [List.length_cons, hlength]

theorem exists_part {s : Scheme} (hs : s ∈ Scheme.all) (name : String) {block : List UInt8}
    (h : block.length = s.bytes)
    : ∃ p, part name s block = .ok p ∧ p.codes.length = s.packedLength := by
  simp only [Scheme.all, List.mem_cons, List.not_mem_nil, or_false] at hs
  have hhead : 0 + 2 ≤ block.length := by
    rcases hs with rfl | rfl | rfl <;> rw [h] <;> decide
  obtain ⟨scale, hscale⟩ := exists_halfAt hhead
  unfold part
  rcases hs with rfl | rfl | rfl
  . have hcodes : 0 + 16 ≤ (block.drop 2).length := by
      rw [List.length_drop, h]
      decide
    obtain ⟨packed, hpacked, hlength⟩ := exists_packNibbles hcodes
    refine ⟨⟨scale, Ieee.toHalf (Ieee.ofInt (-8) * Ieee.ofHalf scale), packed⟩, ?_, hlength⟩
    simp only [bind_eq_ok_iff, pure_eq_ok_iff]
    exact ⟨scale, hscale, _, rfl, packed, hpacked, rfl⟩
  . have hsecond : 2 + 2 ≤ block.length := by
      rw [h]
      decide
    have hcodes : 0 + 16 ≤ (block.drop 4).length := by
      rw [List.length_drop, h]
      decide
    obtain ⟨bias, hbias⟩ := exists_halfAt hsecond
    obtain ⟨packed, hpacked, hlength⟩ := exists_packNibbles hcodes
    refine ⟨⟨scale, bias, packed⟩, ?_, hlength⟩
    simp only [bind_eq_ok_iff, pure_eq_ok_iff]
    exact ⟨scale, hscale, bias, hbias, packed, hpacked, rfl⟩
  . refine ⟨⟨scale, Ieee.toHalf (Ieee.ofInt (-128) * Ieee.ofHalf scale),
      (block.drop 2).map (· ^^^ 0x80)⟩, ?_, ?_⟩
    . simp only [bind_eq_ok_iff, pure_eq_ok_iff]
      exact ⟨scale, hscale, _, rfl, rfl⟩
    . rw [List.length_map, List.length_drop, h]
      rfl

theorem length_halves (bits : List Nat) : (halves bits).length = bits.length * 2 := by
  unfold halves
  apply length_flatMap_of_forall
  intro n _
  exact LittleEndian.length_encode 2 n

theorem exists_parts {s : Scheme} (hs : s ∈ Scheme.all) (name : String)
    {rows : List (List UInt8)} (h : ∀ block ∈ rows, block.length = s.bytes)
    : ∃ parts, rows.mapM (part name s) = .ok parts ∧ parts.length = rows.length ∧
        (parts.flatMap (·.codes)).length = rows.length * s.packedLength := by
  induction rows with
  | nil => exact ⟨[], rfl, rfl, by simp⟩
  | cons block rows ih =>
    rw [List.forall_mem_cons] at h
    obtain ⟨p, hp, hcodes⟩ := exists_part hs name h.1
    obtain ⟨parts, hparts, hlength, hflat⟩ := ih h.2
    refine ⟨p :: parts, ?_, ?_, ?_⟩
    . rw [mapM_eq_ok_iff] at hparts ⊢
      exact .cons hp hparts
    . rw [List.length_cons, List.length_cons, hlength]
    . rw [List.flatMap_cons, List.length_append, hcodes, hflat, List.length_cons, Nat.succ_mul,
        Nat.add_comm]

theorem ofPayload_eq_ok_iff {s : Scheme} (hs : s ∈ Scheme.all) {name : String}
    {shape : List Nat} {payload : List UInt8} {q : Quantized}
    : ofPayload name s shape payload = .ok q ↔ ∃ last, s.lastDim name shape = .ok last ∧
        Shape.Small shape ∧ last * s.bits < wordBound ∧
        Shape.numel shape / s.weights * s.bytes ≤ payload.length ∧
        ∃ parts, List.Forall₂ (fun row p => part name s row = .ok p)
          (blocks s.bytes (Shape.numel shape / s.weights) payload) parts ∧
        Tensor.ofBytes .u32 (shape.dropLast ++ [last * s.bits / 32]) (parts.flatMap (·.codes))
          = .ok q.weights ∧
        Tensor.ofBytes .f16 (shape.dropLast ++ [last / s.weights]) (halves (parts.map (·.scale)))
          = .ok q.scales ∧
        Tensor.ofBytes .f16 (shape.dropLast ++ [last / s.weights]) (halves (parts.map (·.bias)))
          = .ok q.biases := by
  unfold ofPayload
  simp only [bind_eq_ok_iff, Shape.product_eq_ok_iff]
  constructor
  . rintro ⟨last, hlast, _, ⟨hsmall, rfl⟩, h⟩
    split at h
    . simp at h
    . next hlong =>
      simp only [bind_eq_ok_iff, pure_eq_ok_iff, Scheme.packedDim_eq_ok_iff] at h
      obtain ⟨_, _, parts, hparts, _, ⟨hbits, rfl⟩, weights, hweights, scales, hscales, biases,
        hbiases, rfl⟩ := h
      exact ⟨last, hlast, hsmall, hbits, Nat.not_lt.1 hlong, parts, mapM_eq_ok_iff.1 hparts,
        hweights, hscales, hbiases⟩
  . rintro ⟨last, hlast, hsmall, hbits, hlong, parts, hparts, hweights, hscales, hbiases⟩
    refine ⟨last, hlast, _, ⟨hsmall, rfl⟩, ?_⟩
    rw [if_neg (Nat.not_lt.2 hlong)]
    simp only [bind_eq_ok_iff, pure_eq_ok_iff, Scheme.packedDim_eq_ok_iff]
    exact ⟨(), Scheme.reserve_eq_ok hs hsmall, parts, mapM_eq_ok_iff.2 hparts, _, ⟨hbits, rfl⟩,
      q.weights, hweights, q.scales, hscales, q.biases, hbiases, rfl⟩

/--
Weights are unpacked if their last dimension is a whole number of blocks whose bits fit a machine
word, and all the blocks are there.
-/
theorem exists_ofPayload_iff {s : Scheme} (hs : s ∈ Scheme.all) {name : String} {shape : List Nat}
    {payload : List UInt8}
    : (∃ q, ofPayload name s shape payload = .ok q) ↔
        (∃ last, s.lastDim name shape = .ok last ∧ last * s.bits < wordBound) ∧
          Shape.Small shape ∧ Shape.numel shape / s.weights * s.bytes ≤ payload.length := by
  simp only [ofPayload_eq_ok_iff hs]
  constructor
  . rintro ⟨q, last, hlast, hsmall, hbits, hle, _⟩
    exact ⟨⟨last, hlast, hbits⟩, hsmall, hle⟩
  . rintro ⟨⟨last, hlast, hbits⟩, hsmall, hle⟩
    obtain ⟨parts, hparts, hcount, hcodes⟩ := exists_parts hs name (length_of_mem_blocks hle)
    rw [length_blocks] at hcount hcodes
    obtain ⟨hshape, hwhole⟩ := (Scheme.lastDim_eq_ok_iff hs).1 hlast
    have hweights : (parts.flatMap (·.codes)).length
        = Shape.numel (shape.dropLast ++ [last * s.bits / 32]) * DType.u32.size := by
      rw [hcodes, Scheme.packedLength_of_mem hs, Scheme.numel_packed hs hshape hwhole]
      simp only [DType.size, Nat.mul_assoc]
    have hhalves (f : Part → Nat) : (halves (parts.map f)).length
        = Shape.numel (shape.dropLast ++ [last / s.weights]) * DType.f16.size := by
      rw [length_halves, List.length_map, hcount, Scheme.numel_groups hs hshape hwhole]
      rfl
    have hrow := hsmall.dropLast_append hshape (Scheme.packed_le hs last)
    have hgroups := hsmall.dropLast_append hshape (Nat.div_le_self last s.weights)
    obtain ⟨weights, hweights⟩ := Tensor.exists_ofBytes_iff.2 ⟨hrow, hweights⟩
    obtain ⟨scales, hscales⟩ := Tensor.exists_ofBytes_iff.2 ⟨hgroups, hhalves (·.scale)⟩
    obtain ⟨biases, hbiases⟩ := Tensor.exists_ofBytes_iff.2 ⟨hgroups, hhalves (·.bias)⟩
    exact ⟨⟨weights, scales, biases⟩, last, hlast, hsmall, hbits, hle, parts,
      mapM_eq_ok_iff.1 hparts, hweights, hscales, hbiases⟩

/--
If the number of bits in a row does not fit a machine word, weights that have all their blocks are not
unpacked.
-/
theorem ofPayload_of_not_fits {s : Scheme} (hs : s ∈ Scheme.all) {name : String} {shape : List Nat}
    {payload : List UInt8} {last : Nat} (hlast : s.lastDim name shape = .ok last)
    (hsmall : Shape.Small shape) (hbits : wordBound ≤ last * s.bits)
    (hle : Shape.numel shape / s.weights * s.bytes ≤ payload.length)
    : ofPayload name s shape payload = .error (.panic .product) := by
  obtain ⟨parts, hparts, _⟩ := exists_parts hs name (length_of_mem_blocks hle)
  have hproduct : Shape.product shape = .ok (Shape.numel shape) :=
    Shape.product_eq_ok_iff.2 ⟨hsmall, rfl⟩
  unfold ofPayload
  rw [hlast, hproduct]
  simp only [bind, Except.bind]
  rw [if_neg (Nat.not_lt.2 hle)]
  simp only [Scheme.reserve_eq_ok hs hsmall, hparts]
  unfold Scheme.packedDim
  rw [if_neg (Nat.not_lt.2 hbits)]

end Quantized

end TensorFiles.Gguf
