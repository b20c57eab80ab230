import TensorFiles.Gguf.Widen
import TensorFiles.Proofs.Bytes.Blocks
import TensorFiles.Proofs.Result
import TensorFiles.Proofs.Tensor.View
/-!
This module contains when payloads can be widened: a whole block gives as many elements as its
type says, so that every payload that is long enough gives a tensor of its shape.
-/

namespace TensorFiles.Gguf

namespace Widen

theorem length_slice {block : List UInt8} {offset length : Nat} (h : offset + length ≤ block.length)
    : (slice block offset length).length = length := by
  unfold slice
  rw [List.length_take, List.length_drop]
  omega

theorem getD_slice {bytes : List UInt8} {offset length k : Nat} (h : k < length)
    : (slice bytes offset length).getD k 0 = bytes.getD (offset + k) 0 := by
  unfold slice
  rw [List.getD_eq_getElem?_getD, List.getElem?_take_of_lt h, List.getElem?_drop,
    ← List.getD_eq_getElem?_getD]

theorem getD_drop (row : List UInt8) (header k : Nat)
    : (row.drop header).getD k 0 = row.getD (header + k) 0 := by
  rw [List.getD_eq_getElem?_getD, List.getElem?_drop, ← List.getD_eq_getElem?_getD]

theorem slice_slice {bytes : List UInt8} {start length offset count : Nat}
    (h : offset + count ≤ length)
    : slice (slice bytes start length) offset count
        = slice bytes (start + offset) count := by
  unfold slice
  rw [List.drop_take, List.take_take, List.drop_drop, Nat.min_eq_left (by omega)]

theorem slice_eq_drop {block : List UInt8} {offset length : Nat}
    (h : block.length = offset + length) : slice block offset length = block.drop offset := by
  unfold slice
  apply List.take_of_length_le
  rw [List.length_drop]
  omega

/--
The number `k` among numbers of two bytes each.
-/
theorem slice_flatMap_encode {f : α → Nat} {l : List α} {a : α} {k : Nat} (hk : l[k]? = some a)
    : slice (l.flatMap (fun x => LittleEndian.encode 2 (f x))) (2 * k) 2
        = LittleEndian.encode 2 (f a) := by
  have htwo : ∀ x ∈ l, (LittleEndian.encode 2 (f x)).length = 2 :=
    fun x _ => LittleEndian.length_encode 2 (f x)
  have hall : 0 + 2 ≤ 2 := by decide
  have hpiece := take_drop_flatMap_of_forall htwo hk hall
  have hwhole : (LittleEndian.encode 2 (f a)).take 2 = LittleEndian.encode 2 (f a) := by
    apply List.take_of_length_le
    exact Nat.le_of_eq (LittleEndian.length_encode 2 (f a))
  rw [Nat.add_zero, List.drop_zero, hwhole, Nat.mul_comm] at hpiece
  exact hpiece

theorem length_nibbles (run : List UInt8) : (nibbles run).length = 2 * run.length := by
  unfold nibbles
  rw [List.length_append, List.length_map, List.length_map]
  omega

theorem length_q5 (d m : Ieee.Single) (offset : Int) {rest : List UInt8} (h : 20 ≤ rest.length)
    : (q5 d m offset rest).length = 32 := by
  have hrun : (slice rest 4 16).length = 16 := length_slice h
  unfold q5
  simp only [List.length_map, List.length_append, List.length_zipIdx, hrun]

/--
The thirty-two weights of the group `j` of eight in a block of four bit codes.
-/
def q4_kGroup (block : List UInt8) (j : Nat) : List Ieee.Single :=
  let fields := scaleMin j (slice block 4 12)
  let d := half block 0 * Ieee.ofInt fields.1.toNat
  let m := half block 2 * Ieee.ofInt fields.2.toNat
  (slice block (16 + 32 * (j / 2)) 32).map fun (b : UInt8) =>
    d * Ieee.ofInt (if j % 2 = 0 then b &&& 0x0F else b >>> (4 : UInt8)).toNat - m

theorem q4_k_eq (block : List UInt8) : q4_k block = (List.range 8).flatMap (q4_kGroup block) := by
  have hfour : List.range 4 = [0, 1, 2, 3] := rfl
  have height : List.range 8 = [0, 1, 2, 3, 4, 5, 6, 7] := rfl
  unfold q4_k
  rw [hfour, height]
  simp only [List.flatMap_cons, List.flatMap_nil, List.append_assoc, List.append_nil]
  rfl

theorem length_q4_kGroup {block : List UInt8} (hblock : block.length = 144) {j : Nat} (hj : j < 8)
    : (q4_kGroup block j).length = 32 := by
  unfold q4_kGroup
  rw [List.length_map, length_slice (by omega)]

theorem length_q4_k {block : List UInt8} (h : block.length = 144) : (q4_k block).length = 256 := by
  rw [q4_k_eq]
  apply length_flatMap_of_forall (n := 32)
  exact fun j hj => length_q4_kGroup h (List.mem_range.1 hj)

theorem length_q6_kQuarter (d : Ieee.Single) (scales : List UInt8) {low high : List UInt8}
    (shift : UInt8) (hlow : low.length = 32) (hhigh : high.length = 32)
    : (q6_kQuarter d scales low high shift).length = 32 := by
  unfold q6_kQuarter
  simp only [List.length_map, List.length_zipIdx, List.length_zip, hlow, hhigh, Nat.min_self]

/--
The thirty-two weights of the group `k` of eight in a block of six bit codes.
-/
def q6_kGroup (block : List UInt8) (k : Nat) : List Ieee.Single :=
  let h := k / 4
  let g := k % 4
  let low := (slice block (64 * h + 32 * (g % 2)) 32).map fun (b : UInt8) =>
    if g < 2 then b &&& 0x0F else b >>> (4 : UInt8)
  q6_kQuarter (half block 208) ((slice block (192 + 8 * h) 8).drop (2 * g)) low
    (slice block (128 + 32 * h) 32) (UInt8.ofNat (2 * g))

theorem q6_k_eq (block : List UInt8) : q6_k block = (List.range 8).flatMap (q6_kGroup block) := by
  have htwo : List.range 2 = [0, 1] := rfl
  have height : List.range 8 = [0, 1, 2, 3, 4, 5, 6, 7] := rfl
  unfold q6_k
  rw [htwo, height]
  simp only [List.flatMap_cons, List.flatMap_nil, List.append_assoc, List.append_nil]
  rfl

theorem length_q6_kGroup {block : List UInt8} (hblock : block.length = 210) {k : Nat} (hk : k < 8)
    : (q6_kGroup block k).length = 32 := by
  unfold q6_kGroup
  apply length_q6_kQuarter
  . rw [List.length_map, length_slice (by omega)]
  . exact length_slice (by omega)

theorem length_q6_k {block : List UInt8} (h : block.length = 210) : (q6_k block).length = 256 := by
  rw [q6_k_eq]
  apply length_flatMap_of_forall (n := 32)
  exact fun k hk => length_q6_kGroup h (List.mem_range.1 hk)

theorem length_of_block? {type : TensorType} {decode : List UInt8 → List Ieee.Single}
    (h : block? type = some decode) {block : List UInt8} (hblock : block.length = type.blockBytes)
    : (decode block).length = type.blockSize := by
  cases type <;> simp only [block?, Option.some.injEq, reduceCtorEq] at h <;> subst h
  case q4_0 =>
    have hrun : (slice block 2 16).length = 16 := length_slice (Nat.le_of_eq hblock.symm)
    simp [q4_0, length_nibbles, hrun, TensorType.blockSize]
  case q4_1 =>
    have hrun : (slice block 4 16).length = 16 := length_slice (Nat.le_of_eq hblock.symm)
    simp [q4_1, length_nibbles, hrun, TensorType.blockSize]
  case q5_0 =>
    apply length_q5
    rw [List.length_drop, hblock]
    decide
  case q5_1 =>
    apply length_q5
    rw [List.length_drop, hblock]
    decide
  case q8_0 =>
    have hrun : (slice block 2 32).length = 32 := length_slice (Nat.le_of_eq hblock.symm)
    simp [q8_0, hrun, TensorType.blockSize]
  case q4_k => exact length_q4_k hblock
  case q6_k => exact length_q6_k hblock
  case i64 => rfl
  case f64 => rfl
  case bf16 => rfl

end Widen

theorem widen_eq_ok_iff {name : String} {type : TensorType} {shape : List Nat}
    {payload : List UInt8} {t : Tensor}
    : widen name type shape payload = .ok t ↔ ∃ decode, Widen.block? type = some decode ∧
        ∃ size, type.byteSizeOf name (Shape.numel shape) = .ok size ∧ size ≤ payload.length ∧
        Tensor.ofBytes .f16 shape
          (((blocks type.blockBytes (Shape.numel shape / type.blockSize) payload).flatMap
            decode).flatMap (fun x => LittleEndian.encode 2 (Ieee.toHalf x))) = .ok t := by
  unfold widen
  cases Widen.block? type with
  | none => simp
  | some decode =>
    simp only [bind_eq_ok_iff, Shape.product_eq_ok_iff, Option.some.injEq, exists_eq_left']
    constructor
    . rintro ⟨_, ⟨_, rfl⟩, size, hsize, h⟩
      split at h
      . simp at h
      . next hlong => exact ⟨size, hsize, Nat.not_lt.1 hlong, h⟩
    . rintro ⟨size, hsize, hlong, h⟩
      have hsmall : Shape.Small shape := (Tensor.ofBytes_eq_ok_iff.1 h).2.1 ▸ t.small
      refine ⟨_, ⟨hsmall, rfl⟩, size, hsize, ?_⟩
      rw [if_neg (Nat.not_lt.2 hlong)]
      exact h

theorem widen_rename {name : String} {type : TensorType} {shape : List Nat} {payload : List UInt8}
    {x : Tensor} (h : widen name type shape payload = .ok x) (name' : String)
    : widen name' type shape payload = .ok x := by
  obtain ⟨decode, hdecode, size, hsize, hle, hx⟩ := widen_eq_ok_iff.1 h
  rw [TensorType.byteSizeOf_eq_ok_iff] at hsize
  exact widen_eq_ok_iff.2
    ⟨decode, hdecode, size, TensorType.byteSizeOf_eq_ok_iff.2 hsize, hle, hx⟩

/--
A payload is widened if its type is decodable, its elements are whole blocks, and it has as many
bytes as these take.
-/
theorem exists_widen_iff {name : String} {type : TensorType} {shape : List Nat}
    {payload : List UInt8}
    : (∃ t, widen name type shape payload = .ok t) ↔ (Widen.block? type).isSome ∧
        Shape.Small shape ∧
        ∃ size, type.byteSizeOf name (Shape.numel shape) = .ok size ∧ size ≤ payload.length := by
  simp only [widen_eq_ok_iff]
  constructor
  . rintro ⟨t, decode, hdecode, size, hsize, hle, ht⟩
    rw [hdecode]
    exact ⟨rfl, (Tensor.ofBytes_eq_ok_iff.1 ht).2.1 ▸ t.small, size, hsize, hle⟩
  . rintro ⟨hdecodable, hsmall, size, hsize, hle⟩
    obtain ⟨decode, hdecode⟩ := Option.isSome_iff_exists.1 hdecodable
    obtain ⟨hwhole, hbytes⟩ := TensorType.dvd_of_byteSize
      (TensorType.byteSizeOf_eq_ok_iff.1 hsize)
    have helements :
        ((blocks type.blockBytes (Shape.numel shape / type.blockSize) payload).flatMap
          decode).length = Shape.numel shape := by
      rw [length_flatMap_of_forall (n := type.blockSize), length_blocks, hwhole]
      intro block hmem
      apply Widen.length_of_block? hdecode
      exact length_of_mem_blocks (by omega) block hmem
    have hlength : (((blocks type.blockBytes (Shape.numel shape / type.blockSize) payload).flatMap
        decode).flatMap (fun x => LittleEndian.encode 2 (Ieee.toHalf x))).length
        = Shape.numel shape * DType.f16.size := by
      rw [length_flatMap_of_forall (n := 2), helements]
      . rfl
      . intro x _
        exact LittleEndian.length_encode 2 _
    obtain ⟨t, ht⟩ := Tensor.exists_ofBytes_iff.2 ⟨hsmall, hlength⟩
    exact ⟨t, decode, hdecode, size, hsize, hle, ht⟩

end TensorFiles.Gguf
