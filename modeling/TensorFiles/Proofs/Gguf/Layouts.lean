import Mathlib.Data.Nat.Bitwise
import TensorFiles.Proofs.Gguf.Weights
/-!
This module contains where the parts of a weight stand in its block. Codes of five and of six bits
are scattered over the bytes of the block, and so are scales and minima of six bits. Each weight is
given by its place in the block alone, and the tensor has it at the same place among all weights.
-/

namespace TensorFiles.Gguf

/--
Every payload of whole blocks is widened to the weights that `weight` finds at the places of its
blocks, block after block, in any shape that machine words can multiply.
-/
def WidensTo (type : TensorType) (weight : List UInt8 → Nat → Ieee.Single) : Prop :=
  ∀ (shape : List Nat) (payload : List UInt8), Shape.Small shape →
    type.blockSize ∣ Shape.numel shape → type.lengthOf shape ≤ payload.length →
    payload.length < wordBound →
      ∃ t : Tensor, (∀ name, widen name type shape payload = .ok t) ∧ t.dtype = .f16 ∧
        t.shape = shape ∧ ∀ b < Shape.numel shape / type.blockSize, ∀ n < type.blockSize,
          Widen.slice t.data (2 * (b * type.blockSize + n)) 2
            = LittleEndian.encode 2 (Ieee.toHalf
                (weight (Widen.slice payload (b * type.blockBytes) type.blockBytes) n))

theorem widensTo_of_getElem? {type : TensorType} {decode : List UInt8 → List Ieee.Single}
    {weight : List UInt8 → Nat → Ieee.Single} (hdecode : Widen.block? type = some decode)
    (h : ∀ block, block.length = type.blockBytes → ∀ n < type.blockSize,
      (decode block)[n]? = some (weight block n))
    : WidensTo type weight := by
  intro shape payload hsmall hwhole hlong hsize
  have hmem : type ∈ widenedTypes := Widen.isSome_block?_iff_mem.1 (by rw [hdecode]; rfl)
  have hsome : ∃ t, widen "" type shape payload = .ok t :=
    (exists_widen_iff_widenable hsize).2 ⟨hsmall, hmem, hwhole, hlong⟩
  obtain ⟨t, ht⟩ := hsome
  obtain ⟨_, hdtype, hshape, _⟩ := (widen_eq_ok_iff_stored hdecode).1 ht
  refine ⟨t, widen_rename ht, hdtype, hshape, ?_⟩
  intro b hb n hn
  have hlength := length_of_mem_blocks hlong _ (List.mem_of_getElem? (getElem?_blocks payload hb))
  exact slice_of_widen hdecode ht hb hn (h _ hlength n hn)

namespace Widen

/--
The byte at `offset`, as a number.
-/
def byteAt (block : List UInt8) (offset : Nat) : Nat :=
  (block.getD offset 0).toNat

theorem byteAt_lt (block : List UInt8) (offset : Nat) : byteAt block offset < 256 :=
  UInt8.toNat_lt _

/--
The code of the weight `n = 128 * h + 32 * g + l` among codes of six bits. Its lower four bits are a
half of a byte, the low one in the first two groups; its upper two are those from `2 * g` on of
another byte.
-/
def q6_kCode (block : List UInt8) (n : Nat) : Nat :=
  let h := n / 128
  let g := n / 32 % 4
  let l := n % 32
  let low := byteAt block (64 * h + 32 * (g % 2) + l)
  let high := byteAt block (128 + 32 * h + l)
  (if g < 2 then low % 16 else low / 16) + 16 * (high / 4 ^ g % 4)

/--
Sixteen weights share a scale.
-/
def q6_kWeight (block : List UInt8) (n : Nat) : Ieee.Single :=
  let scale := (block.getD (192 + n / 16) 0).toInt8.toInt
  half block 208 * Ieee.ofInt scale * Ieee.ofInt ((q6_kCode block n : Int) - 32)

/--
The scale `j` of eight, of six bits.
-/
def q4_kScale (block : List UInt8) (j : Nat) : Nat :=
  if j < 4 then
    byteAt block (4 + j) % 64
  else
    byteAt block (4 + (j + 4)) % 16 + 16 * (byteAt block (4 + (j - 4)) / 64)

/--
The minimum `j` of eight, of six bits.
-/
def q4_kMin (block : List UInt8) (j : Nat) : Nat :=
  if j < 4 then
    byteAt block (4 + (j + 4)) % 64
  else
    byteAt block (4 + (j + 4)) / 16 + 16 * (byteAt block (4 + j) / 64)

/--
The code of the weight `n` among codes of four bits. Those of two groups of thirty-two share their
bytes.
-/
def q4_kCode (block : List UInt8) (n : Nat) : Nat :=
  let byte := byteAt block (16 + 32 * (n / 64) + n % 32)
  if n / 32 % 2 = 0 then byte % 16 else byte / 16

/--
Thirty-two weights share a scale and a minimum.
-/
def q4_kWeight (block : List UInt8) (n : Nat) : Ieee.Single :=
  let j := n / 32
  half block 0 * Ieee.ofInt (q4_kScale block j) * Ieee.ofInt (q4_kCode block n) -
    half block 2 * Ieee.ofInt (q4_kMin block j)

/--
The code of the weight `i` among codes of five bits. The fifth bit is that of the word in front.
-/
def q5Code (rest : List UInt8) (i : Nat) : Nat :=
  let word := LittleEndian.decode (slice rest 0 4)
  (if i < 16 then byteAt rest (4 + i) % 16 else byteAt rest (4 + (i - 16)) / 16) +
    16 * (word.testBit i).toNat

/--
The codes are centred on zero, and the minimum that is added is zero.
-/
def q5_0Weight (block : List UInt8) (i : Nat) : Ieee.Single :=
  (Ieee.ofInt (q5Code (block.drop 2) i) - Ieee.ofInt 16) * half block 0 + 0

def q5_1Weight (block : List UInt8) (i : Nat) : Ieee.Single :=
  Ieee.ofInt (q5Code (block.drop 4) i) * half block 0 + half block 2

theorem getElem?_slice {block : List UInt8} {offset length i : Nat}
    (h : offset + length ≤ block.length) (hi : i < length)
    : (slice block offset length)[i]? = some (block.getD (offset + i) 0) := by
  have hlt : offset + i < block.length := by omega
  unfold slice
  rw [List.getElem?_take_of_lt hi, List.getElem?_drop, List.getD_eq_getElem?_getD,
    List.getElem?_eq_getElem hlt]
  rfl

/--
Two bits of a byte, on top of four.
-/
theorem toNat_or_field {low shift : UInt8} (hlow : low.toNat < 16) (high : UInt8) {g : Nat}
    (hg : g < 4) (hshift : shift.toNat = 2 * g)
    : (low ||| (((high >>> shift) &&& 3) <<< 4)).toNat
        = low.toNat + 16 * (high.toNat / 4 ^ g % 4) := by
  have hfield : ((high >>> shift) &&& 3).toNat = high.toNat / 4 ^ g % 4 := by
    have hfour : 2 ^ (2 * g) = 4 ^ g := Nat.pow_mul 2 2 g
    have hwidth : 2 * g % 8 = 2 * g := Nat.mod_eq_of_lt (by omega)
    rw [UInt8.toNat_and, UInt8.toNat_shiftRight, hshift, hwidth, Nat.shiftRight_eq_div_pow, hfour]
    exact Nat.and_two_pow_sub_one_eq_mod _ 2
  have hsmall : ((high >>> shift) &&& 3).toNat < 16 := by
    rw [hfield]
    omega
  rw [toNat_or_shiftLeft hlow hsmall, hfield]

/--
One bit of a number, on top of four.
-/
theorem or_bit {low : Nat} (hlow : low < 2 ^ 4) (x : Nat)
    : low ||| (x &&& 0x10) = low + 16 * (x.testBit 4).toNat := by
  have hbit : x &&& 2 ^ 4 = 2 ^ 4 * (x.testBit 4).toNat := by
    rw [Nat.and_two_pow, Nat.mul_comm]
  have hor := Nat.two_pow_add_eq_or_of_lt hlow (x.testBit 4).toNat
  rw [Nat.or_comm, Nat.add_comm low]
  exact (congrArg (· ||| low) hbit).trans hor.symm

section

variable {block : List UInt8}

/--
One half of a byte, as a number.
-/
theorem toNat_half {c : Prop} [Decidable c] (b : UInt8)
    : (if c then b &&& 0x0F else b >>> (4 : UInt8)).toNat
        = if c then b.toNat % 16 else b.toNat / 16 := by
  split
  . exact toNat_lowHalf b
  . exact toNat_highHalf b

theorem half_lt {c : Prop} [Decidable c] (b : UInt8)
    : (if c then b &&& 0x0F else b >>> (4 : UInt8)).toNat < 16 := by
  have hb := b.toNat_lt
  rw [toNat_half]
  split
  . omega
  . omega

theorem getElem?_q6_kQuarter (d : Ieee.Single) (scales : List UInt8) {low high : List UInt8}
    (shift : UInt8) {i : Nat} {l h : UInt8} (hl : low[i]? = some l) (hh : high[i]? = some h)
    : (q6_kQuarter d scales low high shift)[i]?
        = some (d * Ieee.ofInt (scales.getD (i / 16) 0).toInt8.toInt *
            Ieee.ofInt (((l ||| (((h >>> shift) &&& 3) <<< 4)).toNat : Int) - 32)) := by
  unfold q6_kQuarter
  rw [List.getElem?_map, List.getElem?_zipIdx, (List.getElem?_zip_eq_some (z := (l, h))).2 ⟨hl, hh⟩]
  simp only [Option.map_some, Nat.zero_add]

theorem getElem?_q6_kGroup (hblock : block.length = 210) {k l : Nat} (hk : k < 8) (hl : l < 32)
    : (q6_kGroup block k)[l]? = some (q6_kWeight block (32 * k + l)) := by
  have hrun : (slice block (64 * (k / 4) + 32 * (k % 4 % 2)) 32)[l]?
      = some (block.getD (64 * (k / 4) + 32 * (k % 4 % 2) + l) 0) :=
    getElem?_slice (by omega) hl
  have hhigh : (slice block (128 + 32 * (k / 4)) 32)[l]?
      = some (block.getD (128 + 32 * (k / 4) + l) 0) :=
    getElem?_slice (by omega) hl
  have hscale : ((slice block (192 + 8 * (k / 4)) 8).drop (2 * (k % 4))).getD (l / 16) 0
      = block.getD (192 + (32 * k + l) / 16) 0 := by
    rw [getD_drop, getD_slice (by omega)]
    congr 1
    omega
  have hsmall : 2 * (k % 4) < 256 := by omega
  have hshift : (UInt8.ofNat (2 * (k % 4))).toNat = 2 * (k % 4) := UInt8.toNat_ofNat_of_lt' hsmall
  have hh : (32 * k + l) / 128 = k / 4 := by omega
  have hg : (32 * k + l) / 32 % 4 = k % 4 := by omega
  have hl' : (32 * k + l) % 32 = l := by omega
  unfold q6_kGroup q6_kWeight q6_kCode byteAt
  dsimp only
  rw [getElem?_q6_kQuarter _ _ _ (by rw [List.getElem?_map, hrun]; rfl) hhigh, hscale,
    toNat_or_field (half_lt _) _ (Nat.mod_lt k (by decide)) hshift, toNat_half, hh, hg, hl']

theorem toNat_sixBits (b : UInt8) : (b &&& 63).toNat = b.toNat % 64 := by
  rw [UInt8.toNat_and]
  exact Nat.and_two_pow_sub_one_eq_mod _ 6

theorem toNat_topBits (b : UInt8) : (b >>> 6).toNat = b.toNat / 64 := by
  rw [UInt8.toNat_shiftRight]
  exact Nat.shiftRight_eq_div_pow _ 6

/--
Four bits of one byte, with the upper two of another on top.
-/
theorem toNat_or_topBits {low : UInt8} (hlow : low.toNat < 16) (high : UInt8)
    : (low ||| ((high >>> (6 : UInt8)) <<< (4 : UInt8))).toNat
        = low.toNat + 16 * (high.toNat / 64) := by
  have hhigh : (high >>> 6).toNat < 16 := by
    have := high.toNat_lt
    rw [toNat_topBits]
    omega
  rw [toNat_or_shiftLeft hlow hhigh, toNat_topBits]

section

variable (fields : List UInt8) (j : Nat)

theorem toNat_scaleMin_of_lt {j : Nat} (hj : j < 4)
    : (scaleMin j fields).1.toNat = byteAt fields j % 64 ∧
        (scaleMin j fields).2.toNat = byteAt fields (j + 4) % 64 := by
  unfold scaleMin byteAt
  dsimp only
  rw [if_pos hj, toNat_sixBits, toNat_sixBits]
  exact ⟨rfl, rfl⟩

theorem toNat_scaleMin_add_four
    : (scaleMin (j + 4) fields).1.toNat
          = byteAt fields (j + 8) % 16 + 16 * (byteAt fields j / 64) ∧
        (scaleMin (j + 4) fields).2.toNat
          = byteAt fields (j + 8) / 16 + 16 * (byteAt fields (j + 4) / 64) := by
  unfold scaleMin byteAt
  dsimp only
  rw [if_neg (by omega), toNat_or_topBits (nibble_lt _).1, toNat_or_topBits (nibble_lt _).2,
    toNat_lowHalf, toNat_highHalf]
  exact ⟨rfl, rfl⟩

end

theorem toNat_scaleMin {j : Nat} (hj : j < 8)
    : (scaleMin j (slice block 4 12)).1.toNat = q4_kScale block j ∧
        (scaleMin j (slice block 4 12)).2.toNat = q4_kMin block j := by
  have hbyte {i : Nat} (hi : i < 12) : byteAt (slice block 4 12) i = byteAt block (4 + i) := by
    unfold byteAt
    rw [getD_slice hi]
  unfold q4_kScale q4_kMin
  by_cases hlow : j < 4
  . obtain ⟨hscale, hmin⟩ := toNat_scaleMin_of_lt (slice block 4 12) hlow
    rw [if_pos hlow, if_pos hlow, hscale, hmin, hbyte (by omega), hbyte (by omega)]
    exact ⟨rfl, rfl⟩
  . obtain ⟨k, rfl⟩ := Nat.exists_eq_add_of_le' (Nat.not_lt.1 hlow)
    obtain ⟨hscale, hmin⟩ := toNat_scaleMin_add_four (slice block 4 12) k
    rw [if_neg hlow, if_neg hlow, hscale, hmin, hbyte (by omega), hbyte (by omega),
      hbyte (by omega)]
    exact ⟨rfl, rfl⟩

theorem getElem?_q4_kGroup (hblock : block.length = 144) {j l : Nat} (hj : j < 8) (hl : l < 32)
    : (q4_kGroup block j)[l]? = some (q4_kWeight block (32 * j + l)) := by
  have hrun : (slice block (16 + 32 * (j / 2)) 32)[l]?
      = some (block.getD (16 + 32 * (j / 2) + l) 0) :=
    getElem?_slice (by omega) hl
  have hhalf : (32 * j + l) / 64 = j / 2 := by omega
  have hgroup : (32 * j + l) / 32 = j := by omega
  have hl' : (32 * j + l) % 32 = l := by omega
  unfold q4_kGroup q4_kWeight q4_kCode byteAt
  dsimp only
  rw [List.getElem?_map, hrun, (toNat_scaleMin hj).1, (toNat_scaleMin hj).2, Option.map_some,
    toNat_half, hhalf, hgroup, hl']

/--
The weight `n` of a block of eight groups of thirty-two.
-/
theorem getElem?_groups {group : Nat → List Ieee.Single} {weight : Nat → Ieee.Single}
    (h : ∀ k < 8, ∀ l < 32, (group k)[l]? = some (weight (32 * k + l)))
    (hlength : ∀ k < 8, (group k).length = 32) {n : Nat} (hn : n < 256)
    : ((List.range 8).flatMap group)[n]? = some (weight n) := by
  have hall : ∀ k ∈ List.range 8, (group k).length = 32 :=
    fun k hk => hlength k (List.mem_range.1 hk)
  have hk : n / 32 < 8 := by omega
  have hl : n % 32 < 32 := Nat.mod_lt n (by decide)
  have helement := getElem?_flatMap_of_forall hall (List.getElem?_range hk) hl
  rw [Nat.div_add_mod'] at helement
  rw [helement, h _ hk _ hl, Nat.div_add_mod]

theorem getElem?_q6_k (hblock : block.length = 210) {n : Nat} (hn : n < 256)
    : (q6_k block)[n]? = some (q6_kWeight block n) := by
  rw [q6_k_eq]
  apply getElem?_groups
  . exact fun k hk l hl => getElem?_q6_kGroup hblock hk hl
  . exact fun k hk => length_q6_kGroup hblock hk
  . exact hn

theorem getElem?_q4_k (hblock : block.length = 144) {n : Nat} (hn : n < 256)
    : (q4_k block)[n]? = some (q4_kWeight block n) := by
  rw [q4_k_eq]
  apply getElem?_groups
  . exact fun j hj l hl => getElem?_q4_kGroup hblock hj hl
  . exact fun j hj => length_q4_kGroup hblock hj
  . exact hn

end

section

variable {rest : List UInt8} {i : Nat}

/--
The codes of five bits in the order of their weights.
-/
def q5Codes (rest : List UInt8) : List Nat :=
  let high := LittleEndian.decode (slice rest 0 4)
  let run := (slice rest 4 16).zipIdx
  let low := run.map (fun ((b, j) : UInt8 × Nat) =>
    (b &&& 0x0F).toNat ||| (((high >>> j) <<< 4) &&& 0x10))
  let up := run.map (fun ((b, j) : UInt8 × Nat) =>
    (b >>> (4 : UInt8)).toNat ||| ((high >>> (j + 12)) &&& 0x10))
  low ++ up

theorem getElem?_q5Codes (h : 20 ≤ rest.length) (hi : i < 32)
    : (q5Codes rest)[i]? = some (q5Code rest i) := by
  have hrun : (slice rest 4 16).length = 16 := length_slice h
  unfold q5Codes q5Code byteAt
  dsimp only
  by_cases hlow : i < 16
  . have hbit (word : Nat) : ((word >>> i) <<< 4).testBit 4 = word.testBit i := by
      simp [Nat.testBit_shiftLeft]
    rw [if_pos hlow, List.getElem?_append_left (by simpa [hrun] using hlow), List.getElem?_map,
      List.getElem?_zipIdx, getElem?_slice h hlow]
    simp only [Option.map_some, Nat.zero_add]
    rw [or_bit (nibble_lt _).1, toNat_lowHalf, hbit]
  . -- the code is in the high half of the byte sixteen places before
    have hhigh : i - 16 < 16 := by omega
    have hbit (word : Nat) : (word >>> (i - 16 + 12)).testBit 4 = word.testBit i := by
      have hplace : i - 16 + 12 + 4 = i := by omega
      rw [Nat.testBit_shiftRight, hplace]
    rw [if_neg hlow, List.getElem?_append_right (by simpa [hrun] using hlow), List.length_map,
      List.length_zipIdx, hrun, List.getElem?_map, List.getElem?_zipIdx, getElem?_slice h hhigh]
    simp only [Option.map_some, Nat.zero_add]
    rw [or_bit (nibble_lt _).2, toNat_highHalf, hbit]

theorem q5Code_lt (rest : List UInt8) (i : Nat) : q5Code rest i < 32 := by
  have hbit := Bool.toNat_lt ((LittleEndian.decode (slice rest 0 4)).testBit i)
  have hlow := byteAt_lt rest (4 + i)
  have hhigh := byteAt_lt rest (4 + (i - 16))
  unfold q5Code
  dsimp only
  split
  . omega
  . omega

theorem getElem?_q5 (d m : Ieee.Single) (offset : Int) (h : 20 ≤ rest.length) (hi : i < 32)
    : (q5 d m offset rest)[i]?
        = some ((Ieee.ofInt (q5Code rest i) - Ieee.ofInt offset) * d + m) := by
  have heq : q5 d m offset rest = (q5Codes rest).map
      (fun (q : Nat) => (Ieee.ofInt q - Ieee.ofInt offset) * d + m) := rfl
  rw [heq, List.getElem?_map, getElem?_q5Codes h hi, Option.map_some]

end

theorem ofInt_zero : Ieee.ofInt 0 = 0 := by
  decide +kernel

/--
Nothing taken off a small number leaves it as it is.
-/
theorem ofInt_sub_zero {n : Nat} (h : n < 32) : Ieee.ofInt n - Ieee.ofInt 0 = Ieee.ofInt n := by
  have hall : ∀ n < 32, Ieee.ofInt (n : Nat) - Ieee.ofInt 0 = Ieee.ofInt (n : Nat) := by
    decide +kernel
  exact hall n h

theorem getElem?_q5_0 {block : List UInt8} (hblock : block.length = 22) {i : Nat} (hi : i < 32)
    : (q5_0 block)[i]? = some (q5_0Weight block i) := by
  have hrest : 20 ≤ (block.drop 2).length := by
    rw [List.length_drop]
    omega
  unfold q5_0 q5_0Weight
  rw [getElem?_q5 _ _ _ hrest hi, ofInt_zero]

theorem getElem?_q5_1 {block : List UInt8} (hblock : block.length = 24) {i : Nat} (hi : i < 32)
    : (q5_1 block)[i]? = some (q5_1Weight block i) := by
  have hrest : 20 ≤ (block.drop 4).length := by
    rw [List.length_drop]
    omega
  unfold q5_1 q5_1Weight
  rw [getElem?_q5 _ _ _ hrest hi, ofInt_sub_zero (q5Code_lt _ i)]

end Widen

/--
In the blocks of two hundred and fifty-six weights, each code is put together from the halves of
bytes and the pairs of bits that belong to its place, and goes with the scale, and the minimum if
there is one, of its group.
-/
theorem widensTo_superBlocks
    : WidensTo .q6_k Widen.q6_kWeight ∧ WidensTo .q4_k Widen.q4_kWeight := by
  constructor
  . apply widensTo_of_getElem? rfl
    exact fun block hblock n hn => Widen.getElem?_q6_k hblock hn
  . apply widensTo_of_getElem? rfl
    exact fun block hblock n hn => Widen.getElem?_q4_k hblock hn

/--
A block of six bit codes at the scale 1, no two groups of which are alike.
-/
def scatteredBlock (seed : Nat) : List UInt8 :=
  (List.range 208).map (fun k => UInt8.ofNat (k * k + seed)) ++ [0x00, 0x3C]

theorem widensTo_superBlocks_scattered
    : Widen.q6_kCode (scatteredBlock 5) 213 = 51 ∧
      ∃ t, widen "t" .q6_k [2, 256] (scatteredBlock 0 ++ scatteredBlock 5) = .ok t ∧
        Widen.slice t.data (2 * (256 + 213)) 2
          = LittleEndian.encode 2 (Ieee.toHalf (Ieee.ofInt 46 * Ieee.ofInt (51 - 32))) := by
  obtain ⟨t, ht, _, _, hweight⟩ := widensTo_superBlocks.1 [2, 256]
    (scatteredBlock 0 ++ scatteredBlock 5) (by decide) (by decide) (by decide +kernel)
    (by decide +kernel)
  refine ⟨by decide +kernel, t, ht "t", ?_⟩
  have hsecond := hweight 1 (by decide) 213 (by decide)
  have hblock : Widen.slice (scatteredBlock 0 ++ scatteredBlock 5) (1 * 210) 210
      = scatteredBlock 5 := by
    decide +kernel
  have hvalue : Ieee.toHalf (Widen.q6_kWeight (scatteredBlock 5) 213)
      = Ieee.toHalf (Ieee.ofInt 46 * Ieee.ofInt (51 - 32)) := by
    decide +kernel
  have hplace : 2 * (256 + 213) = 2 * (1 * TensorType.q6_k.blockSize + 213) := rfl
  rw [hplace, hsecond, TensorType.blockBytes, hblock, hvalue]

/--
In the blocks of codes of five bits, the first half of the weights has the low halves of the bytes
and the second half the high ones, each with the bit of its number in the word in front.
-/
theorem widensTo_fiveBits
    : WidensTo .q5_0 Widen.q5_0Weight ∧ WidensTo .q5_1 Widen.q5_1Weight := by
  constructor
  . apply widensTo_of_getElem? rfl
    exact fun block hblock i hi => Widen.getElem?_q5_0 hblock hi
  . apply widensTo_of_getElem? rfl
    exact fun block hblock i hi => Widen.getElem?_q5_1 hblock hi

/--
A block of five bit codes at the scale 1 and with the minimum 1/2, half of whose fifth bits are set.
-/
def mixedBlock : List UInt8 :=
  [0x00, 0x3C, 0x00, 0x38, 0xA5, 0x5A, 0x0F, 0xC3] ++
    (List.range 16).map (fun n => UInt8.ofNat (17 * n + 3))

theorem widensTo_fiveBits_mixedBlock
    : Widen.q5Code (mixedBlock.drop 4) 2 = 21 ∧ Widen.q5Code (mixedBlock.drop 4) 29 = 14 ∧
      ∃ t, widen "t" .q5_1 [32] mixedBlock = .ok t ∧
        Widen.slice t.data (2 * 2) 2 = [0x60, 0x4D] ∧
        Widen.slice t.data (2 * 29) 2 = [0x40, 0x4B] := by
  obtain ⟨t, ht, _, _, hweight⟩ := widensTo_fiveBits.2 [32] mixedBlock (by decide) (by decide)
    (by decide) (by decide)
  have hfirst := hweight 0 (by decide) 2 (by decide)
  have hsecond := hweight 0 (by decide) 29 (by decide)
  exact ⟨by decide, by decide, t, ht "t", hfirst.trans (by decide +kernel),
    hsecond.trans (by decide +kernel)⟩

end TensorFiles.Gguf
