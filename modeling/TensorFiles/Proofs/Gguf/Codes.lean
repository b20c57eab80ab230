import TensorFiles.Proofs.Gguf.Sizes
import TensorFiles.Proofs.Gguf.Weights
/-!
This module contains what unpacking keeps of quantized weights. The codes of a block have another
order and another place in the packed words, but each weight has the code it had, and each block the
scale and the bias it had, bit for bit.
-/

namespace TensorFiles.Gguf

/--
The code of the weight `i` in a block as it is stored. Codes of four bits are in the low halves of
the bytes, then in the high halves; codes of eight bits are signed and counted from the least.
-/
def Scheme.storedCode (s : Scheme) (block : List UInt8) (i : Nat) : Int :=
  let byte (k : Nat) : UInt8 := block.getD (s.headerLength + k) 0
  if s.bits = 8 then
    (byte i).toInt8.toInt + 128
  else if i < 16 then
    (byte i).toNat % 16
  else
    (byte (i - 16)).toNat / 16

namespace Quantized

/--
The first `count` blocks of `payload` have their codes, their scales and the biases that are stored
in `q`.
-/
structure Keeps (q : Quantized) (s : Scheme) (payload : List UInt8) (count : Nat) : Prop where
  code : ∀ b < count, ∀ i < 32,
    q.code s.bits (32 * b + i) = s.storedCode (Widen.slice payload (b * s.bytes) s.bytes) i
  scale : ∀ b < count,
    Widen.slice q.scales.data (2 * b) 2 = Widen.slice payload (b * s.bytes) 2
  bias : s.bias = .stored → ∀ b < count,
    Widen.slice q.biases.data (2 * b) 2 = Widen.slice payload (b * s.bytes + 2) 2

end Quantized

theorem toNat_nibbleAt {codes : List UInt8} (hlength : codes.length = 16) {i : Nat} {b : UInt8}
    (h : nibbleAt codes i = .ok b)
    : b.toNat = if i < 16 then (codes.getD i 0).toNat % 16
        else (codes.getD (i - 16) 0).toNat / 16 := by
  unfold nibbleAt at h
  rw [hlength] at h
  split at h
  . next hlow =>
    cases h
    rw [if_pos hlow, toNat_lowHalf]
  . next hlow =>
    split at h
    . cases h
      rw [if_neg hlow, toNat_highHalf]
    . cases h

theorem halfAt_bytes {block : List UInt8} {offset n : Nat} (h : halfAt block offset = .ok n)
    : LittleEndian.encode 2 n = Widen.slice block offset 2 := by
  have hle : offset + 2 ≤ block.length := by
    unfold halfAt at h
    split at h
    . next hle => exact hle
    . cases h
  have hencode := LittleEndian.encode_decode (Widen.slice block offset 2)
  rw [Widen.length_slice hle, ← (halfAt_eq_ok h).1] at hencode
  exact hencode

namespace Quantized

variable {s : Scheme} {row : List UInt8} {p : Part} {i : Nat}

theorem Part.Of.codeAt_four (h : p.Of s row) (hbits : s.bits = 4) (hpacked : s.packedLength = 16)
    (hrow : row.length = s.headerLength + 16) (hi : i < 32)
    : (codeAt s.bits p.codes i : Int) = s.storedCode row i := by
  have hcodes := h.four hbits
  rw [hpacked] at hcodes
  obtain ⟨b, hb, hcode⟩ := codeAt_packNibbles hcodes hi
  have hlength : (row.drop s.headerLength).length = 16 := by
    rw [List.length_drop]
    omega
  have hnibble := toNat_nibbleAt hlength hb
  rw [Widen.getD_drop, Widen.getD_drop] at hnibble
  have hwidth : ¬ s.bits = 8 := by omega
  unfold Scheme.storedCode
  rw [if_neg hwidth, hbits, hcode, hnibble]
  split
  . rfl
  . rfl

theorem Part.Of.codeAt_eight (h : p.Of s row) (hbits : s.bits = 8)
    (hrow : row.length = s.headerLength + 32) (hi : i < 32)
    : (codeAt s.bits p.codes i : Int) = s.storedCode row i := by
  have hlt : i < (row.drop s.headerLength).length := by
    rw [List.length_drop]
    omega
  have hcode : p.codes.getD i 0 = row.getD (s.headerLength + i) 0 ^^^ 0x80 := by
    rw [h.eight hbits, ← Widen.getD_drop, List.getD_eq_getElem?_getD, List.getElem?_map,
      List.getD_eq_getElem?_getD, List.getElem?_eq_getElem hlt]
    rfl
  have hsigned := toInt_toInt8 (row.getD (s.headerLength + i) 0)
  unfold Scheme.storedCode
  rw [if_pos hbits, hbits, Gguf.codeAt_eight, hcode]
  dsimp only
  omega

/--
The codes of a part are those that are stored in its block.
-/
theorem Part.Of.codeAt_eq (h : p.Of s row) (hs : s ∈ Scheme.all) (hrow : row.length = s.bytes)
    (hi : i < 32) : (codeAt s.bits p.codes i : Int) = s.storedCode row i := by
  simp only [Scheme.all, List.mem_cons, List.not_mem_nil, or_false] at hs
  rcases hs with rfl | rfl | rfl
  . exact h.codeAt_four rfl rfl hrow hi
  . exact h.codeAt_four rfl rfl hrow hi
  . exact h.codeAt_eight rfl hrow hi

theorem keeps_of_eq_ok (hs : s ∈ Scheme.all) {name : String} {shape : List Nat}
    {payload : List UInt8} {q : Quantized} (hq : ofPayload name s shape payload = .ok q)
    : q.Keeps s payload (Shape.numel shape / 32) := by
  constructor
  . intro b hb i hi
    obtain ⟨p, hof, hlength, hcodes, _⟩ := exists_part_of_block hs hq hb
    rw [Nat.mul_comm 32 b, hcodes i hi]
    exact hof.codeAt_eq hs hlength hi
  . intro b hb
    obtain ⟨p, hof, hlength, _, hscale, _⟩ := exists_part_of_block hs hq hb
    have hle : 0 + 2 ≤ s.bytes := (Scheme.four_mul_bits_le hs).1
    rw [hscale, halfAt_bytes hof.scale, Widen.slice_slice hle, Nat.add_zero]
  . intro hstored b hb
    obtain ⟨p, hof, hlength, _, _, hbias⟩ := exists_part_of_block hs hq hb
    have hle : 2 + 2 ≤ s.bytes := by
      rw [← hlength]
      have hhalf := hof.stored hstored
      unfold halfAt at hhalf
      split at hhalf
      . next hle => exact hle
      . cases hhalf
    rw [hbias, halfAt_bytes (hof.stored hstored), Widen.slice_slice hle]

end Quantized

/--
Weights are unpacked exactly if there are whole blocks in a row and all of them are in the payload.
Each weight keeps its code, each block its scale and its bias, and no number on the way is too large
for a machine word.
-/
theorem ofPayload_keeps {s : Scheme} (hs : s ∈ Scheme.all) (name : String) {shape : List Nat}
    (hshape : Shape.Fits shape) (hlast : ∀ last ∈ shape.getLast?, last < 2 ^ 60)
    (payload : List UInt8)
    : ((∃ q, Quantized.ofPayload name s shape payload = .ok q) ↔
        (∃ last, shape.getLast? = some last ∧ last % 32 = 0) ∧
          Shape.numel shape / 32 * s.bytes ≤ payload.length) ∧
      ∀ q, Quantized.ofPayload name s shape payload = .ok q →
        q.Keeps s payload (Shape.numel shape / 32) ∧
        ∃ last, shape.getLast? = some last ∧
          q.weights.dtype = .u32 ∧ q.weights.shape = shape.dropLast ++ [last * s.bits / 32] ∧
          q.scales.dtype = .f16 ∧ q.scales.shape = shape.dropLast ++ [last / 32] ∧
          q.biases.dtype = .f16 ∧ q.biases.shape = shape.dropLast ++ [last / 32] ∧
          (payload.length < wordBound → ∀ n ∈ s.sizes shape last, n < wordBound) := by
  have hweights := Scheme.weights_of_mem hs
  have hbits (last : Nat) (h : shape.getLast? = some last) : last * s.bits < wordBound := by
    have hlt := hlast last h
    unfold wordBound
    rcases Scheme.bits_of_mem hs with hfour | height
    . rw [hfour]
      omega
    . rw [height]
      omega
  constructor
  . rw [Quantized.exists_ofPayload_iff hs, hweights, and_iff_right hshape.product]
    simp only [Scheme.lastDim_eq_ok_iff hs]
    apply and_congr_left
    intro _
    apply exists_congr
    intro last
    exact and_iff_left_of_imp fun h => hbits last h.1
  . intro q hq
    refine ⟨Quantized.keeps_of_eq_ok hs hq, ?_⟩
    obtain ⟨last, hdim, _, hrow, hlong, _, _, hcodes, hscales, hbiases⟩ :=
      (Quantized.ofPayload_eq_ok_iff hs).1 hq
    obtain ⟨hlast', hwhole⟩ := (Scheme.lastDim_eq_ok_iff hs).1 hdim
    obtain ⟨hcodes, hwords, _⟩ := Tensor.ofBytes_eq_ok_iff.1 hcodes
    obtain ⟨hscales, hgroups, _⟩ := Tensor.ofBytes_eq_ok_iff.1 hscales
    obtain ⟨hbiases, hgroups', _⟩ := Tensor.ofBytes_eq_ok_iff.1 hbiases
    rw [hweights] at hgroups hgroups'
    refine ⟨last, hlast', hcodes, hwords, hscales, hgroups, hbiases, hgroups', fun hpayload n hn => ?_⟩
    have hsize := Nat.lt_of_le_of_lt hlong hpayload
    rcases Scheme.sizes_lt hs hshape hlast' hwhole hsize n hn with hn | rfl
    . exact hn
    . exact hrow

/--
Two blocks with stored biases, the codes of one in the reverse order of the other.
-/
def crossedBlocks : List UInt8 :=
  [0x00, 0x34, 0x00, 0xBC] ++ (List.range 16).map (fun n => UInt8.ofNat (240 - 15 * n)) ++
    [0x00, 0x3C, 0x00, 0x40] ++ (List.range 16).map (fun n => UInt8.ofNat (15 + 15 * n))

theorem ofPayload_keeps_crossedBlocks
    : ∃ q, Quantized.ofPayload "w.weight" ⟨.q4_1, 32, 20, 4, .stored⟩ [2, 32] crossedBlocks = .ok q ∧
        q.weights.shape = [2, 4] ∧ q.scales.shape = [2, 1] ∧ q.biases.shape = [2, 1] ∧
        q.code 4 5 = 5 ∧ q.code 4 37 = 10 ∧ Widen.slice q.biases.data 2 2 = [0x00, 0x40] := by
  have hs : ⟨.q4_1, 32, 20, 4, .stored⟩ ∈ Scheme.all := by decide
  have hshape : Shape.Fits [2, 32] := ⟨by decide, by decide⟩
  obtain ⟨hiff, hkeeps⟩ := ofPayload_keeps hs "w.weight" hshape (by decide) crossedBlocks
  obtain ⟨q, hq⟩ := hiff.2 ⟨⟨32, rfl, rfl⟩, by decide⟩
  obtain ⟨⟨hcode, _, hbias⟩, last, hlast, _, hwords, _, hscales, _, hbiases, _⟩ := hkeeps q hq
  cases hlast
  have hfirst := hcode 0 (by decide) 5 (by decide)
  have hsecond := hcode 1 (by decide) 5 (by decide)
  exact ⟨q, hq, hwords, hscales, hbiases, Int.ofNat_inj.1 (hfirst.trans (by decide)),
    Int.ofNat_inj.1 (hsecond.trans (by decide)), hbias rfl 1 (by decide)⟩

end TensorFiles.Gguf
