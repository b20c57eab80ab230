import TensorFiles.Proofs.Bytes.LittleEndian
import TensorFiles.Proofs.Gguf.Blockwise
import TensorFiles.Proofs.Gguf.Decode
/-!
This module contains the agreement of the two ways to read quantized weights. Unpacked or widened,
a weight has the same code, scale and bias.
-/

namespace TensorFiles.Gguf

/--
The code of `bits` bits with the number `i` in a row of 32 bit words that hold the codes one after
the other, from the lowest bits on.
-/
def codeAt (bits : Nat) (packed : List UInt8) (i : Nat) : Nat :=
  let word := LittleEndian.decode (Widen.slice packed (4 * (i / (32 / bits))) 4)
  word / 2 ^ (bits * (i % (32 / bits))) % 2 ^ bits

/--
The weight that a code stands for, as single precision computes it.
-/
def Scheme.weight (s : Scheme) (code : Nat) (scale bias : Ieee.Single) : Ieee.Single :=
  match s.type with
  | .q4_0 => (Ieee.ofInt code - Ieee.ofInt 8) * scale
  | .q4_1 => Ieee.ofInt code * scale + bias
  | _ => Ieee.ofInt ((code : Int) - 128) * scale

namespace Quantized

/--
The code of the weight with the number `i`, in row-major order.
-/
def code (q : Quantized) (bits i : Nat) : Nat :=
  codeAt bits q.weights.data i

/--
The half precision number for the group that the weight with the number `i` is in.
-/
def ofGroup (t : Tensor) (i : Nat) : Ieee.Single :=
  Ieee.ofHalf (LittleEndian.decode (Widen.slice t.data (2 * (i / 32)) 2))

/--
The half precision numbers of a tensor are the weights.
-/
structure Agrees (q : Quantized) (s : Scheme) (x : Tensor) : Prop where
  dtype : x.dtype = .f16
  elements : ∀ i < x.numel, Widen.slice x.data (2 * i) 2
    = LittleEndian.encode 2
        (Ieee.toHalf (s.weight (q.code s.bits i) (ofGroup q.scales i) (ofGroup q.biases i)))

end Quantized

theorem codeAt_eight (packed : List UInt8) (i : Nat)
    : codeAt 8 packed i = (packed.getD i 0).toNat := by
  have hlt : i % 4 < 4 := Nat.mod_lt i (by decide)
  have hbyte := LittleEndian.decode_digit (Widen.slice packed (4 * (i / 4)) 4) (i % 4)
  rw [Widen.getD_slice hlt, Nat.div_add_mod] at hbyte
  unfold codeAt
  rw [Nat.pow_mul]
  exact hbyte

/--
A byte holds two codes of four bits, the first of them in its low half.
-/
theorem codeAt_four (packed : List UInt8) (i : Nat)
    : codeAt 4 packed i = (packed.getD (i / 2) 0).toNat / 16 ^ (i % 2) % 16 := by
  have hlt : i % 8 / 2 < 4 := by omega
  have hbyte := LittleEndian.decode_digit (Widen.slice packed (4 * (i / 8)) 4) (i % 8 / 2)
  have hindex : 4 * (i / 8) + i % 8 / 2 = i / 2 := by omega
  rw [Widen.getD_slice hlt, hindex] at hbyte
  have hexponent : 4 * (i % 8) = 8 * (i % 8 / 2) + 4 * (i % 2) := by omega
  unfold codeAt
  dsimp only [Nat.reduceDiv, Nat.reducePow]
  rw [hexponent, Nat.pow_add, Nat.pow_mul, Nat.pow_mul, ← Nat.div_div_eq_div_mul]
  have hbyte' : LittleEndian.decode (Widen.slice packed (4 * (i / 8)) 4) / (2 ^ 8) ^ (i % 8 / 2) % 256
      = (packed.getD (i / 2) 0).toNat := hbyte
  generalize LittleEndian.decode _ / (2 ^ 8) ^ _ = word at hbyte'
  rcases Nat.mod_two_eq_zero_or_one i with h | h
  . rw [h]
    omega
  . rw [h]
    omega

theorem toNat_lowHalf (b : UInt8) : (b &&& 0x0F).toNat = b.toNat % 16 := by
  rw [UInt8.toNat_and]
  exact Nat.and_two_pow_sub_one_eq_mod _ 4

theorem toNat_highHalf (b : UInt8) : (b >>> 4).toNat = b.toNat / 16 := by
  rw [UInt8.toNat_shiftRight]
  exact Nat.shiftRight_eq_div_pow _ 4

theorem nibble_lt (b : UInt8) : (b &&& 0x0F).toNat < 16 ∧ (b >>> 4).toNat < 16 := by
  have hb := b.toNat_lt
  rw [toNat_lowHalf, toNat_highHalf]
  omega

theorem nibbleAt_lt {codes : List UInt8} {i : Nat} {b : UInt8} (h : nibbleAt codes i = .ok b)
    : b.toNat < 16 := by
  unfold nibbleAt at h
  split at h
  . cases h
    exact (nibble_lt _).1
  . split at h
    . cases h
      exact (nibble_lt _).2
    . cases h

theorem toNat_or_shiftLeft {low high : UInt8} (hlow : low.toNat < 16) (hhigh : high.toNat < 16)
    : (low ||| (high <<< 4)).toNat = low.toNat + 16 * high.toNat := by
  have hlow' : low.toNat < 2 ^ 4 := hlow
  have hor := Nat.shiftLeft_add_eq_or_of_lt hlow' high.toNat
  rw [UInt8.toNat_or, UInt8.toNat_shiftLeft, Nat.or_comm]
  simp only [UInt8.reduceToNat, Nat.reduceMod, Nat.shiftLeft_eq, Nat.reducePow] at hor ⊢
  rw [Nat.mod_eq_of_lt (by omega), ← hor]
  omega

/--
Codes of four bits are put together in the order in which they are asked for.
-/
theorem getD_packNibbles {codes packed : List UInt8} {start count : Nat}
    (h : Quantized.packNibbles codes start count = .ok packed) {k : Nat} (hk : k < count)
    : ∃ low high, nibbleAt codes (2 * (start + k)) = .ok low ∧
        nibbleAt codes (2 * (start + k) + 1) = .ok high ∧
        packed.getD k 0 = low ||| (high <<< 4) := by
  induction count generalizing start packed k with
  | zero => omega
  | succ count ih =>
    unfold Quantized.packNibbles at h
    simp only [bind_eq_ok_iff, pure_eq_ok_iff] at h
    obtain ⟨low, hlow, high, hhigh, rest, hrest, rfl⟩ := h
    cases k with
    | zero => exact ⟨low, high, hlow, hhigh, rfl⟩
    | succ k =>
      have hstep : start + (k + 1) = start + 1 + k := by omega
      rw [hstep]
      exact ih hrest (by omega)

theorem codeAt_packNibbles {codes packed : List UInt8} {count : Nat}
    (h : Quantized.packNibbles codes 0 count = .ok packed) {j : Nat} (hj : j < 2 * count)
    : ∃ b, nibbleAt codes j = .ok b ∧ codeAt 4 packed j = b.toNat := by
  have hhalf : j / 2 < count := by omega
  obtain ⟨low, high, hlow, hhigh, hbyte⟩ := getD_packNibbles h hhalf
  rw [codeAt_four, hbyte, toNat_or_shiftLeft (nibbleAt_lt hlow) (nibbleAt_lt hhigh)]
  have := nibbleAt_lt hlow
  have := nibbleAt_lt hhigh
  rcases Nat.mod_two_eq_zero_or_one j with hodd | hodd
  . have hj' : 2 * (0 + j / 2) = j := by omega
    rw [hj'] at hlow
    refine ⟨low, hlow, ?_⟩
    rw [hodd]
    omega
  . have hj' : 2 * (0 + j / 2) + 1 = j := by omega
    rw [hj'] at hhigh
    refine ⟨high, hhigh, ?_⟩
    rw [hodd]
    omega

theorem getElem?_nibbles {codes : List UInt8} {j : Nat} {b : UInt8} (h : nibbleAt codes j = .ok b)
    : (Widen.nibbles codes)[j]? = some (b.toNat : Int) := by
  unfold nibbleAt at h
  unfold Widen.nibbles
  split at h
  . next hlow =>
    cases h
    rw [List.getElem?_append_left (by simpa using hlow), List.getElem?_map,
      List.getD_eq_getElem?_getD, List.getElem?_eq_getElem hlow]
    rfl
  . next hlow =>
    split at h
    . next hhigh =>
      cases h
      have hindex : j - codes.length < codes.length := by omega
      rw [List.getElem?_append_right (by simpa using hlow), List.length_map, List.getElem?_map,
        List.getD_eq_getElem?_getD, List.getElem?_eq_getElem hindex]
      rfl
    . cases h

theorem toInt_toInt8 (b : UInt8) : b.toInt8.toInt = ((b ^^^ 0x80).toNat : Int) - 128 := by
  have hall : ∀ n < 256,
      (UInt8.ofNat n).toInt8.toInt = ((UInt8.ofNat n ^^^ 0x80).toNat : Int) - 128 := by
    decide +kernel
  rw [← UInt8.ofNat_toNat (x := b)]
  exact hall b.toNat b.toNat_lt

theorem halfAt_eq_ok {block : List UInt8} {offset n : Nat} (h : halfAt block offset = .ok n)
    : n = LittleEndian.decode (Widen.slice block offset 2) ∧ n < LittleEndian.bound 2 := by
  unfold halfAt at h
  split at h
  . next hle =>
    cases h
    refine ⟨rfl, ?_⟩
    have hlength : ((block.drop offset).take 2).length = 2 := Widen.length_slice hle
    have := LittleEndian.decode_lt ((block.drop offset).take 2)
    rw [hlength] at this
    exact this
  . cases h

theorem Ieee.toHalf_lt (x : Ieee.Single) : Ieee.toHalf x < LittleEndian.bound 2 := by
  unfold Ieee.toHalf Ieee.convert
  split
  . exact BitVec.isLt _
  . exact BitVec.isLt _

namespace Quantized

/--
What a block that is taken apart gives.
-/
structure Part.Of (p : Part) (s : Scheme) (row : List UInt8) : Prop where
  scale : halfAt row 0 = .ok p.scale
  stored : s.bias = .stored → halfAt row 2 = .ok p.bias
  bias_lt : p.bias < LittleEndian.bound 2
  four : s.bits = 4 → packNibbles (row.drop s.headerLength) 0 s.packedLength = .ok p.codes
  eight : s.bits = 8 → p.codes = (row.drop s.headerLength).map (· ^^^ 0x80)

variable {s : Scheme} {name : String} {row : List UInt8} {p : Part} {j : Nat}

theorem part_of_eq_ok (hs : s ∈ Scheme.all) (h : part name s row = .ok p) : p.Of s row := by
  unfold part at h
  simp only [Scheme.all, List.mem_cons, List.not_mem_nil, or_false] at hs
  rcases hs with rfl | rfl | rfl
  . simp only [bind_eq_ok_iff, pure_eq_ok_iff] at h
    obtain ⟨scale, hscale, bias, hbias, packed, hpacked, rfl⟩ := h
    cases hbias
    exact ⟨hscale, by simp, Ieee.toHalf_lt _, fun _ => hpacked, by simp⟩
  . simp only [bind_eq_ok_iff, pure_eq_ok_iff] at h
    obtain ⟨scale, hscale, bias, hbias, packed, hpacked, rfl⟩ := h
    exact ⟨hscale, fun _ => hbias, (halfAt_eq_ok hbias).2, fun _ => hpacked, by simp⟩
  . simp only [bind_eq_ok_iff, pure_eq_ok_iff] at h
    obtain ⟨scale, hscale, bias, hbias, rfl⟩ := h
    cases hbias
    exact ⟨hscale, by simp, Ieee.toHalf_lt _, by simp, fun _ => rfl⟩

/--
A weight of a block is the one that its part of the unpacked tensors stands for.
-/
theorem Part.Of.getElem?_block (h : p.Of s row) (hs : s ∈ Scheme.all) (hrow : row.length = s.bytes)
    {decode : List UInt8 → List Ieee.Single} (hdecode : Widen.block? s.type = some decode)
    (hj : j < 32)
    : (decode row)[j]?
        = some (s.weight (codeAt s.bits p.codes j) (Ieee.ofHalf p.scale) (Ieee.ofHalf p.bias)) := by
  have hscale := (halfAt_eq_ok h.scale).1
  simp only [Scheme.all, List.mem_cons, List.not_mem_nil, or_false] at hs
  rcases hs with rfl | rfl | rfl
  . cases hdecode
    have hpacked : packNibbles (row.drop 2) 0 16 = .ok p.codes := h.four rfl
    obtain ⟨b, hb, hcode⟩ := codeAt_packNibbles hpacked hj
    have hcodes : Widen.slice row 2 16 = row.drop 2 := Widen.slice_eq_drop hrow
    unfold Widen.q4_0
    dsimp only
    rw [hcodes, List.getElem?_map, getElem?_nibbles hb, hcode, hscale]
    rfl
  . cases hdecode
    have hbias := (halfAt_eq_ok (h.stored rfl)).1
    have hpacked : packNibbles (row.drop 4) 0 16 = .ok p.codes := h.four rfl
    obtain ⟨b, hb, hcode⟩ := codeAt_packNibbles hpacked hj
    have hcodes : Widen.slice row 4 16 = row.drop 4 := Widen.slice_eq_drop hrow
    unfold Widen.q4_1
    dsimp only
    rw [hcodes, List.getElem?_map, getElem?_nibbles hb, hcode, hscale, hbias]
    rfl
  . cases hdecode
    have hcodes : Widen.slice row 2 32 = row.drop 2 := Widen.slice_eq_drop hrow
    have hlt : j < (row.drop 2).length := by
      rw [List.length_drop, hrow]
      exact hj
    have hcode : codeAt 8 p.codes j = ((row.drop 2)[j] ^^^ 0x80).toNat := by
      rw [codeAt_eight, h.eight rfl, List.getD_eq_getElem?_getD, List.getElem?_map]
      dsimp only [Scheme.headerLength]
      rw [List.getElem?_eq_getElem hlt]
      rfl
    unfold Widen.q8_0
    dsimp only
    rw [hcodes, List.getElem?_map, List.getElem?_eq_getElem hlt, hcode, hscale, Option.map_some,
      toInt_toInt8]
    rfl

/--
The codes of a block stand together among those of all blocks.
-/
theorem codeAt_flatMap {bits : Nat} {f : α → List UInt8} {l : List α} {a : α} {k : Nat}
    (hbits : bits = 4 ∨ bits = 8) (h : ∀ a ∈ l, (f a).length = bits * 4) (hk : l[k]? = some a)
    (hj : j < 32) : codeAt bits (l.flatMap f) (k * 32 + j) = codeAt bits (f a) j := by
  unfold codeAt Widen.slice
  rcases hbits with rfl | rfl
  . have hword : 4 * (j / 8) + 4 ≤ 4 * 4 := by omega
    have hbits : (k * 32 + j) % 8 = j % 8 := by omega
    have hindex : 4 * ((k * 32 + j) / 8) = k * (4 * 4) + 4 * (j / 8) := by omega
    have hpiece := take_drop_flatMap_of_forall h hk hword
    dsimp only [Nat.reduceDiv]
    rw [hindex, hbits, hpiece]
  . have hword : 4 * (j / 4) + 4 ≤ 8 * 4 := by omega
    have hbits : (k * 32 + j) % 4 = j % 4 := by omega
    have hindex : 4 * ((k * 32 + j) / 4) = k * (8 * 4) + 4 * (j / 4) := by omega
    have hpiece := take_drop_flatMap_of_forall h hk hword
    dsimp only [Nat.reduceDiv]
    rw [hindex, hbits, hpiece]

theorem slice_halves {f : Part → Nat} {parts : List Part} {p : Part} {k : Nat}
    (hk : parts[k]? = some p)
    : Widen.slice (halves (parts.map f)) (2 * k) 2 = LittleEndian.encode 2 (f p) := by
  unfold halves
  rw [List.flatMap_map]
  exact Widen.slice_flatMap_encode hk

/--
What the unpacked tensors hold of the block `k` comes from the part of that block.
-/
theorem exists_part_of_block (hs : s ∈ Scheme.all) {shape : List Nat} {payload : List UInt8}
    {q : Quantized} (hq : ofPayload name s shape payload = .ok q) {k : Nat}
    (hk : k < Shape.numel shape / 32)
    : ∃ p : Part, p.Of s (Widen.slice payload (k * s.bytes) s.bytes) ∧
        (Widen.slice payload (k * s.bytes) s.bytes).length = s.bytes ∧
        (∀ j < 32, q.code s.bits (k * 32 + j) = codeAt s.bits p.codes j) ∧
        Widen.slice q.scales.data (2 * k) 2 = LittleEndian.encode 2 p.scale ∧
        Widen.slice q.biases.data (2 * k) 2 = LittleEndian.encode 2 p.bias := by
  obtain ⟨last, _, _, _, hlong, parts, hparts, hweights, hscales, hbiases⟩ :=
    (ofPayload_eq_ok_iff hs).1 hq
  obtain ⟨_, _, hweights⟩ := Tensor.ofBytes_eq_ok_iff.1 hweights
  obtain ⟨_, _, hscales⟩ := Tensor.ofBytes_eq_ok_iff.1 hscales
  obtain ⟨_, _, hbiases⟩ := Tensor.ofBytes_eq_ok_iff.1 hbiases
  rw [Scheme.weights_of_mem hs] at hparts hlong
  have hrow : (blocks s.bytes (Shape.numel shape / 32) payload)[k]?
      = some (Widen.slice payload (k * s.bytes) s.bytes) := getElem?_blocks payload hk
  obtain ⟨p, hpart, hp⟩ := exists_getElem?_of_forall₂ hparts hrow
  have hcodes : ∀ p ∈ parts, p.codes.length = s.bits * 4 := by
    intro p' hp'
    obtain ⟨row, hmem, hrow'⟩ := exists_left_of_forall₂ hparts hp'
    obtain ⟨p'', hp'', hcodes⟩ := exists_part hs name (length_of_mem_blocks hlong row hmem)
    rw [hrow', Except.ok.injEq] at hp''
    rw [hp'', hcodes, Scheme.packedLength_of_mem hs]
  refine ⟨p, part_of_eq_ok hs hp, length_of_mem_blocks hlong _ (List.mem_of_getElem? hrow), ?_, ?_,
    ?_⟩
  . intro j hj
    unfold code
    rw [hweights, codeAt_flatMap (Scheme.bits_of_mem hs) hcodes hpart hj]
  . rw [hscales, slice_halves hpart]
  . rw [hbiases, slice_halves hpart]

/--
Both ways to read a payload give the same weights.
-/
theorem agrees_of_eq_ok (hs : s ∈ Scheme.all) {name' : String} {shape : List Nat}
    {payload : List UInt8} {q : Quantized} {x : Tensor}
    (hq : ofPayload name s shape payload = .ok q) (hx : widen name' s.type shape payload = .ok x)
    : q.Agrees s x := by
  obtain ⟨decode, hdecode⟩ := exists_block?_of_widen hx
  obtain ⟨⟨hwhole, _⟩, hdtype, hshape, _⟩ := (widen_eq_ok_iff_stored hdecode).1 hx
  obtain ⟨hblock, hbytes⟩ := Scheme.bytes_of_mem hs
  rw [Scheme.weights_of_mem hs] at hblock
  rw [← hblock] at hwhole
  refine ⟨hdtype, fun i hi => ?_⟩
  unfold Tensor.numel at hi
  rw [hshape] at hi
  -- the weight is number `j` in block `k`
  have hk : i / 32 < Shape.numel shape / 32 := by omega
  have hj : i % 32 < 32 := Nat.mod_lt i (by decide)
  have hi' : i / 32 * 32 + i % 32 = i := Nat.div_add_mod' i 32
  obtain ⟨p, hof, hlength, hcodes, hscale, hbias⟩ := exists_part_of_block hs hq hk
  have hcode : q.code s.bits i = codeAt s.bits p.codes (i % 32) := by
    rw [← hcodes _ hj, hi']
  have hscale : ofGroup q.scales i = Ieee.ofHalf p.scale := by
    unfold ofGroup
    rw [hscale, LittleEndian.decode_encode_of_lt (halfAt_eq_ok hof.scale).2]
  have hbias : ofGroup q.biases i = Ieee.ofHalf p.bias := by
    unfold ofGroup
    rw [hbias, LittleEndian.decode_encode_of_lt hof.bias_lt]
  have helement := slice_of_widen hdecode hx (b := i / 32) (n := i % 32)
  rw [← hblock, ← hbytes, hi'] at helement
  rw [helement hk hj (hof.getElem?_block hs hlength hdecode hj), hcode, hscale, hbias]

/--
Names only stand in the faults of blocks.
-/
theorem part_rename (hs : s ∈ Scheme.all) (name name' : String) : part name' s = part name s := by
  simp only [Scheme.all, List.mem_cons, List.not_mem_nil, or_false] at hs
  rcases hs with rfl | rfl | rfl
  . rfl
  . rfl
  . rfl

theorem ofPayload_rename (hs : s ∈ Scheme.all) {shape : List Nat} {payload : List UInt8}
    {q : Quantized} (h : ofPayload name s shape payload = .ok q) (name' : String)
    : ofPayload name' s shape payload = .ok q := by
  obtain ⟨last, hlast, hsmall, hbits, hlong, parts, hparts, htensors⟩ := (ofPayload_eq_ok_iff hs).1 h
  refine (ofPayload_eq_ok_iff hs).2 ⟨last, ?_, hsmall, hbits, hlong, parts, ?_, htensors⟩
  . rw [Scheme.lastDim_eq_ok_iff hs] at hlast ⊢
    exact hlast
  . rw [part_rename hs name name']
    exact hparts

end Quantized

theorem unpacking?_of_not_isWeightName {name : String} (h : isWeightName name = false)
    (type : TensorType) : unpacking? name type = none := by
  unfold unpacking?
  rw [if_neg]
  rw [h]
  decide

theorem Scheme.ofType?_type {s : Scheme} (hs : s ∈ Scheme.all)
    : Scheme.ofType? s.type = some s ∧ s.type.dtype? = none ∧ (Widen.block? s.type).isSome := by
  simp only [Scheme.all, List.mem_cons, List.not_mem_nil, or_false] at hs
  rcases hs with rfl | rfl | rfl
  . exact ⟨rfl, rfl, rfl⟩
  . exact ⟨rfl, rfl, rfl⟩
  . exact ⟨rfl, rfl, rfl⟩

/--
What a file gives of the payload of quantized weights: the tensors of `q` if the descriptor is called
as weights are, and else the tensor `x`.
-/
def DecodedByName (s : Scheme) (shape : List Nat) (payload : List UInt8) (q : Quantized) (x : Tensor)
    : Prop :=
  ∀ (c : Container) (t : Descriptor), t.type = s.type → t.shape = shape →
    c.payload t = .ok payload →
      (∀ stem, stem ≠ "" → c.decode { t with name := stem ++ ".weight" }
        = .ok [(stem ++ ".weight", q.weights), (scalesName stem, q.scales),
            (biasesName stem, q.biases)]) ∧
      ∀ name, isWeightName name = false →
        c.decode { t with name } = .ok [(name, x)]

theorem decodedByName_of_eq_ok {s : Scheme} (hs : s ∈ Scheme.all) {shape : List Nat}
    {payload : List UInt8} {q : Quantized} {x : Tensor} {name name' : String}
    (hq : Quantized.ofPayload name s shape payload = .ok q)
    (hx : widen name' s.type shape payload = .ok x) : DecodedByName s shape payload q x := by
  obtain ⟨hofType, hdtype, _⟩ := Scheme.ofType?_type hs
  obtain ⟨last, hlast, _⟩ := (Quantized.ofPayload_eq_ok_iff hs).1 hq
  rintro c t htype rfl hpayload
  constructor
  . intro stem hstem
    have hunpack : unpacking? (stem ++ ".weight") t.type = some (s, stem) :=
      unpacking?_eq_some_iff.2 ⟨by rw [htype, hofType], rfl, hstem⟩
    unfold Container.decode
    dsimp only
    rw [hunpack]
    simp only [bind_eq_ok_iff, pure_eq_ok_iff, Scheme.lastDim_eq_ok_iff hs] at hlast ⊢
    exact ⟨last, hlast, payload, Container.payload_rename hpayload _, q,
      Quantized.ofPayload_rename hs hq _, rfl⟩
  . intro name hname
    unfold Container.decode
    dsimp only
    rw [unpacking?_of_not_isWeightName hname, htype, hdtype]
    simp only [bind_eq_ok_iff, pure_eq_ok_iff]
    exact ⟨payload, htype ▸ Container.payload_rename hpayload _, x, widen_rename hx _, rfl⟩

section

variable {s : Scheme} (hs : s ∈ Scheme.all) {shape : List Nat} {last : Nat}
  (hlast : shape.getLast? = some last) (hwhole : last % 32 = 0) {payload : List UInt8}
  (hlong : Shape.numel shape / 32 * s.bytes ≤ payload.length)
include hs hlast hwhole hlong

theorem exists_ofPayload_and_widen (hsize : payload.length < wordBound) (hsmall : Shape.Small shape)
    (hbits : last * s.bits < wordBound)
    : ∃ q x, Quantized.ofPayload "" s shape payload = .ok q ∧
        widen "" s.type shape payload = .ok x := by
  obtain ⟨hblock, hbytes⟩ := Scheme.bytes_of_mem hs
  have hlast' : s.lastDim "" shape = .ok last := (Scheme.lastDim_eq_ok_iff hs).2 ⟨hlast, hwhole⟩
  rw [Scheme.weights_of_mem hs] at hblock
  obtain ⟨q, hq⟩ : ∃ q, Quantized.ofPayload "" s shape payload = .ok q := by
    rw [Quantized.exists_ofPayload_iff hs, Scheme.weights_of_mem hs]
    exact ⟨⟨last, hlast', hbits⟩, hsmall, hlong⟩
  have hwidenable : Widenable s.type shape payload := by
    refine ⟨Widen.isSome_block?_iff_mem.1 (Scheme.ofType?_type hs).2.2, ?_, ?_⟩
    . rw [← hblock]
      exact Nat.dvd_of_mod_eq_zero (numel_mod_of_getLast? hlast hwhole)
    . rw [TensorType.lengthOf, ← hblock, ← hbytes]
      exact hlong
  obtain ⟨x, hx⟩ : ∃ x, widen "" s.type shape payload = .ok x :=
    (exists_widen_iff_widenable hsize).2 ⟨hsmall, hwidenable⟩
  exact ⟨q, x, hq, hx⟩

/--
A payload of quantized weights that is long enough is both unpacked and widened, to the same
weights, whatever its tensor is called, and it is the name of the tensor that decides which of the
two a file gives. The numbers on the way have to fit machine words, which they do if there are any
weights. Wherever both results are there, they are the same weights.
-/
theorem exists_agrees (hsize : payload.length < wordBound)
    : (Shape.Small shape → last * s.bits < wordBound →
        ∃ q x, (∀ name, Quantized.ofPayload name s shape payload = .ok q) ∧
          (∀ name, widen name s.type shape payload = .ok x) ∧ x.shape = shape ∧ q.Agrees s x ∧
          DecodedByName s shape payload q x) ∧
      (Shape.numel shape ≠ 0 → payload.length < longPayload →
        Shape.Small shape ∧ last * s.bits < wordBound) ∧
      ∀ name name' q x, Quantized.ofPayload name s shape payload = .ok q →
        widen name' s.type shape payload = .ok x → q.Agrees s x := by
  refine ⟨fun hsmall hbits => ?_, fun hsome hlt => ?_, fun _ _ _ _ => Quantized.agrees_of_eq_ok hs⟩
  . obtain ⟨q, x, hq, hx⟩ :=
      exists_ofPayload_and_widen hs hlast hwhole hlong hsize hsmall hbits
    obtain ⟨_, _, _, _, _, hx'⟩ := widen_eq_ok_iff.1 hx
    exact ⟨q, x, Quantized.ofPayload_rename hs hq, widen_rename hx,
      (Tensor.ofBytes_eq_ok_iff.1 hx').2.1, Quantized.agrees_of_eq_ok hs hq hx,
      decodedByName_of_eq_ok hs hq hx⟩
  . rw [← Scheme.weights_of_mem hs] at hlong
    exact Scheme.fits_of_numel_ne_zero hs hlast hwhole hsome hlong hlt

end

/--
A block of the numbers from -8 to 7, twice, at the scale 1.
-/
def rampBlock : List UInt8 :=
  [0x00, 0x3C] ++ (List.range 16).map (fun n => UInt8.ofNat (17 * n))

theorem exists_agrees_rampBlock
    : ∃ q x, (∀ name, Quantized.ofPayload name ⟨.q4_0, 32, 18, 4, .derived (-8)⟩ [32] rampBlock
        = .ok q) ∧
      (∀ name, widen name .q4_0 [32] rampBlock = .ok x) ∧
        q.Agrees ⟨.q4_0, 32, 18, 4, .derived (-8)⟩ x := by
  have hs : ⟨.q4_0, 32, 18, 4, .derived (-8)⟩ ∈ Scheme.all := List.mem_cons_self
  have hlast : [32].getLast? = some 32 := rfl
  have hlong : Shape.numel [32] / 32 * 18 ≤ rampBlock.length := by decide
  obtain ⟨hboth, hfits, _⟩ := exists_agrees hs hlast (by decide) hlong (by decide)
  obtain ⟨hsmall, hbits⟩ := hfits (by decide) (by decide)
  obtain ⟨q, x, hq, hx, _, hagrees, _⟩ := hboth hsmall hbits
  exact ⟨q, x, hq, hx, hagrees⟩

end TensorFiles.Gguf
