import TensorFiles.Proofs.Gguf.Container.Written
import TensorFiles.Proofs.Gguf.Load
import TensorFiles.Proofs.Gguf.Repack
import TensorFiles.Proofs.Gguf.Widen
/-!
This module contains what the payload of a descriptor gives: the names of its tensors, and when
there are any. A payload that is there only fails to decode for its type, or for the last
dimension of a weight, which may also be too large for the bits of a row to be counted.
-/

namespace TensorFiles.Gguf

theorem weightStem?_eq_some_iff {name stem : String}
    : weightStem? name = some stem ↔ name = stem ++ ".weight" := by
  have hending : ".weight".toList = weightEnding := rfl
  unfold weightStem? Text.dropEnd?
  rw [Option.map_map, Option.map_eq_some_iff]
  simp only [Text.dropStart?_eq_some_iff, Function.comp_apply]
  constructor
  . rintro ⟨rest, hrest, rfl⟩
    rw [List.reverse_eq_iff, List.reverse_append, List.reverse_reverse] at hrest
    apply String.toList_inj.1
    rw [hrest, String.toList_append, String.toList_ofList, hending]
  . rintro rfl
    refine ⟨stem.toList.reverse, ?_, ?_⟩
    . rw [String.toList_append, List.reverse_append, hending]
    . rw [List.reverse_reverse, String.ofList_toList]

/--
The types whose weights are kept quantized.
-/
def keptTypes : List TensorType := [.q4_0, .q4_1, .q8_0]

/--
The types that no payload is decoded of.
-/
def undecodableTypes : List TensorType := [.q8_1, .q2_k, .q3_k, .q5_k, .q8_k]

/--
The descriptor is one of quantized weights: `stem` is what its name begins with.
-/
def Descriptor.Unpacks (t : Descriptor) (stem : String) : Prop :=
  t.type ∈ keptTypes ∧ t.name = stem ++ ".weight" ∧ stem ≠ ""

/--
The last dimension of quantized weights is a whole number of blocks.
-/
def Descriptor.Divisible (t : Descriptor) : Prop :=
  ∀ stem, t.Unpacks stem → ∃ last, t.shape.getLast? = some last ∧ last % 32 = 0

/--
The number of bits in a row of quantized weights.
-/
def Descriptor.rowBits (t : Descriptor) : Nat :=
  match unpacking? t.name t.type with
  | some (s, _) => t.shape.getLastD 0 * s.bits
  | none => 0

/--
The names of the tensors that a payload gives.
-/
def Descriptor.producedNames (t : Descriptor) : List String :=
  match weightStem? t.name with
  | some stem =>
    if t.type ∈ keptTypes ∧ stem ≠ "" then
      [t.name, stem ++ ".scales", stem ++ ".biases"]
    else
      [t.name]
  | none => [t.name]

theorem Scheme.exists_ofType?_iff {type : TensorType}
    : (∃ s, Scheme.ofType? type = some s) ↔ type ∈ keptTypes := by
  cases type <;> simp [Scheme.ofType?, Scheme.all, keptTypes]

theorem Scheme.mem_of_ofType? {type : TensorType} {s : Scheme} (h : Scheme.ofType? type = some s)
    : s ∈ Scheme.all ∧ s.type = type := by
  have hfound := List.find?_some h
  exact ⟨List.mem_of_find?_eq_some h, by simpa using hfound⟩

theorem Scheme.bytes_of_mem {s : Scheme} (hs : s ∈ Scheme.all)
    : s.weights = s.type.blockSize ∧ s.bytes = s.type.blockBytes := by
  simp only [Scheme.all, List.mem_cons, List.not_mem_nil, or_false] at hs
  rcases hs with rfl | rfl | rfl <;> exact ⟨rfl, rfl⟩

theorem unpacking?_eq_some_iff {name : String} {type : TensorType} {s : Scheme} {stem : String}
    : unpacking? name type = some (s, stem) ↔
      Scheme.ofType? type = some s ∧ name = stem ++ ".weight" ∧ stem ≠ "" := by
  rw [← weightStem?_eq_some_iff]
  unfold unpacking? isWeightName
  cases weightStem? name with
  | none => simp
  | some stem' =>
    cases Scheme.ofType? type with
    | none => simp
    | some s' =>
      dsimp only
      by_cases hempty : stem' = ""
      . subst hempty
        simp [eq_comm]
      . rw [if_pos (by simpa using hempty)]
        simp only [Option.some.injEq, Prod.mk.injEq]
        constructor
        . rintro ⟨rfl, rfl⟩
          exact ⟨rfl, rfl, hempty⟩
        . rintro ⟨rfl, rfl, _⟩
          exact ⟨rfl, rfl⟩

namespace Descriptor

variable {t : Descriptor} {s : Scheme} {stem : String}

theorem unpacks_iff : t.Unpacks stem ↔ ∃ s, unpacking? t.name t.type = some (s, stem) := by
  simp only [unpacking?_eq_some_iff, exists_and_right, Scheme.exists_ofType?_iff, Unpacks]

theorem producedNames_of_unpacks (h : t.Unpacks stem)
    : t.producedNames = [t.name, scalesName stem, biasesName stem] := by
  obtain ⟨htype, hname, hempty⟩ := h
  unfold producedNames
  rw [weightStem?_eq_some_iff.2 hname]
  dsimp only
  rw [if_pos ⟨htype, hempty⟩]
  rfl

theorem producedNames_of_not_unpacks (h : ∀ stem, ¬ t.Unpacks stem)
    : t.producedNames = [t.name] := by
  unfold producedNames
  split
  . next stem hstem =>
    rw [if_neg]
    rintro ⟨htype, hempty⟩
    exact h stem ⟨htype, weightStem?_eq_some_iff.1 hstem, hempty⟩
  . rfl

theorem not_unpacks_of_unpacking? (h : unpacking? t.name t.type = none) (stem : String)
    : ¬ t.Unpacks stem := by
  rw [unpacks_iff, h]
  simp

/--
The stem is determined by the name, so it is the last dimension of one shape that counts.
-/
theorem divisible_iff_of_unpacking? (h : unpacking? t.name t.type = some (s, stem))
    : t.Divisible ↔ ∃ last, s.lastDim t.name t.shape = .ok last := by
  have hs := (Scheme.mem_of_ofType? (unpacking?_eq_some_iff.1 h).1).1
  simp only [Scheme.lastDim_eq_ok_iff hs]
  constructor
  . intro hdiv
    exact hdiv stem (unpacks_iff.2 ⟨s, h⟩)
  . intro hlast _ _
    exact hlast

theorem rowBits_eq {last : Nat} (h : unpacking? t.name t.type = some (s, stem))
    (hlast : t.shape.getLast? = some last) : t.rowBits = last * s.bits := by
  unfold rowBits
  rw [h, List.getLastD_eq_getLast?, hlast]
  rfl

theorem rowBits_eq_zero (h : unpacking? t.name t.type = none) : t.rowBits = 0 := by
  unfold rowBits
  rw [h]

/--
Only a dimension of that many elements gives a row more bits than fit a machine word.
-/
theorem rowBits_lt (hdims : ∀ n ∈ t.shape, n < 2 ^ 60) : t.rowBits < wordBound := by
  cases h : unpacking? t.name t.type with
  | none =>
    rw [rowBits_eq_zero h]
    decide
  | some u =>
    obtain ⟨s, stem⟩ := u
    have hs := (Scheme.mem_of_ofType? (unpacking?_eq_some_iff.1 h).1).1
    cases hlast : t.shape.getLast? with
    | none =>
      unfold rowBits
      rw [h, List.getLastD_eq_getLast?, hlast]
      dsimp only [Option.getD_none]
      rw [Nat.zero_mul]
      decide
    | some last =>
      have hlt := hdims last (List.mem_of_getLast? hlast)
      rw [rowBits_eq h hlast]
      unfold wordBound
      rcases Scheme.bits_of_mem hs with hbits | hbits <;> rw [hbits] <;> omega

end Descriptor

theorem Widen.isSome_block?_iff {type : TensorType} (h : type.dtype? = none)
    : (block? type).isSome ↔ type ∉ undecodableTypes := by
  cases type <;> simp only [TensorType.dtype?, reduceCtorEq] at h <;> decide

theorem TensorType.not_mem_undecodableTypes_of_dtype? {type : TensorType} {dtype : DType}
    (h : type.dtype? = some dtype) : type ∉ undecodableTypes := by
  cases type <;> simp only [dtype?, reduceCtorEq] at h <;> decide

namespace Container

variable {c : Container} {t : Descriptor}

theorem length_of_range? {data bytes : List UInt8} {start size : Nat}
    (h : range? data start size = some bytes) : bytes.length = size := by
  unfold range? at h
  split at h
  . next hle =>
    rw [Option.some.injEq] at h
    rw [← h, List.length_take, List.length_drop]
    omega
  . simp at h

theorem payload_eq_ok_iff {bytes : List UInt8}
    : c.payload t = .ok bytes ↔ c.expectSection "tensor_data" .data = .ok () ∧
        t.offset % c.alignment = 0 ∧ ∃ data size start, c.data = .ok data ∧
          t.byteSize = .ok size ∧ c.dataStart = .ok start ∧
          range? data (start + t.offset) size = some bytes := by
  unfold payload
  simp only [bind_eq_ok_iff]
  constructor
  . rintro ⟨_, hsection, data, hdata, h⟩
    split at h
    . rw [bind_eq_ok_iff] at h
      obtain ⟨_, h, _⟩ := h
      exact absurd h throw_ne_ok
    . next haligned =>
      simp only [bind_eq_ok_iff] at h
      obtain ⟨size, hsize, start, hstart, h⟩ := h
      split at h
      . next found hrange =>
        rw [pure_eq_ok_iff] at h
        rw [h] at hrange
        exact ⟨hsection, Decidable.not_not.1 haligned, data, size, start, hdata, hsize, hstart,
          hrange⟩
      . simp at h
  . rintro ⟨hsection, haligned, data, size, start, hdata, hsize, hstart, hrange⟩
    refine ⟨(), hsection, data, hdata, ?_⟩
    rw [if_neg (Decidable.not_not.2 haligned)]
    simp only [bind_eq_ok_iff]
    refine ⟨size, hsize, start, hstart, ?_⟩
    rw [hrange]
    rfl

theorem byteSize_of_payload {bytes : List UInt8} (h : c.payload t = .ok bytes)
    : t.byteSize = .ok bytes.length := by
  obtain ⟨_, _, _, size, _, _, hsize, _, hrange⟩ := payload_eq_ok_iff.1 h
  rw [hsize, length_of_range? hrange]

/--
Names only stand in the faults of payloads.
-/
theorem payload_rename {bytes : List UInt8} (h : c.payload t = .ok bytes) (name : String)
    : c.payload { t with name } = .ok bytes := by
  obtain ⟨hsection, haligned, data, size, start, hdata, hsize, hstart, hrange⟩ :=
    payload_eq_ok_iff.1 h
  have hsize' : Descriptor.byteSize { t with name } = .ok size := by
    rw [Descriptor.byteSize_eq_ok_iff] at hsize ⊢
    exact hsize
  exact payload_eq_ok_iff.2
    ⟨hsection, haligned, data, size, start, hdata, hsize', hstart, hrange⟩

theorem length_of_payload {bytes : List UInt8} (h : c.payload t = .ok bytes)
    : bytes.length = t.size :=
  Descriptor.eq_size_of_byteSize (byteSize_of_payload h)

theorem length_blocks_le_of_payload {s : Scheme} {stem : String} {bytes : List UInt8}
    (h : unpacking? t.name t.type = some (s, stem)) (hbytes : c.payload t = .ok bytes)
    : Shape.numel t.shape / s.weights * s.bytes ≤ bytes.length := by
  obtain ⟨hs, htype⟩ := Scheme.mem_of_ofType? (unpacking?_eq_some_iff.1 h).1
  rw [(Scheme.bytes_of_mem hs).1, (Scheme.bytes_of_mem hs).2, htype]
  exact Nat.le_of_eq (length_of_payload hbytes).symm

/--
Weights whose payload is there are unpacked if their rows are whole blocks and have few enough bits.
-/
theorem exists_ofPayload_iff_of_payload {s : Scheme} {stem : String} {bytes : List UInt8}
    (h : unpacking? t.name t.type = some (s, stem)) (hbytes : c.payload t = .ok bytes)
    : (∃ q, Quantized.ofPayload t.name s t.shape bytes = .ok q) ↔
        t.Divisible ∧ t.rowBits < wordBound := by
  have hs := (Scheme.mem_of_ofType? (unpacking?_eq_some_iff.1 h).1).1
  have hlong := length_blocks_le_of_payload h hbytes
  have hsmall := Descriptor.small_of_byteSize (byteSize_of_payload hbytes)
  rw [Quantized.exists_ofPayload_iff hs, Descriptor.divisible_iff_of_unpacking? h]
  constructor
  . rintro ⟨⟨last, hlast, hbits⟩, _⟩
    rw [Descriptor.rowBits_eq h ((Scheme.lastDim_eq_ok_iff hs).1 hlast).1]
    exact ⟨⟨last, hlast⟩, hbits⟩
  . rintro ⟨⟨last, hlast⟩, hrow⟩
    rw [Descriptor.rowBits_eq h ((Scheme.lastDim_eq_ok_iff hs).1 hlast).1] at hrow
    exact ⟨⟨last, hlast, hrow⟩, hsmall, hlong⟩

theorem exists_decode_iff_of_some {s : Scheme} {stem : String}
    (h : unpacking? t.name t.type = some (s, stem))
    : (∃ out, c.decode t = .ok out) ↔
        (∃ bytes, c.payload t = .ok bytes) ∧ t.Divisible ∧ t.rowBits < wordBound := by
  unfold decode
  rw [h]
  simp only [bind_eq_ok_iff, pure_eq_ok_iff]
  constructor
  . rintro ⟨_, _, _, bytes, hbytes, q, hq, _⟩
    exact ⟨⟨bytes, hbytes⟩, (exists_ofPayload_iff_of_payload h hbytes).1 ⟨q, hq⟩⟩
  . rintro ⟨⟨bytes, hbytes⟩, hfits⟩
    obtain ⟨q, hq⟩ := (exists_ofPayload_iff_of_payload h hbytes).2 hfits
    obtain ⟨last, hlast⟩ := (Descriptor.divisible_iff_of_unpacking? h).1 hfits.1
    exact ⟨_, last, hlast, bytes, hbytes, q, hq, rfl⟩

/--
Where only the bits of a row are too many, decoding breaks off.
-/
theorem decode_of_wordBound_le {bytes : List UInt8} (hbytes : c.payload t = .ok bytes)
    (hdivisible : t.Divisible) (hrow : wordBound ≤ t.rowBits)
    : c.decode t = .error (.panic .product) := by
  cases h : unpacking? t.name t.type with
  | none =>
    rw [Descriptor.rowBits_eq_zero h] at hrow
    exact absurd hrow (by decide)
  | some u =>
    obtain ⟨s, stem⟩ := u
    have hs := (Scheme.mem_of_ofType? (unpacking?_eq_some_iff.1 h).1).1
    obtain ⟨last, hlast⟩ := (Descriptor.divisible_iff_of_unpacking? h).1 hdivisible
    rw [Descriptor.rowBits_eq h ((Scheme.lastDim_eq_ok_iff hs).1 hlast).1] at hrow
    have hsmall := Descriptor.small_of_byteSize (byteSize_of_payload hbytes)
    have hbroken := Quantized.ofPayload_of_not_fits hs hlast hsmall hrow
      (length_blocks_le_of_payload h hbytes)
    unfold decode
    rw [h]
    simp only [hlast, hbytes, hbroken, bind, Except.bind]

theorem exists_decode_iff_of_none (h : unpacking? t.name t.type = none)
    : (∃ out, c.decode t = .ok out) ↔
      (∃ bytes, c.payload t = .ok bytes) ∧ t.type ∉ undecodableTypes := by
  unfold decode
  rw [h]
  dsimp only
  simp only [bind_eq_ok_iff]
  constructor
  . rintro ⟨_, bytes, hbytes, hdecode⟩
    refine ⟨⟨bytes, hbytes⟩, ?_⟩
    split at hdecode
    . next dtype hdtype => exact TensorType.not_mem_undecodableTypes_of_dtype? hdtype
    . next hdtype =>
      rw [bind_eq_ok_iff] at hdecode
      obtain ⟨widened, hwiden, _⟩ := hdecode
      exact (Widen.isSome_block?_iff hdtype).1 (exists_widen_iff.1 ⟨widened, hwiden⟩).1
  . rintro ⟨⟨bytes, hbytes⟩, hdecodable⟩
    have hsize := byteSize_of_payload hbytes
    have hsmall := Descriptor.small_of_byteSize hsize
    cases hdtype : t.type.dtype? with
    | some dtype =>
      have hlength : bytes.length = Shape.numel t.shape * dtype.size := by
        rw [length_of_payload hbytes, Descriptor.size, TensorType.blockSize_of_dtype? hdtype,
          TensorType.blockBytes_of_dtype? hdtype, Nat.div_one]
        rfl
      obtain ⟨x, hx⟩ := Tensor.exists_ofBytes_iff.2 ⟨hsmall, hlength⟩
      refine ⟨[(t.name, x)], bytes, hbytes, ?_⟩
      dsimp only
      rw [hx]
      rfl
    | none =>
      have hwhole : t.type.byteSizeOf t.name (Shape.numel t.shape) = .ok bytes.length :=
        TensorType.byteSizeOf_eq_ok_iff.2 <| TensorType.byteSize_eq_ok_iff.2
          (Descriptor.byteSize_eq_ok_iff.1 hsize).2
      obtain ⟨widened, hwiden⟩ := exists_widen_iff.2
        ⟨(Widen.isSome_block?_iff hdtype).2 hdecodable, hsmall, _, hwhole, Nat.le_refl _⟩
      refine ⟨[(t.name, widened)], bytes, hbytes, ?_⟩
      dsimp only
      rw [hwiden]
      rfl

/--
A payload that is there decodes unless its type is one that cannot be, its weights do not divide into
blocks, or a row of them has too many bits.
-/
theorem exists_decode_iff
    : (∃ out, c.decode t = .ok out) ↔ (∃ bytes, c.payload t = .ok bytes) ∧
        (t.Divisible ∧ t.rowBits < wordBound) ∧ t.type ∉ undecodableTypes := by
  cases h : unpacking? t.name t.type with
  | some u =>
    obtain ⟨s, stem⟩ := u
    have hkept : t.type ∉ undecodableTypes := by
      have htype := Scheme.exists_ofType?_iff.1 ⟨s, (unpacking?_eq_some_iff.1 h).1⟩
      revert htype
      cases t.type <;> decide
    rw [exists_decode_iff_of_some h, and_iff_left hkept]
  | none =>
    have hdiv : t.Divisible := by
      intro stem hunpacks
      exact absurd hunpacks (Descriptor.not_unpacks_of_unpacking? h stem)
    have hrow : t.rowBits < wordBound := by
      rw [Descriptor.rowBits_eq_zero h]
      decide
    rw [exists_decode_iff_of_none h, and_iff_right (And.intro hdiv hrow)]

theorem names_of_decode {out : List (String × Tensor)} (h : c.decode t = .ok out)
    : out.map (·.1) = t.producedNames := by
  unfold decode at h
  split at h
  . next s stem hsome =>
    simp only [bind_eq_ok_iff, pure_eq_ok_iff] at h
    obtain ⟨_, _, _, _, q, _, rfl⟩ := h
    rw [Descriptor.producedNames_of_unpacks (Descriptor.unpacks_iff.2 ⟨s, hsome⟩)]
    rfl
  . next hnone =>
    rw [bind_eq_ok_iff] at h
    obtain ⟨_, _, h⟩ := h
    rw [Descriptor.producedNames_of_not_unpacks (Descriptor.not_unpacks_of_unpacking? hnone)]
    split at h
    . simp only [bind_eq_ok_iff, pure_eq_ok_iff] at h
      obtain ⟨_, _, rfl⟩ := h
      rfl
    . simp only [bind_eq_ok_iff, pure_eq_ok_iff] at h
      obtain ⟨_, _, rfl⟩ := h
      rfl

end Container

end TensorFiles.Gguf
