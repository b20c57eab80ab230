import TensorFiles.Proofs.Gguf.Reads
import TensorFiles.Proofs.Tensor.View
/-!
This module contains the round trip of metadata values: from the bytes a value is written as the
same value is read, whatever follows them.
-/

namespace TensorFiles.Gguf

namespace ValueType

theorem ne_float64_of_ofDType? {d : DType} {t : ValueType} (h : ofDType? d = some t)
    : t ≠ .float64 := by
  cases d <;> simp only [ofDType?, Option.some.injEq, reduceCtorEq] at h <;> subst h <;> decide

end ValueType

theorem decode_lt_of_u32 {t : Tensor} (hu32 : t.dtype = .u32) (hone : t.numel = 1)
    : LittleEndian.decode t.data < halfWordBound := by
  have hlength : t.data.length = 4 := by
    rw [t.length_data, ← Tensor.numel, hone, hu32]
    rfl
  have hlt := LittleEndian.decode_lt t.data
  rw [hlength, LittleEndian.bound_four] at hlt
  exact hlt

namespace MetaValue

/--
The value that is read where `v` was written: a single element loses its dimension.
-/
def settled (v : MetaValue) : MetaValue :=
  match v with
  | .scalar t =>
    match Tensor.ofBytes t.dtype [] t.data with
    | .ok t => .scalar t
    | .error _ => v
  | _ => v

/--
The strings in a value.
-/
def texts : MetaValue → List String
  | .string text => [text]
  | .strings texts => texts
  | _ => []

theorem asAlignment_eq_ok_iff {v : MetaValue} {alignment : Nat}
    : v.asAlignment = .ok alignment ↔ ∃ t, v = .scalar t ∧ t.dtype = .u32 ∧ t.numel = 1 ∧
        LittleEndian.decode t.data = alignment := by
  cases v with
  | scalar t =>
    simp only [scalar.injEq, exists_eq_left']
    unfold asAlignment asNat?
    dsimp only
    by_cases hu32 : t.dtype = .u32
    . by_cases hone : t.numel = 1
      . simp [hu32, hone]
      . simp [hu32, hone]
    . simp [hu32]
  | empty => simp [asAlignment]
  | array t => simp [asAlignment]
  | string text => simp [asAlignment]
  | strings texts => simp [asAlignment]

end MetaValue

variable {limit : Nat}

theorem Reads.lift_bind {x : Except Error α} {a : α} {f : α → Read β} {bytes : List UInt8} {b : β}
    (hx : x = .ok a) (hf : Reads (f a) bytes limit b)
    : Reads (liftM x >>= f) bytes limit b := by
  intro c hc h
  subst hx
  rw [exec_bind_of_ok (exec_lift _ c), hf c hc h]

theorem reads_numbers {type : ValueType} {d : DType} (h : ValueType.ofDType? d = some type)
    {count : Nat} {data : List UInt8} (hdata : data.length = count * d.size)
    : Reads (Read.numbers type d.size count) data limit data := by
  unfold Read.numbers
  simp only [ValueType.ne_float64_of_ofDType? h, if_false]
  exact (reads_bytes hdata).bind_pure id

theorem shape_of_rank_eq_one {t : Tensor} (h : t.rank = 1) : t.shape = [t.numel] := by
  unfold Tensor.rank at h
  obtain ⟨n, hn⟩ := List.length_eq_one_iff.1 h
  rw [Tensor.numel, hn]
  simp

theorem reads_value_string {text : String} (hsize : (encodeString text).length < wordBound)
    (hlimit : text.utf8ByteSize ≤ limit)
    : Reads (Read.value ValueType.string.code) (encodeString text) limit (.string text) := by
  rw [length_encodeString] at hsize
  unfold Read.value
  rw [ValueType.ofCode?_code]
  exact (reads_string (by omega) hlimit).map MetaValue.string

/--
A single element is a tensor without dimensions.
-/
theorem exists_settled_scalar {t : Tensor} (hone : t.numel = 1)
    : ∃ t', Tensor.ofBytes t.dtype [] t.data = .ok t' ∧
        (MetaValue.scalar t).settled = .scalar t' := by
  have hdata : t.data.length = Shape.numel [] * t.dtype.size := by
    rw [t.length_data, ← Tensor.numel, hone, Shape.numel_nil]
  obtain ⟨t', htensor⟩ := Tensor.exists_ofBytes_iff.2 ⟨rfl, hdata⟩
  refine ⟨t', htensor, ?_⟩
  rw [MetaValue.settled, htensor]

theorem reads_value_scalar {t : Tensor} {type : ValueType}
    (htype : ValueType.ofDType? t.dtype = some type) (hone : t.numel = 1)
    : Reads (Read.value type.code) t.data limit (MetaValue.settled (.scalar t)) := by
  have hdata : t.data.length = 1 * t.dtype.size := by
    rw [t.length_data, ← Tensor.numel, hone]
  obtain ⟨t', htensor, hsettled⟩ := exists_settled_scalar hone
  unfold Read.value
  rw [ValueType.ofCode?_code]
  dsimp only
  rw [ValueType.layout_of_ofDType? htype, hsettled]
  apply (reads_numbers htype hdata).bind_nil
  exact Reads.lift_bind htensor (reads_pure _)

theorem reads_value_strings {texts : List String}
    (hsize : (texts.flatMap encodeString).length < wordBound)
    (hlimit : ∀ s ∈ texts, s.utf8ByteSize ≤ limit)
    : Reads (Read.value ValueType.array.code)
        (LittleEndian.encode 4 ValueType.string.code ++ (LittleEndian.encode 8 texts.length ++
          texts.flatMap encodeString)) limit (.strings texts) := by
  have hcount : texts.length ≤ (texts.flatMap encodeString).length := by
    apply length_le_flatMap
    intro s _
    rw [length_encodeString]
    omega
  have htexts : ∀ s ∈ texts, s.utf8ByteSize < wordBound := by
    intro s hs
    have hle := length_le_flatMap_of_mem (f := encodeString) hs
    rw [length_encodeString] at hle
    omega
  unfold Read.value
  rw [ValueType.ofCode?_code]
  dsimp only [ValueType.layout]
  unfold Read.array
  apply (reads_u32 ValueType.string.code_lt).bind
  rw [ValueType.ofCode?_code]
  dsimp only [ValueType.layout]
  apply Reads.length_bind _ (by omega) hcount
  exact (reads_strings htexts hlimit).bind_pure MetaValue.strings

theorem reads_value_array {t : Tensor} {type : ValueType}
    (htype : ValueType.ofDType? t.dtype = some type) (hrank : t.rank = 1)
    (hsize : t.data.length < wordBound)
    : Reads (Read.value ValueType.array.code)
        (LittleEndian.encode 4 type.code ++ (LittleEndian.encode 8 t.numel ++ t.data))
        limit (.array t) := by
  have hdata : t.data.length = t.numel * t.dtype.size := t.length_data
  have hcount : t.numel ≤ t.data.length := by
    rw [hdata]
    exact Nat.le_mul_of_pos_right _ t.dtype.size_pos
  have htensor : Tensor.ofBytes t.dtype [t.numel] t.data = .ok t := by
    rw [← shape_of_rank_eq_one hrank, Tensor.ofBytes_self]
  unfold Read.value
  rw [ValueType.ofCode?_code]
  dsimp only [ValueType.layout]
  unfold Read.array
  apply (reads_u32 type.code_lt).bind
  rw [ValueType.ofCode?_code]
  dsimp only
  rw [ValueType.layout_of_ofDType? htype]
  apply Reads.length_bind _ (by omega) hcount
  apply (reads_numbers htype hdata).bind_nil
  exact Reads.lift_bind htensor (reads_pure _)

/--
Reading undoes writing.
-/
theorem reads_value {key : String} {v : MetaValue} {type : ValueType} {bytes : List UInt8}
    (h : v.encode key = .ok (type, bytes)) (hsize : bytes.length < wordBound)
    (hlimit : ∀ s ∈ v.texts, s.utf8ByteSize ≤ limit)
    : Reads (Read.value type.code) bytes limit v.settled := by
  cases v with
  | empty => simp [MetaValue.encode] at h
  | string text =>
    simp only [MetaValue.encode, Except.ok.injEq, Prod.mk.injEq] at h
    obtain ⟨rfl, rfl⟩ := h
    exact reads_value_string hsize (hlimit text (by simp [MetaValue.texts]))
  | strings texts =>
    simp only [MetaValue.encode, Except.ok.injEq, Prod.mk.injEq] at h
    obtain ⟨rfl, rfl⟩ := h
    simp only [List.append_assoc, List.length_append] at hsize ⊢
    exact reads_value_strings (by omega) hlimit
  | scalar t =>
    simp only [MetaValue.encode] at h
    split at h
    . simp at h
    . split at h
      . simp at h
      . next hone _ type' htype =>
        simp only [Except.ok.injEq, Prod.mk.injEq] at h
        obtain ⟨rfl, rfl⟩ := h
        exact reads_value_scalar htype (by omega)
  | array t =>
    simp only [MetaValue.encode] at h
    split at h
    . simp at h
    . split at h
      . simp at h
      . split at h
        . simp at h
        . next hrank _ _ type' htype =>
          simp only [Except.ok.injEq, Prod.mk.injEq] at h
          obtain ⟨rfl, rfl⟩ := h
          simp only [List.append_assoc, List.length_append] at hsize ⊢
          exact reads_value_array htype (by omega) (by omega)

/--
`v'` is `v`, but that a single element has lost its dimension.
-/
def MetaValue.ComesBackAs (v v' : MetaValue) : Prop :=
  match v with
  | .scalar t =>
    ∃ t' : Tensor, v' = .scalar t' ∧ t'.dtype = t.dtype ∧ t'.shape = [] ∧ t'.data = t.data
  | _ => v' = v

theorem comesBackAs_settled {key : String} {v : MetaValue} {type : ValueType} {bytes : List UInt8}
    (h : v.encode key = .ok (type, bytes)) : v.ComesBackAs v.settled := by
  cases v with
  | scalar t =>
    simp only [MetaValue.encode] at h
    split at h
    . simp at h
    . next hsingle =>
      have hone : t.numel = 1 := Decidable.not_not.1 fun hne => hsingle (.inl hne)
      obtain ⟨t', htensor, hsettled⟩ := exists_settled_scalar hone
      rw [hsettled]
      exact ⟨t', rfl, Tensor.ofBytes_eq_ok_iff.1 htensor⟩
  | empty => rfl
  | array t => rfl
  | string text => rfl
  | strings texts => rfl

/--
From the place where a value has been written the value is read, whatever stands before and behind
it, and the cursor comes to the end of what has been written.
-/
theorem exec_value_of_encode {key : String} {v : MetaValue} {type : ValueType}
    {bytes : List UInt8} (h : v.encode key = .ok (type, bytes)) (hsize : bytes.length < wordBound)
    (hlimit : ∀ s ∈ v.texts, s.utf8ByteSize ≤ limit) (front rest : List UInt8)
    : ∃ v', v.ComesBackAs v' ∧
        exec (Read.value type.code) ⟨front ++ bytes ++ rest, front.length, limit⟩
          = (.ok v', ⟨front ++ bytes ++ rest, front.length + bytes.length, limit⟩) := by
  refine ⟨v.settled, comesBackAs_settled h, ?_⟩
  exact (reads_value h hsize hlimit).exec_eq (stands_of_append front bytes rest)

/--
A list with a text of two bytes and an empty one.
-/
def twoTexts : MetaValue := .strings ["é", ""]

theorem exec_value_of_encode_twoTexts
    : ∃ bytes, twoTexts.encode "k" = .ok (.array, bytes) ∧ bytes.length = 30 ∧
        exec (Read.value 9) ⟨[1, 2, 3] ++ bytes ++ [4], 3, 2⟩
          = (.ok twoTexts, ⟨[1, 2, 3] ++ bytes ++ [4], 33, 2⟩) := by
  have hencode : twoTexts.encode "k" = .ok (.array,
      [8, 0, 0, 0, 2, 0, 0, 0, 0, 0, 0, 0, 2, 0, 0, 0, 0, 0, 0, 0, 0xC3, 0xA9,
        0, 0, 0, 0, 0, 0, 0, 0]) := by
    rfl
  have hlimit : ∀ s ∈ twoTexts.texts, s.utf8ByteSize ≤ 2 := by
    decide
  obtain ⟨v, hv, hexec⟩ := exec_value_of_encode hencode (by decide) hlimit [1, 2, 3] [4]
  cases hv
  exact ⟨_, hencode, rfl, hexec⟩

end TensorFiles.Gguf
