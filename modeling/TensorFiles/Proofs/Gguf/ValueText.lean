import TensorFiles.Command.Conversion
import TensorFiles.Proofs.Bytes.Blocks
import TensorFiles.Proofs.Bytes.LittleEndian
import TensorFiles.Proofs.Json.RoundTrip
import TensorFiles.Proofs.Result
import TensorFiles.Proofs.Table
/-!
This module contains what the texts of metadata values tell of the values. Integers, truth values and
lists of strings are got back from their texts, so no two of one kind have the same text.
-/

namespace TensorFiles

namespace DType

def isInteger : DType → Bool
  | .u8 | .u16 | .u32 | .u64 | .i8 | .i16 | .i32 | .i64 => true
  | _ => false

/--
The bytes of an integer, or the byte that is written for a truth value.
-/
structure IsDiscrete (dtype : DType) (bytes : List UInt8) : Prop where
  length_eq : bytes.length = dtype.size
  integer_or_bool : dtype.isInteger = true ∨ dtype = .bool ∧ ∀ b ∈ bytes, b = 0 ∨ b = 1

def isSigned : DType → Bool
  | .i8 | .i16 | .i32 | .i64 => true
  | _ => false

def integer (dtype : DType) (bytes : List UInt8) : Int :=
  if dtype.isSigned then LittleEndian.decodeSigned bytes else LittleEndian.decode bytes

section

variable {dtype : DType} {bytes bytes' : List UInt8}

theorem size_le (dtype : DType) : dtype.size ≤ 8 := by
  cases dtype <;> decide

theorem elementJson_of_isInteger (h : dtype.isInteger = true) (bytes : List UInt8)
    : dtype.elementJson bytes = .int (dtype.integer bytes) := by
  cases dtype <;> first | rfl | simp [isInteger] at h

theorem integer_bounds (h : bytes.length ≤ 8)
    : -(wordBound / 2 : Nat) ≤ dtype.integer bytes ∧ dtype.integer bytes < wordBound := by
  unfold integer
  split
  . exact LittleEndian.decodeSigned_bounds h
  . have hlt := LittleEndian.decode_lt bytes
    have hbound := LittleEndian.bound_le h
    omega

theorem integer_inj (hlength : bytes.length = bytes'.length)
    (h : dtype.integer bytes = dtype.integer bytes') : bytes = bytes' := by
  unfold integer at h
  split at h
  . exact LittleEndian.decodeSigned_inj hlength h
  . exact LittleEndian.decode_inj hlength (Int.ofNat_inj.1 h)

theorem elementJson_inj (h : dtype.IsDiscrete bytes) (h' : dtype.IsDiscrete bytes')
    (heq : dtype.elementJson bytes = dtype.elementJson bytes') : bytes = bytes' := by
  have hlength := h.length_eq.trans h'.length_eq.symm
  rcases h.integer_or_bool with hint | ⟨rfl, hbits⟩
  . rw [elementJson_of_isInteger hint, elementJson_of_isInteger hint, Json.int.injEq] at heq
    exact integer_inj hlength heq
  . have hbits' : ∀ b ∈ bytes', b = 0 ∨ b = 1 := by
      rcases h'.integer_or_bool with hint | ⟨_, hbits'⟩
      . simp [isInteger] at hint
      . exact hbits'
    obtain ⟨b, rfl⟩ := List.length_eq_one_iff.1 h.length_eq
    obtain ⟨b', rfl⟩ := List.length_eq_one_iff.1 h'.length_eq
    rw [List.forall_mem_singleton] at hbits hbits'
    rcases hbits with rfl | rfl <;> rcases hbits' with rfl | rfl <;> simp_all [elementJson]

theorem plain_elementJson (depth : Nat) (h : dtype.IsDiscrete bytes)
    : Json.Plain depth (dtype.elementJson bytes) := by
  rcases h.integer_or_bool with hint | ⟨rfl, _⟩
  . have hlength : bytes.length ≤ 8 := h.length_eq ▸ dtype.size_le
    rw [elementJson_of_isInteger hint]
    apply Json.Plain.int
    . exact (integer_bounds hlength).1
    . exact (integer_bounds hlength).2
  . exact .bool _

theorem elementJson_ne_string (h : dtype.IsDiscrete bytes) (s : String)
    : dtype.elementJson bytes ≠ .string s := by
  rcases h.integer_or_bool with hint | ⟨rfl, _⟩
  . rw [elementJson_of_isInteger hint]
    simp
  . simp [elementJson]

end

end DType

namespace Tensor

/--
The elements are integers, or truth values that are written as zeros and ones.
-/
def IsDiscrete (t : Tensor) : Prop :=
  t.dtype.isInteger = true ∨ t.dtype = .bool ∧ ∀ b ∈ t.data, b = 0 ∨ b = 1

variable {t t' : Tensor}

theorem IsDiscrete.of_mem_blocks (h : t.IsDiscrete) {bytes : List UInt8}
    (hmem : bytes ∈ blocks t.dtype.size t.numel t.data) : t.dtype.IsDiscrete bytes := by
  constructor
  . apply length_of_mem_blocks _ _ hmem
    rw [t.length_data]
    exact Nat.le_refl _
  . cases h with
    | inl hint => exact .inl hint
    | inr hbool => exact .inr ⟨hbool.1, fun b hb => hbool.2 b (mem_of_mem_blocks hmem hb)⟩

theorem values_inj (hdtype : t.dtype = t'.dtype) (h : t.IsDiscrete) (h' : t'.IsDiscrete)
    (heq : t.values = t'.values) : t.data = t'.data := by
  have hblocks : blocks t.dtype.size t.numel t.data = blocks t'.dtype.size t'.numel t'.data := by
    apply eq_of_map_eq (f := t.dtype.elementJson)
    . intro bytes hbytes bytes' hbytes'
      have hdiscrete := h'.of_mem_blocks hbytes'
      rw [← hdtype] at hdiscrete
      exact DType.elementJson_inj (h.of_mem_blocks hbytes) hdiscrete
    . unfold values at heq
      rw [heq, hdtype]
  rw [← flatten_blocks_of_length_eq t.length_data, ← flatten_blocks_of_length_eq t'.length_data]
  exact congrArg List.flatten hblocks

theorem values_congr (hdtype : t.dtype = t'.dtype) (hdata : t.data = t'.data)
    : t.values = t'.values := by
  have hnumel : t.numel = t'.numel := by
    have hlength := t.length_data
    rw [hdata, t'.length_data, hdtype] at hlength
    exact (Nat.eq_of_mul_eq_mul_right t'.dtype.size_pos hlength).symm
  unfold values
  rw [hdtype, hdata, hnumel]

theorem values_ne_string (h : t.IsDiscrete) (s : String) : ∀ e ∈ t.values, e ≠ .string s := by
  unfold values
  rw [List.forall_mem_map]
  exact fun bytes hbytes => DType.elementJson_ne_string (h.of_mem_blocks hbytes) s

theorem plain_values (depth : Nat) (h : t.IsDiscrete) : ∀ e ∈ t.values, Json.Plain depth e := by
  unfold values
  rw [List.forall_mem_map]
  exact fun bytes hbytes => DType.plain_elementJson depth (h.of_mem_blocks hbytes)

end Tensor

namespace Gguf.MetaValue

/--
Two values of one kind: single elements or lists of elements of one type, or lists of strings. The
elements are integers or truth values.
-/
inductive Alike : MetaValue → MetaValue → Prop where
  | scalar {t t' : Tensor} (hdtype : t.dtype = t'.dtype) (h : t.IsDiscrete) (h' : t'.IsDiscrete)
    (hone : t.numel = 1) (hone' : t'.numel = 1) : Alike (.scalar t) (.scalar t')
  | array {t t' : Tensor} (hdtype : t.dtype = t'.dtype) (h : t.IsDiscrete) (h' : t'.IsDiscrete)
    : Alike (.array t) (.array t')
  | strings (texts texts' : List String) : Alike (.strings texts) (.strings texts')

/--
The elements of two values are the same, in the same order.
-/
def SameElements : MetaValue → MetaValue → Prop
  | .scalar t, .scalar t' => t.data = t'.data
  | .array t, .array t' => t.data = t'.data
  | .strings texts, .strings texts' => texts = texts'
  | _, _ => False

/--
The text of a value is JSON that is read back.
-/
structure ReadsBack (v : MetaValue) : Prop where
  plain : Json.Plain Json.maxDepth v.toJson
  ne_string : ∀ s, v.toJson ≠ .string s

theorem ReadsBack.text_eq {v : MetaValue} (h : v.ReadsBack) : v.text = v.toJson.compact := by
  unfold text
  split
  . next s hs => exact absurd hs (h.ne_string s)
  . rfl

theorem ReadsBack.text_eq_iff {v w : MetaValue} (h : v.ReadsBack) (h' : w.ReadsBack)
    : v.text = w.text ↔ v.toJson = w.toJson := by
  rw [h.text_eq, h'.text_eq]
  constructor
  . intro heq
    apply Json.print_inj h.plain h'.plain
    exact String.ofList_inj.1 heq
  . exact congrArg Json.compact

section

variable {t t' : Tensor}

theorem toJson_scalar (t : Tensor) : (MetaValue.scalar t).toJson = t.values.headD .null := rfl

theorem values_eq_singleton (h : t.numel = 1) : t.values = [(MetaValue.scalar t).toJson] := by
  have hlength : t.values.length = 1 := by
    unfold Tensor.values
    rw [List.length_map, length_blocks, h]
  obtain ⟨e, he⟩ := List.length_eq_one_iff.1 hlength
  rw [toJson_scalar, he]
  rfl

theorem readsBack_scalar (h : t.IsDiscrete) (hone : t.numel = 1)
    : (MetaValue.scalar t).ReadsBack := by
  have hmem : (MetaValue.scalar t).toJson ∈ t.values := by
    rw [values_eq_singleton hone]
    exact List.mem_singleton_self _
  constructor
  . exact t.plain_values _ h _ hmem
  . exact fun s => t.values_ne_string h s _ hmem

theorem readsBack_array (h : t.IsDiscrete) : (MetaValue.array t).ReadsBack := by
  constructor
  . apply Json.Plain.array
    apply Tensor.plain_values _ h
  . intro s hs
    cases hs

end

theorem readsBack_strings (texts : List String) : (MetaValue.strings texts).ReadsBack := by
  constructor
  . apply Json.Plain.array
    rw [List.forall_mem_map]
    exact fun s _ => .string s
  . intro s hs
    cases hs

/--
Values of one kind have the same text exactly if they have the same elements.
-/
theorem Alike.text_eq_iff {v w : MetaValue} (h : Alike v w) : v.text = w.text ↔ SameElements v w := by
  cases h with
  | @scalar t t' hdtype h h' hone hone' =>
    rw [(readsBack_scalar h hone).text_eq_iff (readsBack_scalar h' hone')]
    constructor
    . intro heq
      apply Tensor.values_inj hdtype h h'
      rw [values_eq_singleton hone, values_eq_singleton hone', heq]
    . intro hdata
      rw [toJson_scalar, toJson_scalar, Tensor.values_congr hdtype hdata]
  | @array t t' hdtype h h' =>
    rw [(readsBack_array h).text_eq_iff (readsBack_array h')]
    unfold toJson
    rw [Json.array.injEq]
    exact ⟨Tensor.values_inj hdtype h h', Tensor.values_congr hdtype⟩
  | strings texts texts' =>
    rw [(readsBack_strings texts).text_eq_iff (readsBack_strings texts')]
    unfold toJson
    rw [Json.array.injEq, List.map_inj_right (fun _ _ h => Json.string.inj h)]
    rfl

/--
The texts of the metadata of a container tell the values of one kind apart, also in a whole table.
-/
theorem sameElements_of_text
    : (∀ v w : MetaValue, Alike v w → (v.text = w.text ↔ SameElements v w)) ∧
      ∀ metadata metadata' : Table MetaValue,
        metadata.map (fun _ v => v.text) = metadata'.map (fun _ v => v.text) →
          ∀ key v w, metadata.find? key = some v → metadata'.find? key = some w → Alike v w →
            SameElements v w := by
  refine ⟨fun v w => Alike.text_eq_iff, ?_⟩
  intro metadata metadata' hmap key v w hv hw halike
  have htext := congrArg (Table.find? · key) hmap
  rw [Table.find?_map, Table.find?_map, hv, hw] at htext
  apply halike.text_eq_iff.1
  exact Option.some.inj htext

/--
One string that goes on like a list of two.
-/
def quotedTexts : List String := [String.ofList ['a', '"', ',', '"', 'b']]

/--
The numbers -1 and -32768, in a row or in a column.
-/
def lowest (shape : List Nat) (h : (Shape.productFrom? 1 shape).map (· * 2) = some 4) : Tensor :=
  ⟨.i16, shape, [0xFF, 0xFF, 0x00, 0x80], h⟩

theorem sameElements_of_text_quotedTexts
    : (MetaValue.strings quotedTexts).text ≠ (MetaValue.strings ["a", "b"]).text ∧
      (MetaValue.array (lowest [2] rfl)).text = "[-1,-32768]" ∧
      SameElements (.array (lowest [2] rfl)) (.array (lowest [2, 1] rfl)) := by
  have htext : (MetaValue.array (lowest [2] rfl)).text = "[-1,-32768]" := by
    decide +kernel
  have htext' : (MetaValue.array (lowest [2, 1] rfl)).text = "[-1,-32768]" := by
    decide +kernel
  refine ⟨?_, htext, ?_⟩
  . intro heq
    have hsame : quotedTexts = ["a", "b"] :=
      (sameElements_of_text.1 _ _ (.strings quotedTexts ["a", "b"])).1 heq
    exact absurd hsame (by decide)
  . apply sameElements_of_text.2 (.ofList [("k", .array (lowest [2] rfl))])
      (.ofList [("k", .array (lowest [2, 1] rfl))]) _ "k" _ _ rfl rfl
    . exact .array rfl (.inl rfl) (.inl rfl)
    . apply Table.ext
      exact congrArg (fun text => [("k", text)]) (htext.trans htext'.symm)

end Gguf.MetaValue

end TensorFiles
