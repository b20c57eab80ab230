import TensorFiles.Alignment
import TensorFiles.DType
/-!
This module contains the types a tensor payload of a GGUF container can have. A payload is a row of
equally sized blocks; plain element types have blocks of one element.
-/

namespace TensorFiles.Gguf

inductive TensorType where
  | f32
  | f16
  | q4_0
  | q4_1
  | q5_0
  | q5_1
  | q8_0
  | q8_1
  | q2_k
  | q3_k
  | q4_k
  | q5_k
  | q6_k
  | q8_k
  | i8
  | i16
  | i32
  | i64
  | f64
  | bf16
  deriving DecidableEq

namespace TensorType

/--
Every payload type, in declaration order.
-/
def all : List TensorType :=
  [.f32, .f16, .q4_0, .q4_1, .q5_0, .q5_1, .q8_0, .q8_1, .q2_k, .q3_k, .q4_k, .q5_k, .q6_k, .q8_k,
   .i8, .i16, .i32, .i64, .f64, .bf16]

def name : TensorType → String
  | .f32 => "F32"
  | .f16 => "F16"
  | .q4_0 => "Q4_0"
  | .q4_1 => "Q4_1"
  | .q5_0 => "Q5_0"
  | .q5_1 => "Q5_1"
  | .q8_0 => "Q8_0"
  | .q8_1 => "Q8_1"
  | .q2_k => "Q2_K"
  | .q3_k => "Q3_K"
  | .q4_k => "Q4_K"
  | .q5_k => "Q5_K"
  | .q6_k => "Q6_K"
  | .q8_k => "Q8_K"
  | .i8 => "I8"
  | .i16 => "I16"
  | .i32 => "I32"
  | .i64 => "I64"
  | .f64 => "F64"
  | .bf16 => "BF16"

/--
The number that stands for the type in a descriptor.
-/
def code : TensorType → Nat
  | .f32 => 0
  | .f16 => 1
  | .q4_0 => 2
  | .q4_1 => 3
  | .q5_0 => 6
  | .q5_1 => 7
  | .q8_0 => 8
  | .q8_1 => 9
  | .q2_k => 10
  | .q3_k => 11
  | .q4_k => 12
  | .q5_k => 13
  | .q6_k => 14
  | .q8_k => 15
  | .i8 => 24
  | .i16 => 25
  | .i32 => 26
  | .i64 => 27
  | .f64 => 28
  | .bf16 => 30

def ofCode? (n : Nat) : Option TensorType :=
  all.find? (fun t => t.code == n)

@[simp]
theorem ofCode?_code (t : TensorType) : ofCode? t.code = some t := by
  cases t <;> rfl

theorem code_lt (t : TensorType) : t.code < halfWordBound := by
  cases t <;> decide

/--
The number of elements in one block.
-/
def blockSize : TensorType → Nat
  | .q4_0 | .q4_1 | .q5_0 | .q5_1 | .q8_0 | .q8_1 => 32
  | .q2_k | .q3_k | .q4_k | .q5_k | .q6_k | .q8_k => 256
  | _ => 1

/--
The number of bytes in one block.
-/
def blockBytes : TensorType → Nat
  | .f32 | .i32 => 4
  | .f16 | .bf16 | .i16 => 2
  | .i8 => 1
  | .i64 | .f64 => 8
  | .q4_0 => 18
  | .q4_1 => 20
  | .q5_0 => 22
  | .q5_1 => 24
  | .q8_0 => 34
  | .q8_1 => 36
  | .q2_k => 84
  | .q3_k => 110
  | .q4_k => 144
  | .q5_k => 176
  | .q6_k => 210
  | .q8_k => 292

def isQuantized (t : TensorType) : Bool :=
  1 < t.blockSize

/--
The element type whose bytes are the payload's bytes, if there is one.
-/
def dtype? : TensorType → Option DType
  | .f32 => some .f32
  | .f16 => some .f16
  | .i8 => some .i8
  | .i16 => some .i16
  | .i32 => some .i32
  | _ => none

/--
The payload type a tensor of some element type is stored as, if there is one.
-/
def ofDType? : DType → Option TensorType
  | .f32 => some .f32
  | .f16 => some .f16
  | .i8 => some .i8
  | .i16 => some .i16
  | .i32 => some .i32
  | _ => none

theorem ofDType?_eq_some_iff {d : DType} {t : TensorType}
    : ofDType? d = some t ↔ t.dtype? = some d := by
  cases d <;> cases t <;> decide

theorem blockSize_of_dtype? {d : DType} {t : TensorType} (h : t.dtype? = some d)
    : t.blockSize = 1 := by
  cases t <;> simp only [dtype?, reduceCtorEq] at h <;> rfl

theorem blockBytes_of_dtype? {d : DType} {t : TensorType} (h : t.dtype? = some d)
    : t.blockBytes = d.size := by
  cases t <;> simp only [dtype?, Option.some.injEq, reduceCtorEq] at h <;> subst h <;> rfl

end TensorType

end TensorFiles.Gguf
