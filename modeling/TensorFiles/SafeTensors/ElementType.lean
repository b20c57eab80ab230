import TensorFiles.DType
/-!
This module contains the element types a `.safetensors` header can declare. Some are narrower than
a byte, and some have no tensor here that could hold them.
-/

namespace TensorFiles.SafeTensors

inductive ElementType where
  | bool
  | f4
  | f6E2M3
  | f6E3M2
  | u8
  | i8
  | f8E5M2
  | f8E4M3
  | f8E8M0
  | i16
  | u16
  | f16
  | bf16
  | i32
  | u32
  | f32
  | f64
  | i64
  | u64
  deriving DecidableEq

namespace ElementType

/--
Every element type, by increasing alignment.
-/
def all : List ElementType :=
  [.bool, .f4, .f6E2M3, .f6E3M2, .u8, .i8, .f8E5M2, .f8E4M3, .f8E8M0, .i16, .u16, .f16, .bf16, .i32,
   .u32, .f32, .f64, .i64, .u64]

def name : ElementType → String
  | .bool => "BOOL"
  | .f4 => "F4"
  | .f6E2M3 => "F6_E2M3"
  | .f6E3M2 => "F6_E3M2"
  | .u8 => "U8"
  | .i8 => "I8"
  | .f8E5M2 => "F8_E5M2"
  | .f8E4M3 => "F8_E4M3"
  | .f8E8M0 => "F8_E8M0"
  | .i16 => "I16"
  | .u16 => "U16"
  | .f16 => "F16"
  | .bf16 => "BF16"
  | .i32 => "I32"
  | .u32 => "U32"
  | .f32 => "F32"
  | .f64 => "F64"
  | .i64 => "I64"
  | .u64 => "U64"

def ofName? (name : String) : Option ElementType :=
  all.find? (fun t => t.name == name)

/--
The number of bits one element takes.
-/
def bits : ElementType → Nat
  | .f4 => 4
  | .f6E2M3 | .f6E3M2 => 6
  | .bool | .u8 | .i8 | .f8E5M2 | .f8E4M3 | .f8E8M0 => 8
  | .i16 | .u16 | .f16 | .bf16 => 16
  | .i32 | .u32 | .f32 => 32
  | .f64 | .i64 | .u64 => 64

/--
The place of the type in the order of alignments, which is the order of `all`.
-/
def rank : ElementType → Nat
  | .bool => 0
  | .f4 => 1
  | .f6E2M3 => 2
  | .f6E3M2 => 3
  | .u8 => 4
  | .i8 => 5
  | .f8E5M2 => 6
  | .f8E4M3 => 7
  | .f8E8M0 => 8
  | .i16 => 9
  | .u16 => 10
  | .f16 => 11
  | .bf16 => 12
  | .i32 => 13
  | .u32 => 14
  | .f32 => 15
  | .f64 => 16
  | .i64 => 17
  | .u64 => 18

/--
The element type a tensor is stored as, if there is one.
-/
def ofDType? : DType → Option ElementType
  | .bool => some .bool
  | .u8 => some .u8
  | .u16 => some .u16
  | .u32 => some .u32
  | .u64 => some .u64
  | .i8 => some .i8
  | .i16 => some .i16
  | .i32 => some .i32
  | .i64 => some .i64
  | .f16 => some .f16
  | .bf16 => some .bf16
  | .f32 => some .f32
  | .f64 => some .f64
  | .c64 => none

/--
The element type of the tensor that holds such elements, if there is one.
-/
def dtype? : ElementType → Option DType
  | .bool => some .bool
  | .u8 => some .u8
  | .u16 => some .u16
  | .u32 => some .u32
  | .u64 => some .u64
  | .i8 => some .i8
  | .i16 => some .i16
  | .i32 => some .i32
  | .i64 => some .i64
  | .f16 => some .f16
  | .bf16 => some .bf16
  | .f32 => some .f32
  | .f64 => some .f64
  | _ => none

@[simp]
theorem ofName?_name (t : ElementType) : ofName? t.name = some t := by
  cases t <;> decide

theorem dtype?_of_ofDType? {d : DType} {t : ElementType} (h : ofDType? d = some t)
    : t.dtype? = some d := by
  cases d <;> simp only [ofDType?, Option.some.injEq, reduceCtorEq] at h <;> subst h <;> rfl

theorem bits_of_dtype? {d : DType} {t : ElementType} (h : t.dtype? = some d)
    : t.bits = 8 * d.size := by
  cases t <;> simp only [dtype?, Option.some.injEq, reduceCtorEq] at h <;> subst h <;> rfl

theorem dtype?_ne_c64 (t : ElementType) : t.dtype? ≠ some .c64 := by
  cases t <;> decide

end ElementType

end TensorFiles.SafeTensors
