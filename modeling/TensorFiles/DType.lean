/-!
This module contains the element types a tensor can hold, with their sizes and names.
-/

namespace TensorFiles

/--
The element type of a tensor. `c64` is a complex number made of two 32 bit floats.
-/
inductive DType where
  | bool
  | u8
  | u16
  | u32
  | u64
  | i8
  | i16
  | i32
  | i64
  | f16
  | bf16
  | f32
  | f64
  | c64
  deriving DecidableEq

namespace DType

/--
Every element type, in declaration order.
-/
def all : List DType :=
  [.bool, .u8, .u16, .u32, .u64, .i8, .i16, .i32, .i64, .f16, .bf16, .f32, .f64, .c64]

/--
The number of bytes one element takes.
-/
def size : DType → Nat
  | .bool | .i8 | .u8 => 1
  | .f16 | .bf16 | .i16 | .u16 => 2
  | .f32 | .i32 | .u32 => 4
  | .f64 | .i64 | .u64 | .c64 => 8

/--
The name messages and reports give an element type.
-/
def name : DType → String
  | .bool => "bool"
  | .u8 => "uint8"
  | .u16 => "uint16"
  | .u32 => "uint32"
  | .u64 => "uint64"
  | .i8 => "int8"
  | .i16 => "int16"
  | .i32 => "int32"
  | .i64 => "int64"
  | .f16 => "float16"
  | .bf16 => "bfloat16"
  | .f32 => "float32"
  | .f64 => "float64"
  | .c64 => "complex64"

def isFloat : DType → Bool
  | .f16 | .bf16 | .f32 | .f64 => true
  | _ => false

theorem size_pos (d : DType) : 0 < d.size := by
  cases d <;> decide

end DType

end TensorFiles
