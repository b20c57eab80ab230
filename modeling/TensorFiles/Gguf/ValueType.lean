import TensorFiles.Alignment
import TensorFiles.DType
/-!
This module contains the types a metadata value of a GGUF container can have.
-/

namespace TensorFiles.Gguf

inductive ValueType where
  | uint8
  | int8
  | uint16
  | int16
  | uint32
  | int32
  | float32
  | bool
  | string
  | array
  | uint64
  | int64
  | float64
  deriving DecidableEq

namespace ValueType

/--
Every value type, in the order of their codes.
-/
def all : List ValueType :=
  [.uint8, .int8, .uint16, .int16, .uint32, .int32, .float32, .bool, .string, .array, .uint64,
   .int64, .float64]

def name : ValueType → String
  | .uint8 => "Uint8"
  | .int8 => "Int8"
  | .uint16 => "Uint16"
  | .int16 => "Int16"
  | .uint32 => "Uint32"
  | .int32 => "Int32"
  | .float32 => "Float32"
  | .bool => "Bool"
  | .string => "String"
  | .array => "Array"
  | .uint64 => "Uint64"
  | .int64 => "Int64"
  | .float64 => "Float64"

/--
The number that stands for the type in front of a value.
-/
def code : ValueType → Nat
  | .uint8 => 0
  | .int8 => 1
  | .uint16 => 2
  | .int16 => 3
  | .uint32 => 4
  | .int32 => 5
  | .float32 => 6
  | .bool => 7
  | .string => 8
  | .array => 9
  | .uint64 => 10
  | .int64 => 11
  | .float64 => 12

def ofCode? (n : Nat) : Option ValueType :=
  all.find? (fun t => t.code == n)

@[simp]
theorem ofCode?_code (t : ValueType) : ofCode? t.code = some t := by
  cases t <;> rfl

theorem code_of_ofCode? {n : Nat} {t : ValueType} (h : ofCode? n = some t) : t.code = n := by
  have := List.find?_some h
  simpa using this

theorem code_lt (t : ValueType) : t.code < halfWordBound := by
  cases t <;> decide

/--
How a value of some type is laid out. A number has a width in the file and the element type that
holds it once read; the wide float is held in a narrow one.
-/
inductive Layout where
  | number (width : Nat) (dtype : DType)
  | text
  | list
  deriving DecidableEq

def layout : ValueType → Layout
  | .uint8 => .number 1 .u8
  | .int8 => .number 1 .i8
  | .uint16 => .number 2 .u16
  | .int16 => .number 2 .i16
  | .uint32 => .number 4 .u32
  | .int32 => .number 4 .i32
  | .float32 => .number 4 .f32
  | .bool => .number 1 .bool
  | .uint64 => .number 8 .u64
  | .int64 => .number 8 .i64
  | .float64 => .number 8 .f32
  | .string => .text
  | .array => .list

/--
The number of bytes a single value takes, where that is fixed.
-/
def width? (t : ValueType) : Option Nat :=
  match t.layout with
  | .number width _ => some width
  | _ => none

/--
The value type an element type is stored as, if there is one.
-/
def ofDType? : DType → Option ValueType
  | .f32 => some .float32
  | .i64 => some .int64
  | .i32 => some .int32
  | .i16 => some .int16
  | .i8 => some .int8
  | .u64 => some .uint64
  | .u32 => some .uint32
  | .u16 => some .uint16
  | .u8 => some .uint8
  | .bool => some .bool
  | _ => none

theorem layout_of_ofDType? {d : DType} {t : ValueType} (h : ofDType? d = some t)
    : t.layout = .number d.size d := by
  cases d <;> simp only [ofDType?, Option.some.injEq, reduceCtorEq] at h <;> subst h <;> rfl

end ValueType

end TensorFiles.Gguf
