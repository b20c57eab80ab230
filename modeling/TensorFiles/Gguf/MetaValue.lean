import TensorFiles.Gguf.Cursor
import TensorFiles.Gguf.ValueType
import TensorFiles.Ieee
import TensorFiles.Tensor.Basic
/-!
This module contains the metadata values of a GGUF container and their byte form. A number is the
bare little-endian value, a string has its length in front, and an array has the type and the number
of its elements in front. Arrays of arrays do not exist.
-/

namespace TensorFiles.Gguf

inductive MetaValue where
  /-- No value; it is never read and cannot be written. -/
  | empty
  | scalar (tensor : Tensor)
  | array (tensor : Tensor)
  | string (text : String)
  | strings (texts : List String)
  deriving DecidableEq

namespace MetaValue

def asString? : MetaValue → Option String
  | .string text => some text
  | _ => none

def asTensor? : MetaValue → Option Tensor
  | .scalar t | .array t => some t
  | _ => none

/--
The number a single integer stands for, if it is not negative.
-/
def asNat? : MetaValue → Option Nat
  | .scalar t =>
    if t.numel = 1 then
      match t.dtype with
      | .u8 | .u16 | .u32 | .u64 => some (LittleEndian.decode t.data)
      | .i8 | .i16 | .i32 | .i64 =>
        let n := LittleEndian.decode t.data
        if n < LittleEndian.bound t.data.length / 2 then some n else none
      | _ => none
    else
      none
  | _ => none

/--
The alignment that a value stands for, which must be a single 32 bit word.
-/
def asAlignment : MetaValue → Except Error Nat
  | .scalar t =>
    if t.dtype = .u32 then
      match (MetaValue.scalar t).asNat? with
      | some n => .ok n
      | none => .error (.gguf .alignmentNotU32)
    else
      .error (.gguf .alignmentNotU32)
  | _ => .error (.gguf .alignmentNotU32)

end MetaValue

namespace Read

/--
The consecutive double precision numbers of some bytes, in single precision.
-/
def narrowDoubles : List UInt8 → List UInt8
  | b0 :: b1 :: b2 :: b3 :: b4 :: b5 :: b6 :: b7 :: rest =>
    LittleEndian.encode 4 (Ieee.narrow (LittleEndian.decode [b0, b1, b2, b3, b4, b5, b6, b7])) ++
      narrowDoubles rest
  | _ => []

/--
The bytes of `count` numbers of a type that takes `width` bytes in the file, as the element type
that holds them has them.
-/
def numbers (type : ValueType) (width count : Nat) : Read (List UInt8) := do
  let data ← bytes (count * width)
  if type = .float64 then
    return narrowDoubles data
  else
    return data

/--
The array of the elements that follow.
-/
def array : Read MetaValue := do
  let code ← u32
  match ValueType.ofCode? code with
  | none => throw (.gguf (.unknownElementType code))
  | some type =>
    match type.layout with
    | .list => throw (.gguf .nestedArray)
    | .text =>
      let count ← length "metadata array"
      let texts ← strings count
      return .strings texts
    | .number width dtype =>
      let count ← length "metadata array"
      let data ← numbers type width count
      let tensor ← (Tensor.ofBytes dtype [count] data : Except Error Tensor)
      return .array tensor

/--
The value of the type that `code` stands for.
-/
def value (code : Nat) : Read MetaValue :=
  match ValueType.ofCode? code with
  | none => throw (.gguf (.unknownValueType code))
  | some type =>
    match type.layout with
    | .list => array
    | .text => MetaValue.string <$> string
    | .number width dtype => do
      let data ← numbers type width 1
      let tensor ← (Tensor.ofBytes dtype [] data : Except Error Tensor)
      return .scalar tensor

end Read

namespace MetaValue

/--
The type and the bytes a value is written with under the name `key`.
-/
def encode (key : String) : MetaValue → Except Error (ValueType × List UInt8)
  | .empty => .error (.gguf (.noValue key))
  | .string text => .ok (.string, encodeString text)
  | .strings texts =>
    .ok (.array, LittleEndian.encode 4 ValueType.string.code ++
      LittleEndian.encode 8 texts.length ++ texts.flatMap encodeString)
  | .scalar t =>
    if t.numel ≠ 1 ∨ 1 < t.rank then
      .error (.layout key (.notOneElement t.shape))
    else
      match ValueType.ofDType? t.dtype with
      | none => .error (.unsupported key t.dtype)
      | some type => .ok (type, t.data)
  | .array t =>
    if t.rank ≠ 1 then
      .error (.layout key (.notOneDimension t.rank))
    else if t.numel = 0 then
      .error (.layout key .noElements)
    else
      match ValueType.ofDType? t.dtype with
      | none => .error (.unsupported key t.dtype)
      | some type =>
        .ok (.array, LittleEndian.encode 4 type.code ++ LittleEndian.encode 8 t.numel ++ t.data)

end MetaValue

end TensorFiles.Gguf
