import TensorFiles.Gguf.MetaValue
import TensorFiles.Json.Printer
/-!
This module contains the JSON form of the elements of tensors and of metadata values.
-/

namespace TensorFiles

namespace DType

/--
The JSON form of one element. A complex number is a pair.
-/
def elementJson (dtype : DType) (bytes : List UInt8) : Json :=
  let single (bytes : List UInt8) : Json :=
    .ofDouble (Ieee.convert Ieee.single Ieee.double (LittleEndian.decode bytes))
  match dtype with
  | .bool => .bool (bytes.any (· != 0))
  | .u8 | .u16 | .u32 | .u64 => .nat (LittleEndian.decode bytes)
  | .i8 | .i16 | .i32 | .i64 => .int (LittleEndian.decodeSigned bytes)
  | .f16 => .ofDouble (Ieee.convert Ieee.half Ieee.double (LittleEndian.decode bytes))
  | .bf16 => .ofDouble (Ieee.convert Ieee.brain Ieee.double (LittleEndian.decode bytes))
  | .f32 => single bytes
  | .f64 => .ofDouble (LittleEndian.decode bytes)
  | .c64 => .array [single (bytes.take 4), single (bytes.drop 4)]

end DType

/--
The JSON forms of the elements of a tensor, in row-major order.
-/
def Tensor.values (t : Tensor) : List Json :=
  (blocks t.dtype.size t.numel t.data).map t.dtype.elementJson

namespace Gguf.MetaValue

def toJson : MetaValue → Json
  | .empty => .null
  | .scalar t => t.values.headD .null
  | .array t => .array t.values
  | .string text => .string text
  | .strings texts => .array (texts.map .string)

/--
The text of a value. A string stands for itself.
-/
def text (v : MetaValue) : String :=
  match v.toJson with
  | .string s => s
  | json => json.compact

end Gguf.MetaValue

end TensorFiles
