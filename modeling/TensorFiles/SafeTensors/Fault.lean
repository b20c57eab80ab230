import TensorFiles.Bytes.Utf8
import TensorFiles.SafeTensors.ElementType
/-!
This module contains the faults of `.safetensors` buffers.
-/

namespace TensorFiles.SafeTensors

inductive Fault where
  | headerTooSmall
  | headerTooLarge
  | headerLength
  | headerNotUtf8 (fault : Utf8.Fault)
  | headerNotJson
  | invalidOffset (name : String)
  | sizeOverflow
  | misalignedSlice
  | sizeMismatch
  | notCovered
  | noHostType (name : String) (type : ElementType)
  deriving DecidableEq

def Fault.message : Fault → String
  | .headerTooSmall => "safetensors: header too small"
  | .headerTooLarge => "safetensors: header too large"
  | .headerLength => "safetensors: invalid header length"
  | .headerNotUtf8 fault => s!"safetensors: invalid UTF-8 in header: {fault.message}"
  | .headerNotJson => "safetensors: invalid JSON in header"
  | .invalidOffset name => s!"safetensors: invalid offset for tensor `{name}`"
  | .sizeOverflow =>
    "safetensors: overflow computing buffer size from shape and/or element type"
  | .misalignedSlice =>
    "safetensors: The slice is slicing for subbytes dtypes, and the slice does not end up at a " ++
      "byte boundary, this is invalid."
  | .sizeMismatch => "safetensors: invalid shape, data type, or offset for tensor"
  | .notCovered => "safetensors: incomplete metadata, file not fully covered"
  | .noHostType name type => s!"`{name}`: safetensors dtype {type.name} has no host equivalent"

end TensorFiles.SafeTensors
