import TensorFiles.Bytes.Utf8
import TensorFiles.DType
import TensorFiles.Text.Listing
/-!
This module contains the faults of `.npy` streams.
-/

namespace TensorFiles.Npy

/--
The parts of a stream its end can fall into.
-/
inductive Part where
  | magic
  | version
  | headerLength
  | header
  deriving DecidableEq

def Part.name : Part → String
  | .magic => "magic"
  | .version => "version"
  | .headerLength => "header length"
  | .header => "header"

inductive Fault where
  | unsupportedDescr (descr : String)
  | missingKey (key : String)
  | malformedEntry (key : String)
  | unterminatedEntry (key : String)
  | badShape (value : String)
  | badDim (dim : String) (fault : Numeral.Fault)
  | fortranOrder
  | badFortranOrder (value : String)
  | truncated (part : Part)
  | badMagic (bytes : List UInt8)
  | unsupportedVersion (major minor : Nat)
  | headerNotUtf8 (fault : Utf8.Fault)
  | shapeOverflow (shape : List Nat)
  | payloadLength (got : Nat) (shape : List Nat) (dtype : DType) (expected : Nat)
  deriving DecidableEq

def Fault.message : Fault → String
  | .unsupportedDescr descr => s!"unsupported numpy descr '{descr}'"
  | .missingKey key => s!"npy header is missing '{key}'"
  | .malformedEntry key => s!"npy header: malformed '{key}' entry"
  | .unterminatedEntry key => s!"npy header: unterminated '{key}' entry"
  | .badShape value => s!"npy header: bad shape {value}"
  | .badDim dim fault => s!"npy header: bad shape dim '{dim}': {fault.message}"
  | .fortranOrder => "fortran-ordered npy arrays are not supported"
  | .badFortranOrder value => s!"npy header: bad fortran_order {value}"
  | .truncated part => s!"npy stream ended inside the {part.name}"
  | .badMagic bytes => s!"invalid npy magic {Text.hexBytes bytes} (expected \\x93NUMPY)"
  | .unsupportedVersion major minor => s!"unsupported npy version: {major}.{minor}"
  | .headerNotUtf8 fault => s!"invalid npy header UTF-8: {fault.message}"
  | .shapeOverflow shape => s!"npy shape {Text.numbers shape} overflows"
  | .payloadLength got shape dtype expected =>
    s!"npy payload has {got} bytes, shape {Text.numbers shape} of {dtype.name} needs {expected}"

end TensorFiles.Npy
