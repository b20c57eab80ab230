import TensorFiles.Alignment
import TensorFiles.Gguf.Fault
import TensorFiles.Npy.Fault
import TensorFiles.SafeTensors.Fault
import TensorFiles.Tensor.Fault
/-!
This module contains the errors of the codecs, with the texts that are shown for them.
-/

namespace TensorFiles

/--
The kinds of failures of the file system and of streams.
-/
inductive IoKind where
  | notFound
  | notADirectory
  | isADirectory
  | invalidFilename
  | invalidInput
  | invalidData
  | other
  deriving DecidableEq

/--
A failure of the file system or of a stream, with the system's text for it.
-/
structure IoFailure where
  kind : IoKind
  text : String
  deriving DecidableEq

namespace IoFailure

def notFound : IoFailure := ⟨.notFound, "No such file or directory (os error 2)"⟩

def notADirectory : IoFailure := ⟨.notADirectory, "Not a directory (os error 20)"⟩

def isADirectory : IoFailure := ⟨.isADirectory, "Is a directory (os error 21)"⟩

/--
A path or a name in it is longer than the file system allows.
-/
def nameTooLong : IoFailure := ⟨.invalidFilename, "File name too long (os error 36)"⟩

/--
A path has the character that ends paths.
-/
def nulInPath : IoFailure := ⟨.invalidInput, "file name contained an unexpected NUL byte"⟩

/--
What is to be mapped into memory is not a file.
-/
def noDevice : IoFailure := ⟨.other, "No such device (os error 19)"⟩

def notUtf8 : IoFailure := ⟨.invalidData, "stream did not contain valid UTF-8"⟩

end IoFailure

/--
Why data is malformed. A view that is not part of this library gives a text of its own.
-/
inductive Fault where
  | tensor (fault : Tensor.Fault)
  | gguf (fault : Gguf.Fault)
  | npy (fault : Npy.Fault)
  | safeTensors (fault : SafeTensors.Fault)
  | other (reason : String)
  deriving DecidableEq

def Fault.message : Fault → String
  | .tensor fault => fault.message
  | .gguf fault => fault.message
  | .npy fault => fault.message
  | .safeTensors fault => fault.message
  | .other reason => reason

/--
Why a computation is broken off in the middle: a sum or a product that is not checked does not fit a
machine word, a divisor is zero, or something takes more memory than there can be.
-/
inductive Panic where
  | sum
  | product
  | divisor
  | capacity
  deriving DecidableEq

def Panic.message : Panic → String
  | .sum => "attempt to add with overflow"
  | .product => "attempt to multiply with overflow"
  | .divisor => "attempt to calculate the remainder with a divisor of zero"
  | .capacity => "capacity overflow"

/--
The most bytes that anything in memory takes.
-/
def maxAllocation : Nat := 0x7FFFFFFFFFFFFFFF

/--
Why a codec gives no result: a file cannot be accessed, data is malformed, an element type has no
counterpart in the format, a tensor is not a contiguous buffer of the expected form, the last
dimension of a quantized tensor is not a whole number of blocks, or a stream fails. A computation that
is broken off gives none either.
-/
inductive Error where
  | io (path : String) (failure : IoFailure)
  | malformed (fault : Fault)
  | unsupported (name : String) (dtype : DType)
  | layout (name : String) (fault : Tensor.LayoutFault)
  | lastDim (name : String) (dim block : Nat)
  | stream (failure : IoFailure)
  | panic (cause : Panic)
  deriving DecidableEq

namespace Error

def message : Error → String
  | .io path failure => s!"cannot access {path}: {failure.text}"
  | .malformed fault => s!"malformed data: {fault.message}"
  | .unsupported name dtype => s!"`{name}`: dtype {dtype.name} is not supported"
  | .layout name fault => s!"`{name}`: {fault.message}"
  | .lastDim name dim block =>
    s!"tensor `{name}` has incompatible last dim {dim} (must be a multiple of {block})"
  | .stream failure => failure.text
  | .panic cause => cause.message

/--
The error `e` about the number `n`. If the number does not fit a machine word, it is its computation
that is broken off. This is where a computed size is compared with data that is there: the data is
never so long that it has a size which does not fit.
-/
def about (n : Nat) (cause : Panic) (e : Error) : Error :=
  if n < wordBound then e else .panic cause

def gguf (fault : Gguf.Fault) : Error := .malformed (.gguf fault)

def npy (fault : Npy.Fault) : Error := .malformed (.npy fault)

def safeTensors (fault : SafeTensors.Fault) : Error := .malformed (.safeTensors fault)

end Error

end TensorFiles
