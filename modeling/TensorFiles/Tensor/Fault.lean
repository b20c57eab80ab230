import TensorFiles.DType
import TensorFiles.Text.Listing
/-!
This module contains the faults of tensors and of the views codecs take tensors from.
-/

namespace TensorFiles.Tensor

/--
Why bytes are not a tensor, or a tensor does not hold what is asked for.
-/
inductive Fault where
  | dataLength (dtype : DType) (shape : List Nat) (expected got : Nat)
  | elementType (held asked : DType)
  deriving DecidableEq

def Fault.message : Fault → String
  | .dataLength dtype shape expected got =>
    s!"{dtype.name} tensor of shape {Text.numbers shape} needs {expected} bytes, got {got}"
  | .elementType held asked => s!"cannot read {held.name} tensor as {asked.name}"

/--
Why something is not a contiguous buffer of the expected form.
-/
inductive LayoutFault where
  | viewLength (got expected : Nat)
  | copyFailed (reason : String)
  | copyDiffers (dtype : DType) (shape : List Nat) (copyDType : DType) (copyShape : List Nat)
  | notOneElement (shape : List Nat)
  | notOneDimension (rank : Nat)
  | noElements
  | other (reason : String)
  deriving DecidableEq

def LayoutFault.message : LayoutFault → String
  | .viewLength got expected => s!"contiguous view has {got} bytes, expected {expected}"
  | .copyFailed reason => s!"cannot copy into row-major layout: {reason}"
  | .copyDiffers dtype shape copyDType copyShape =>
    s!"contiguous copy changed layout from {dtype.name} {Text.numbers shape} to " ++
      s!"{copyDType.name} {Text.numbers copyShape}"
  | .notOneElement shape =>
    s!"scalar metadata must hold exactly one element, got shape {Text.numbers shape}"
  | .notOneDimension rank => s!"cannot save arrays with {rank} dimensions as metadata"
  | .noElements => "cannot save empty arrays as metadata"
  | .other reason => reason

end TensorFiles.Tensor
