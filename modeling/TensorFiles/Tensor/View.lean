import TensorFiles.Tensor.Basic
/-!
This module contains what codecs need of a tensor they did not make: its element type and shape, a
way to finish pending work, and its row-major bytes, which may have to be copied together first.
-/

namespace TensorFiles

structure View where
  dtype : DType
  shape : List Nat
  /-- Finish all pending work. -/
  eval : Except Error Unit
  /-- The row-major bytes, if the storage holds them together. -/
  contiguous? : Option (List UInt8)
  /-- A copy whose storage holds the row-major bytes together. -/
  copy : Except Error Tensor

namespace View

def numel (v : View) : Nat := Shape.numel v.shape

def rank (v : View) : Nat := v.shape.length

/--
The number of bytes that the elements take.
-/
def nbytes (v : View) : Nat := v.numel * v.dtype.size

/--
The error of a view, which `name` stands for, whose copy fails with `e`.
-/
def copyError (name : String) : Error → Error
  | .panic cause => .panic cause
  | e => .layout name (.copyFailed e.message)

/--
The row-major bytes of a view, which `name` stands for in errors. Their number always fits the
shape.
-/
def contiguousData (name : String) (v : View) : Except Error (List UInt8) := do
  v.eval
  let expected := (← Shape.product v.shape) * v.dtype.size
  match v.contiguous? with
  | some bytes =>
    if bytes.length = expected then
      return bytes
    else
      throw (.about expected .product (.layout name (.viewLength bytes.length expected)))
  | none =>
    match v.copy with
    | .error e => throw (.about expected .product (copyError name e))
    | .ok t =>
      if t.shape = v.shape ∧ t.dtype = v.dtype then
        return t.data
      else
        throw (.about expected .product
          (.layout name (.copyDiffers v.dtype v.shape t.dtype t.shape)))

end View

/--
A tensor is a view of itself.
-/
def Tensor.toView (t : Tensor) : View where
  dtype := t.dtype
  shape := t.shape
  eval := .ok ()
  contiguous? := some t.data
  copy := .ok t

end TensorFiles
