import TensorFiles.Bytes.Blocks
import TensorFiles.Error
import TensorFiles.Shape
/-!
This module contains tensors: an element type, a shape with the slowest varying dimension first, and
the little-endian bytes of the elements in row-major order. The number of elements fits a machine word,
and there are always as many bytes as they take.
-/

namespace TensorFiles

structure Tensor where
  dtype : DType
  shape : List Nat
  data : List UInt8
  sized : (Shape.productFrom? 1 shape).map (· * dtype.size) = some data.length
  deriving DecidableEq

theorem Shape.sized_iff {dtype : DType} {shape : List Nat} {length : Nat}
    : (productFrom? 1 shape).map (· * dtype.size) = some length ↔
        Small shape ∧ length = numel shape * dtype.size := by
  rw [Option.map_eq_some_iff]
  constructor
  . rintro ⟨n, hn, rfl⟩
    obtain ⟨hsome, rfl⟩ := productFrom?_one_eq_some_iff.1 hn
    exact ⟨hsome, rfl⟩
  . rintro ⟨hsome, rfl⟩
    exact ⟨numel shape, productFrom?_one_eq_some_iff.2 ⟨hsome, rfl⟩, rfl⟩

namespace Tensor

theorem small (t : Tensor) : Shape.Small t.shape :=
  (Shape.sized_iff.1 t.sized).1

theorem length_data (t : Tensor) : t.data.length = Shape.numel t.shape * t.dtype.size :=
  (Shape.sized_iff.1 t.sized).2

def numel (t : Tensor) : Nat := Shape.numel t.shape

def rank (t : Tensor) : Nat := t.shape.length

def nbytes (t : Tensor) : Nat := t.data.length

def ofBytes (dtype : DType) (shape : List Nat) (data : List UInt8) : Except Error Tensor :=
  if h : (Shape.productFrom? 1 shape).map (· * dtype.size) = some data.length then
    .ok ⟨dtype, shape, data, h⟩
  else do
    let expected := (← Shape.product shape) * dtype.size
    throw (.about expected .product
      (.malformed (.tensor (.dataLength dtype shape expected data.length))))

theorem ofBytes_eq_ok_iff {dtype : DType} {shape : List Nat} {data : List UInt8} {t : Tensor}
    : ofBytes dtype shape data = .ok t ↔ t.dtype = dtype ∧ t.shape = shape ∧ t.data = data := by
  unfold ofBytes
  split
  . next h =>
    obtain ⟨d, s, b, hb⟩ := t
    simp only [Except.ok.injEq, mk.injEq, eq_comm]
  . next h =>
    constructor
    . intro hok
      cases hproduct : Shape.product shape with
      | error e => simp [hproduct, bind, Except.bind] at hok
      | ok n => simp [hproduct, bind, Except.bind, throw, throwThe, MonadExceptOf.throw] at hok
    . rintro ⟨rfl, rfl, rfl⟩
      exact absurd t.sized h

@[simp]
theorem ofBytes_self (t : Tensor) : ofBytes t.dtype t.shape t.data = .ok t :=
  ofBytes_eq_ok_iff.2 ⟨rfl, rfl, rfl⟩

/--
The tensor without dimensions that holds the single element `data`.
-/
def scalar (dtype : DType) (data : List UInt8) : Except Error Tensor :=
  ofBytes dtype [] data

def ofBools (values : List Bool) (shape : List Nat) : Except Error Tensor :=
  ofBytes .bool shape (values.map (fun b => if b then 1 else 0))

/--
The tensor of zeros of a shape whose number of elements fits a machine word.
-/
def zeros (dtype : DType) (shape : List Nat)
    (small : Shape.Small shape := by exact Eq.refl true) : Tensor where
  dtype
  shape
  data := List.replicate (Shape.numel shape * dtype.size) 0
  sized := Shape.sized_iff.2 ⟨small, List.length_replicate⟩

/--
The tensor of zeros of any shape, as long as it does not take too much memory.
-/
def allocate (dtype : DType) (shape : List Nat) : Except Error Tensor :=
  if h : Shape.Small shape then
    let size := Shape.numel shape * dtype.size
    if size ≤ maxAllocation then
      .ok (zeros dtype shape h)
    else
      .error (.about size .product (.panic .capacity))
  else
    .error (.panic .product)

/--
The same bytes in another shape. The number of elements must not change.
-/
def reshape (t : Tensor) (shape : List Nat) : Except Error Tensor :=
  ofBytes t.dtype shape t.data

/--
The bytes of each element, for a caller that expects elements of type `asked`.
-/
def elements (t : Tensor) (asked : DType) : Except Error (List (List UInt8)) :=
  if asked = t.dtype then
    .ok (blocks t.dtype.size t.numel t.data)
  else
    .error (.malformed (.tensor (.elementType t.dtype asked)))

/--
The truth values of a boolean tensor, in which any byte but zero is true.
-/
def bools (t : Tensor) : Except Error (List Bool) :=
  if t.dtype = .bool then
    .ok (t.data.map (· != 0))
  else
    .error (.malformed (.tensor (.elementType t.dtype .bool)))

end Tensor

end TensorFiles
