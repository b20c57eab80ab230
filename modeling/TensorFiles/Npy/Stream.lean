import TensorFiles.Bytes.LittleEndian
import TensorFiles.Disk
import TensorFiles.FileFormat
import TensorFiles.Npy.Header
import TensorFiles.Shape
import TensorFiles.Tensor.View
/-!
This module contains `.npy` streams: a magic, a version, the length of the header, the header and the
bytes of a single tensor. The bytes start at a multiple of 64.
-/

namespace TensorFiles.Npy

/--
The bytes a stream begins with: `\x93NUMPY`.
-/
def magic : List UInt8 := [0x93, 0x4E, 0x55, 0x4D, 0x50, 0x59]

/--
What the tensor of a stream is called in errors.
-/
def tensorName : String := "array"

/--
The multiple that the bytes of the tensor start at.
-/
def boundary : Nat := 64

/--
The bytes of a version, of a header that is filled up with spaces and ends in a newline, and of the
length of that header in `width` bytes.
-/
def frame (major : UInt8) (width : Nat) (dictionary : List UInt8) : List UInt8 :=
  let front := magic.length + 2 + width
  let spaces := (boundary - (front + dictionary.length + 1) % boundary) % boundary
  let header := dictionary ++ List.replicate spaces 0x20 ++ [0x0A]
  [major, 0] ++ LittleEndian.encode width header.length ++ header

/--
The largest header that the first version of the format has room for.
-/
def maxShortHeader : Nat := 65535

/--
What a stream has before the bytes of the tensor. The second version is used for headers that the
first one has no room for.
-/
def preamble (dictionary : List UInt8) : List UInt8 :=
  let short := frame 1 2 dictionary
  magic ++ (if short.length - 4 ≤ maxShortHeader then short else frame 2 4 dictionary)

def encode (v : View) : Except Error (List UInt8) :=
  match descr? v.dtype with
  | none => .error (.unsupported tensorName v.dtype)
  | some descr => do
    let data ← v.contiguousData tensorName
    return preamble (Utf8.encode (Header.dictionary descr v.shape)) ++ data

/--
The next bytes of a stream, and what follows them.
-/
def take (part : Part) (length : Nat) (data : List UInt8)
    : Except Error (List UInt8 × List UInt8) :=
  if length ≤ data.length then
    .ok (data.take length, data.drop length)
  else
    .error (.npy (.truncated part))

/--
The text of the header, and what follows it.
-/
def headerText (data : List UInt8) : Except Error (List Char × List UInt8) := do
  let (found, data) ← take .magic magic.length data
  if found ≠ magic then
    throw (.npy (.badMagic found))
  let (version, data) ← take .version 2 data
  let major := (version.getD 0 0).toNat
  let minor := (version.getD 1 0).toNat
  if major < 1 ∨ 3 < major then
    throw (.npy (.unsupportedVersion major minor))
  let (length, data) ← take .headerLength (if major = 1 then 2 else 4) data
  let (header, data) ← take .header (LittleEndian.decode length) data
  match Utf8.decode header with
  | .ok cs => return (Text.trim cs, data)
  | .error fault => throw (.npy (.headerNotUtf8 fault))

/--
The number of bytes that are swapped together. The two halves of a complex number are swapped each
on its own.
-/
def swapWidth (dtype : DType) : Nat :=
  if dtype = .c64 then 4 else dtype.size

/--
The bytes of elements with the bytes of each number reversed.
-/
def swapBytes (dtype : DType) (data : List UInt8) : List UInt8 :=
  ((blocks (swapWidth dtype) (data.length / swapWidth dtype) data).map List.reverse).flatten

/--
The tensor at the front of a stream.
-/
def decode (data : List UInt8) : Except Error Tensor := do
  let (text, rest) ← headerText data
  match Header.parse text with
  | .error fault => throw (.npy fault)
  | .ok header =>
    match Shape.productFrom? header.dtype.size header.shape with
    | none => throw (.npy (.shapeOverflow header.shape))
    | some size =>
      if rest.length < size then
        throw (.npy (.payloadLength rest.length header.shape header.dtype size))
      let payload := rest.take size
      let payload := if header.swapped then swapBytes header.dtype payload else payload
      Tensor.ofBytes header.dtype header.shape payload

/--
Load the tensor of the file that `path` leads to.
-/
def load (d : Disk) (path : String) : Except Error Tensor :=
  match d.find path with
  | .error failure => .error (.io path failure)
  | .ok .directory => .error (.stream .isADirectory)
  | .ok (.file _ data) => decode data

/--
Reserve memory for the bytes of a view and a short header.
-/
def reserve (v : View) : Except Error Unit := do
  let size := (← Shape.product v.shape) * v.dtype.size
  if maxAllocation < size + 128 then
    throw (.about size .product (.about (size + 128) .sum (.panic .capacity)))

/--
Save a tensor. The result is the path that is written, which gets the extension of `.npy` files
unless it has it.
-/
def save (d : Disk) (path : String) (v : View) : Except Error String × Disk :=
  let path := FileFormat.npy.normalize path
  let stream : Except Error (List UInt8) := do
    reserve v
    encode v
  match stream with
  | .error e => (.error e, d)
  | .ok data =>
    match d.write path data with
    | .error failure => (.error (.io path failure), d)
    | .ok d => (.ok path, d)

end TensorFiles.Npy
