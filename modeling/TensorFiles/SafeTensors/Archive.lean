import TensorFiles.Bytes.LittleEndian
import TensorFiles.Disk
import TensorFiles.FileFormat
import TensorFiles.SafeTensors.Header
import TensorFiles.Tensor.View
/-!
This module contains `.safetensors` files: the length of the header, the header, and the bytes of all
tensors. Tensors are written by decreasing alignment of their element types, and then by name.
-/

namespace TensorFiles.SafeTensors

/--
The tensors and the table of strings of a file.
-/
structure Archive where
  tensors : Table Tensor
  metadata : Table String
  deriving DecidableEq

/--
The longest header that is read or written.
-/
def maxHeaderLength : Nat := 100000000

/--
The number of bytes that the length of the header takes.
-/
def lengthWidth : Nat := 8

/--
A tensor that is ready to be written.
-/
structure Prepared where
  name : String
  type : ElementType
  shape : List Nat
  data : List UInt8

def Prepared.ofView (name : String) (v : View) : Except Error Prepared :=
  match ElementType.ofDType? v.dtype with
  | none => .error (.unsupported name v.dtype)
  | some type => do
    let data ← v.contiguousData name
    return ⟨name, type, v.shape, data⟩

/--
The number of bits of a tensor has to fit a machine word.
-/
def Prepared.check (t : Prepared) : Except Error Unit :=
  if t.data.length * 8 < wordBound then
    .ok ()
  else
    let shape := ", ".intercalate (t.shape.map Text.number)
    .error (.layout t.name (.other
      (s!"rejected by safetensors: tensor of type {t.type.name} and of shape ({shape}) can't be " ++
        s!"created from {t.data.length} bytes")))

/--
The tensors in the order they are written.
-/
def arrange (tensors : List Prepared) : List Prepared :=
  tensors.mergeSort (fun a b => b.type.rank ≤ a.type.rank)

/--
The entries of tensors whose bytes follow each other from `start` on.
-/
def place (start : Nat) : List Prepared → List (String × Entry)
  | [] => []
  | t :: rest =>
    let stop := start + t.data.length
    (t.name, ⟨t.type, t.shape, start, stop⟩) :: place stop rest

/--
The bytes of a header, filled up with spaces to a multiple of eight.
-/
def encodeHeader (header : Json) : List UInt8 :=
  let text := Utf8.encodeChars header.print
  text ++ List.replicate ((lengthWidth - text.length % lengthWidth) % lengthWidth) 0x20

def encode (tensors : Table View) (metadata : Table String) : Except Error (List UInt8) := do
  let prepared ← tensors.entries.mapM (fun (name, v) => Prepared.ofView name v)
  prepared.forM Prepared.check
  let arranged := arrange prepared
  let header := encodeHeader (Header.toJson metadata (place 0 arranged))
  if maxHeaderLength < header.length then
    throw (.safeTensors .headerTooLarge)
  return LittleEndian.encode lengthWidth header.length ++ header ++ arranged.flatMap (·.data)

/--
The header of a file and the bytes after it.
-/
def decodeHeader (data : List UInt8) : Except Fault (Header × List UInt8) := do
  if data.length < lengthWidth then
    throw .headerTooSmall
  let length := LittleEndian.decode (data.take lengthWidth)
  if maxHeaderLength < length then
    throw .headerTooLarge
  let rest := data.drop lengthWidth
  if rest.length < length then
    throw .headerLength
  match Utf8.decode (rest.take length) with
  | .error fault => throw (.headerNotUtf8 fault)
  | .ok text =>
    match (Json.parse? text).bind Header.ofJson? with
    | none => throw .headerNotJson
    | some header => return (header, rest.drop length)

/--
The tensor of an entry, whose bytes are in `data`.
-/
def tensorOf (data : List UInt8) (name : String) (e : Entry) : Except Error Tensor :=
  match e.type.dtype? with
  | none => .error (.safeTensors (.noHostType name e.type))
  | some dtype => Tensor.ofBytes dtype e.shape ((data.drop e.start).take (e.stop - e.start))

def decode (file : List UInt8) : Except Error Archive := do
  let checked : Except Fault (Header × List UInt8) := do
    let (header, data) ← decodeHeader file
    let stop ← Header.endFrom 0 header.layout
    if stop ≠ data.length then
      throw .notCovered
    return (header, data)
  match checked with
  | .error fault => throw (.safeTensors fault)
  | .ok (header, data) =>
    let tensors ← header.layout.mapM fun (name, e) => do
      let t ← tensorOf data name e
      return (name, t)
    return ⟨Table.ofList tensors, header.metadata⟩

/--
Load the file that `path` leads to.
-/
def load (d : Disk) (path : String) : Except Error Archive :=
  match d.map path with
  | .error failure => .error (.io path failure)
  | .ok (_, data) => decode data

/--
Save tensors and a table of strings. The result is the path that is written, which gets the extension
of `.safetensors` files unless it has it.
-/
def save (d : Disk) (path : String) (tensors : Table View) (metadata : Table String)
    : Except Error String × Disk :=
  let path := FileFormat.safeTensors.normalize path
  match encode tensors metadata with
  | .error e => (.error e, d)
  | .ok data =>
    match d.write path data with
    | .error failure => (.error (.io path failure), d)
    | .ok d => (.ok path, d)

end TensorFiles.SafeTensors
