import TensorFiles.Disk
import TensorFiles.Gguf.Container.Reading
import TensorFiles.Gguf.Repack
import TensorFiles.Gguf.Widen
import TensorFiles.Table
/-!
This module contains the loading of whole GGUF files. Quantized weights are unpacked into three
tensors, payloads that an element type can hold are taken as they are, and all others are widened.
-/

namespace TensorFiles.Gguf

/--
The tensors and the metadata of a file.
-/
structure Content where
  tensors : Table Tensor
  metadata : Table MetaValue
  deriving DecidableEq

/--
What a file declares besides the bytes of its tensors.
-/
structure Summary where
  version : Nat
  alignment : Nat
  dataStart : Nat
  metadata : Table MetaValue
  tensors : List Descriptor

namespace Container

/--
Open the file that `path` leads to.
-/
def ofFile (d : Disk) (path : String) (config : CodecConfig) : Except Error Container :=
  match d.map path with
  | .error failure => .error (.io path failure)
  | .ok (file, data) => openData path file data config

/--
A container that is read after its disk has changed. It shows what its file holds by now, but only as
far as the file reached when it was opened; what has been cut off reads as zeros. A file whose name is
gone stays as it was.
-/
def refresh (c : Container) (d : Disk) : Container :=
  match c.medium with
  | .created _ => c
  | .opened file data =>
    match d.content? file with
    | none => c
    | some current =>
      let shown := current.take data.length
      { c with
        medium := .opened file (shown ++ List.replicate (data.length - shown.length) 0) }

/--
Read the `left` metadata records that are left into a table. The last record of a key counts.
-/
def readRecords : (left : Nat) → Table MetaValue → Call (Table MetaValue)
  | 0, records => do
    let _ ← nextKey
    return records
  | left + 1, records => do
    match ← nextKey with
    | none => return records
    | some key =>
      let value ← readValue
      if key = alignmentKey then
        let alignment ← (value.asAlignment : Except Error Nat)
        setAlignment alignment
      readRecords left (records.insert key value)

/--
Read all metadata records. The alignment they declare comes into force.
-/
def readMetadata : Call (Table MetaValue) := do
  let c ← getThe Container
  readRecords (c.recordCount - c.recordsDone) .empty

/--
Read the `left` descriptors that are left.
-/
def readDescriptorsLeft : (left : Nat) → Call (List Descriptor)
  | 0 => do
    let _ ← nextDescriptor
    return []
  | left + 1 => do
    match ← nextDescriptor with
    | none => return []
    | some d =>
      let rest ← readDescriptorsLeft left
      return d :: rest

def readDescriptors : Call (List Descriptor) := do
  let c ← getThe Container
  readDescriptorsLeft (c.tensorCount - c.tensorsDone)

/--
The tensors that the payload of a descriptor gives, with their names.
-/
def decode (c : Container) (d : Descriptor) : Except Error (List (String × Tensor)) :=
  match unpacking? d.name d.type with
  | some (scheme, stem) => do
    let _ ← scheme.lastDim d.name d.shape
    let payload ← c.payload d
    let q ← Quantized.ofPayload d.name scheme d.shape payload
    return [(d.name, q.weights), (scalesName stem, q.scales), (biasesName stem, q.biases)]
  | none => do
    let payload ← c.payload d
    match d.type.dtype? with
    | some dtype => return [(d.name, ← Tensor.ofBytes dtype d.shape payload)]
    | none => return [(d.name, ← widen d.name d.type d.shape payload)]

/--
Add tensors to a table, which must not have tensors of their names yet.
-/
def insertNew (tensors : Table Tensor) : List (String × Tensor) → Except Error (Table Tensor)
  | [] => .ok tensors
  | (name, t) :: rest =>
    if tensors.contains name then
      .error (.gguf (.duplicateTensor name))
    else
      insertNew (tensors.insert name t) rest

/--
The tensors of all descriptors.
-/
def decodeAll (c : Container) (tensors : Table Tensor)
    : List Descriptor → Except Error (Table Tensor)
  | [] => .ok tensors
  | d :: rest => do
    let decoded ← c.decode d
    let tensors ← insertNew tensors decoded
    c.decodeAll tensors rest

/--
Read all descriptors and decode their payloads.
-/
def readTensors : Call (Table Tensor) := do
  let descriptors ← readDescriptors
  let c ← getThe Container
  (c.decodeAll .empty descriptors : Except Error (Table Tensor))

/--
Read everything, from the first record on.
-/
def readContent : Call Content := do
  let metadata ← readMetadata
  let tensors ← readTensors
  return ⟨tensors, metadata⟩

/--
Check that the payload of each descriptor is there.
-/
def checkPayloads (c : Container) : List Descriptor → Except Error Unit
  | [] => .ok ()
  | d :: rest => do
    let _ ← c.payload d
    c.checkPayloads rest

def readSummary : Call Summary := do
  let metadata ← readMetadata
  let tensors ← readDescriptors
  let c ← getThe Container
  (c.checkPayloads tensors : Except Error Unit)
  let dataStart ← (c.dataStart : Except Error Nat)
  return { version := c.version, alignment := c.alignment, dataStart, metadata, tensors }

end Container

/--
Load the file that `path` leads to.
-/
def load (d : Disk) (path : String) (config : CodecConfig) : Except Error Content := do
  let c ← Container.ofFile d path config
  (Container.readContent.run.run c).1

/--
Summarise the file that `path` leads to.
-/
def inspect (d : Disk) (path : String) (config : CodecConfig) : Except Error Summary := do
  let c ← Container.ofFile d path config
  (Container.readSummary.run.run c).1

end TensorFiles.Gguf
