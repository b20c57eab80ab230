import TensorFiles.Gguf.Container.Basic
import TensorFiles.Shape
/-!
This module contains the reading of a container: the header, then a key and a value for every
metadata record, then the descriptors, then the payload of any of them.
-/

namespace TensorFiles.Gguf

namespace Read

/--
The version and the numbers of tensors and metadata records.
-/
def header : Read (Nat × Nat × Nat) := do
  let found ← bytes 4
  if found ≠ magic then
    throw (.gguf (.badMagic found))
  let version ← u32
  if version < minVersion ∨ maxVersion < version then
    throw (.gguf (.unsupportedVersion version))
  let tensors ← u64
  let records ← u64
  return (version, tensors, records)

/--
As many dimensions as `count` says, in file order.
-/
def dims : (count : Nat) → Read (List Nat)
  | 0 => return []
  | count + 1 => do
    let d ← u64
    let rest ← dims count
    return d :: rest

def descriptor : Read Descriptor := do
  let name ← string
  let rank ← u32
  if maxRank < rank then
    throw (.gguf (.declaredRank name rank))
  let stored ← dims rank
  let shape := stored.reverse
  if (Shape.productFrom? 1 shape).isNone then
    throw (.gguf (.shapeOverflow name shape))
  let code ← u32
  match TensorType.ofCode? code with
  | none => throw (.gguf (.unknownTensorType code))
  | some type =>
    let offset ← u64
    return ⟨name, shape, type, offset⟩

end Read

namespace Container

/--
Read on from where the container is. It moves only if the read succeeds.
-/
def advance (read : Read α) : Call α := do
  let c ← getThe Container
  let data ← (c.data : Except Error (List UInt8))
  match read.run.run ⟨data, c.offset, c.maxStringLen⟩ with
  | (.ok a, cursor) =>
    modify ({ · with offset := cursor.offset })
    return a
  | (.error e, _) => throw e

/--
Open the file with the number `file` and the content `data`, to which `path` leads. Its alignment is
the default one until a metadata record says otherwise.
-/
def openData (path : String) (file : Nat) (data : List UInt8) (config : CodecConfig)
    : Except Error Container := do
  let c : Container := {
    medium := .opened file data
    path
    alignment := defaultAlignment
    version := config.version
    maxStringLen := config.maxStringLen
  }
  let ((version, tensorCount, recordCount), c) ←
    match (advance Read.header).run.run c with
    | (.ok header, c) => .ok (header, c)
    | (.error e, _) => .error e
  return { c with version, tensorCount, recordCount }

/--
The key of the next metadata record, or none after the last. A value must be read after every key.
-/
def nextKey : Call (Option String) := do
  let c ← getThe Container
  (c.expectSection "next_key" .metadata : Except Error Unit)
  if c.awaitsValue then
    throw (.gguf .valuePending)
  if c.recordsDone = c.recordCount then
    modify ({ · with current := .descriptors })
    return none
  let key ← advance Read.string
  modify ({ · with awaitsValue := true })
  return some key

/--
The value of the record whose key was read last.
-/
def readValue : Call MetaValue := do
  let c ← getThe Container
  (c.expectSection "read_value" .metadata : Except Error Unit)
  if !c.awaitsValue then
    throw (.gguf .noPendingKey)
  let value ← advance (do Read.value (← Read.u32))
  modify fun c => { c with awaitsValue := false, recordsDone := c.recordsDone + 1 }
  return value

/--
The next descriptor, or none after the last. After the last, the data section is located.
-/
def nextDescriptor : Call (Option Descriptor) := do
  modify fun c =>
    if c.current = .metadata ∧ c.recordsDone = c.recordCount ∧ !c.awaitsValue then
      { c with current := .descriptors }
    else
      c
  let c ← getThe Container
  (c.expectSection "next_tensor_info" .descriptors : Except Error Unit)
  if c.tensorsDone = c.tensorCount then
    modify fun c =>
      { c with current := .data, dataStart? := some (alignUp c.offset c.alignment) }
    return none
  let d ← advance Read.descriptor
  modify fun c => { c with tensorsDone := c.tensorsDone + 1 }
  return some d

/--
The bytes of `data` from `start` up to `stop`, if there are as many.
-/
def range? (data : List UInt8) (start size : Nat) : Option (List UInt8) :=
  if start + size ≤ data.length then
    some ((data.drop start).take size)
  else
    none

/--
The payload of a descriptor.
-/
def payload (c : Container) (d : Descriptor) : Except Error (List UInt8) := do
  c.expectSection "tensor_data" .data
  let data ← c.data
  if d.offset % c.alignment ≠ 0 then
    throw (.gguf (.misaligned d.name d.offset c.alignment))
  let size ← d.byteSize
  let start ← c.dataStart
  match range? data (start + d.offset) size with
  | some bytes => return bytes
  | none => throw (.gguf (.pastEnd d.name size d.offset))

end Container

end TensorFiles.Gguf
