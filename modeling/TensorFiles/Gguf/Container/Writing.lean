import TensorFiles.Disk
import TensorFiles.Gguf.Container.Basic
/-!
This module contains the writing of a container: metadata records, then descriptors, then one payload
for each of them. The header's counts are filled in when the container is closed. A file that is not
closed in good order is removed.
-/

namespace TensorFiles.Gguf

/--
The bytes of a header.
-/
def encodeHeader (version tensors records : Nat) : List UInt8 :=
  magic ++ LittleEndian.encode 4 version ++ LittleEndian.encode 8 tensors ++
    LittleEndian.encode 8 records

namespace Container

/--
Write bytes to the file.
-/
def push (bytes : List UInt8) : Call Unit := do
  let c ← getThe Container
  match c.medium with
  | .created output =>
    set { c with medium := .created (output.push bytes), offset := c.offset + bytes.length }
  | .opened _ _ => throw (.gguf .notOpenForWriting)

/--
Write zeros up to an offset. They are put together in memory first, and there can only be so many. An
offset that is a sum and does not fit a machine word is always too far away, since files do not have
half as many bytes.
-/
def padTo (target : Nat) : Call Unit := do
  let c ← getThe Container
  if c.offset < target then
    if maxAllocation < target - c.offset then
      throw (.about target .sum (.panic .capacity))
    push (List.replicate (target - c.offset) 0)

def pushString (s : String) : Call Unit := do
  push (LittleEndian.encode 8 s.utf8ByteSize)
  push (Utf8.encode s)

/--
Create the file that `path` leads to, with a header without counts.
-/
def create (d : Disk) (path : String) (config : CodecConfig)
    : Except Error (Container × Disk) := do
  config.validate
  match d.create path with
  | .error failure => .error (.io path failure)
  | .ok (d, file) =>
    let output : Output := ⟨file, [], 0⟩
    let header := encodeHeader config.version 0 0
    .ok ({
      medium := .created (output.push header)
      path
      offset := header.length
      alignment := config.alignment
      version := config.version
      maxStringLen := config.maxStringLen
    }, d)

/--
Append a metadata record whose value is already in its byte form.
-/
def appendEncoded (key : String) (type : ValueType) (value : List UInt8) : Call Unit := do
  let c ← getThe Container
  (c.expectSection "append_kv" .metadata : Except Error Unit)
  pushString key
  push (LittleEndian.encode 4 type.code)
  push value
  modify fun c => { c with recordsDone := c.recordsDone + 1 }

def appendRecord (key : String) (value : MetaValue) : Call Unit := do
  let (type, bytes) ← (value.encode key : Except Error (ValueType × List UInt8))
  appendEncoded key type bytes

/--
Append a descriptor. Its offset must be aligned and not before the end of the previous payload.
-/
def appendDescriptor (d : Descriptor) : Call Unit := do
  modify fun c => if c.current = .metadata then { c with current := .descriptors } else c
  let c ← getThe Container
  (c.expectSection "append_tensor_info" .descriptors : Except Error Unit)
  if maxRank < d.shape.length then
    throw (.gguf (.rankTooLarge d.name d.shape.length))
  if d.offset % c.alignment ≠ 0 then
    throw (.gguf (.misaligned d.name d.offset c.alignment))
  match c.extents.getLast? with
  | some (offset, size) =>
    if d.offset < offset + size then
      throw (.about (offset + size) .sum (.gguf (.overlap d.name d.offset)))
  | none => pure ()
  let size ← (d.byteSize : Except Error Nat)
  pushString d.name
  push (LittleEndian.encode 4 d.shape.length)
  for dim in d.shape.reverse do
    push (LittleEndian.encode 8 dim)
  push (LittleEndian.encode 4 d.type.code)
  push (LittleEndian.encode 8 d.offset)
  modify fun c =>
    { c with extents := c.extents ++ [(d.offset, size)], tensorsDone := c.tensorsDone + 1 }

/--
Move to the data section, if the container is not there yet.
-/
def startData : Call Unit := do
  let c ← getThe Container
  if c.current ≠ .data then
    let start := alignUp c.offset c.alignment
    modify ({ · with current := .data })
    padTo start
    modify ({ · with dataStart? := some start })

/--
Append the payload of the next descriptor.
-/
def appendPayload (bytes : List UInt8) : Call Unit := do
  startData
  let c ← getThe Container
  match c.extents[c.payloadsDone]? with
  | none => throw (.gguf (.noDescriptor c.payloadsDone))
  | some (offset, size) =>
    if bytes.length ≠ size then
      throw (.gguf (.payloadSize c.payloadsDone bytes.length size))
    let start ← (c.dataStart : Except Error Nat)
    padTo (start + offset)
    push bytes
    modify fun c => { c with payloadsDone := c.payloadsDone + 1 }

/--
Bring to the disk what has left the buffer since the container was as `before`.
-/
def sync (before c : Container) (d : Disk) : Disk :=
  match c.medium with
  | .opened _ _ => d
  | .created output =>
    let known :=
      match before.medium with
      | .created output => output.flushed
      | .opened _ _ => 0
    d.writeAt output.file known ((output.image.take output.flushed).drop known)

/--
Forget a container without closing it. A file that was being written is removed.
-/
def discard (c : Container) (d : Disk) : Disk :=
  if c.isCreated then d.remove c.path else d

/--
Close a container. The file that was written gets its counts; it is removed if payloads are missing.
-/
def close (c : Container) (d : Disk) : Except Error Unit × Disk :=
  match c.medium with
  | .opened _ _ => (.ok (), d)
  | .created output =>
    if c.payloadsDone ≠ c.extents.length then
      (.error (.gguf (.payloadsMissing c.payloadsDone c.extents.length)), c.discard d)
    else
      let d := d.writeAt output.file output.flushed (output.image.drop output.flushed)
      let counts := LittleEndian.encode 8 c.tensorsDone ++ LittleEndian.encode 8 c.recordsDone
      (.ok (), d.writeAt output.file 8 counts)

end Container

end TensorFiles.Gguf
