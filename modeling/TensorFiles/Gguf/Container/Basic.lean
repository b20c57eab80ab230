import TensorFiles.Config
import TensorFiles.Gguf.Block
import TensorFiles.Gguf.MetaValue
/-!
This module contains containers that are open: one file together with the place and the section that
reading or writing has come to. Sections only move forward, from the metadata over the descriptors to
the data. A call that fails keeps what it did before it failed.
-/

namespace TensorFiles.Gguf

/--
The bytes a container begins with: `GGUF`.
-/
def magic : List UInt8 := [0x47, 0x47, 0x55, 0x46]

def hasMagic (data : List UInt8) : Bool :=
  data.take 4 == magic

/--
The version in the header of a container.
-/
def version? (data : List UInt8) : Option Nat :=
  if 8 ≤ data.length ∧ hasMagic data then
    some (LittleEndian.decode ((data.drop 4).take 4))
  else
    none

/--
One entry of the tensor index. The offset counts from the start of the data section.
-/
structure Descriptor where
  name : String
  shape : List Nat
  type : TensorType
  offset : Nat
  deriving DecidableEq

namespace Descriptor

def numel (d : Descriptor) : Nat := Shape.numel d.shape

/--
The size of the payload in bytes.
-/
def byteSize (d : Descriptor) : Except Error Nat := do
  d.type.byteSizeOf d.name (← Shape.product d.shape)

/--
The bytes of a descriptor. Dimensions are stored with the fastest varying one first.
-/
def encode (d : Descriptor) : List UInt8 :=
  encodeString d.name ++ LittleEndian.encode 4 d.shape.length ++
    d.shape.reverse.flatMap (LittleEndian.encode 8) ++ LittleEndian.encode 4 d.type.code ++
    LittleEndian.encode 8 d.offset

end Descriptor

/--
What has been written to a file, of which the first `flushed` bytes have left the buffer.
-/
structure Output where
  /-- The number of the file. -/
  file : Nat
  image : List UInt8
  flushed : Nat

namespace Output

/--
The number of bytes the buffer holds.
-/
def capacity : Nat := 8192

/--
Write bytes after those that are written. They go to the buffer if they fit beside what is there,
else the buffer is emptied first; a run that no buffer could hold passes it by.
-/
def push (o : Output) (bytes : List UInt8) : Output :=
  let spare := capacity - (o.image.length - o.flushed)
  let emptied := if spare < bytes.length then o.image.length else o.flushed
  { o with
    image := o.image ++ bytes
    flushed := if capacity ≤ bytes.length then o.image.length + bytes.length else emptied }

@[simp]
theorem image_push (o : Output) (bytes : List UInt8) : (o.push bytes).image = o.image ++ bytes :=
  rfl

end Output

/--
The file of a container: the number and the content of one that is read, or the output of one that
is written.
-/
inductive Medium where
  | opened (file : Nat) (data : List UInt8)
  | created (output : Output)

structure Container where
  medium : Medium
  path : String
  offset : Nat := 0
  alignment : Nat
  current : Section := .metadata
  version : Nat
  maxStringLen : Nat
  /-- The number of tensors the header declares. -/
  tensorCount : Nat := 0
  /-- The number of metadata records the header declares. -/
  recordCount : Nat := 0
  /-- The number of metadata records read or written. -/
  recordsDone : Nat := 0
  /-- The number of descriptors read or written. -/
  tensorsDone : Nat := 0
  /-- Whether a key has been read whose value has not. -/
  awaitsValue : Bool := false
  dataStart? : Option Nat := none
  /-- The offsets and sizes of the descriptors written. -/
  extents : List (Nat × Nat) := []
  /-- The number of payloads written. -/
  payloadsDone : Nat := 0

/--
Calls on a container, with what they leave behind also when they fail.
-/
abbrev Call (α : Type) : Type := ExceptT Error (StateM Container) α

namespace Container

def isCreated (c : Container) : Bool :=
  match c.medium with
  | .opened _ _ => false
  | .created _ => true

def modeName (c : Container) : String :=
  if c.isCreated then "Create" else "Read"

/--
The content of the file of a container that is read.
-/
def data (c : Container) : Except Error (List UInt8) :=
  match c.medium with
  | .opened _ data => .ok data
  | .created _ => .error (.gguf .createdForWriting)

def expectSection (c : Container) (operation : String) (expected : Section) : Except Error Unit :=
  if c.current = expected then
    .ok ()
  else
    .error (.gguf (.wrongSection operation c.current expected))

/--
Where the data section starts, once that is known.
-/
def dataStart (c : Container) : Except Error Nat :=
  match c.dataStart? with
  | some start => .ok start
  | none => .error (.gguf .indexUnread)

/--
Replace the alignment of the data, which must not have been located yet.
-/
def setAlignment (alignment : Nat) : Call Unit := do
  if !isPowerOfTwo alignment then
    throw (.gguf (.alignmentNotPowerOfTwo alignment))
  if (← getThe Container).current = .data then
    throw (.gguf .alignmentFixed)
  modify ({ · with alignment })

end Container

end TensorFiles.Gguf
