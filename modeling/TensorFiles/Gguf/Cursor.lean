import TensorFiles.Bytes.LittleEndian
import TensorFiles.Error
/-!
This module contains the bounds-checked reading of a GGUF file from front to back. A read takes
exactly the bytes it is made of; one that is made of several stops at the first that fails, with the
bytes of those before it taken.
-/

namespace TensorFiles.Gguf

structure Cursor where
  data : List UInt8
  offset : Nat
  /-- Upper bound on the length of strings. -/
  maxStringLen : Nat

/--
Reads of an `α` that move a cursor, also when they fail.
-/
abbrev Read (α : Type) : Type := ExceptT Error (StateM Cursor) α

namespace Cursor

/--
The number of bytes after the cursor.
-/
def remaining (c : Cursor) : Nat := c.data.length - c.offset

end Cursor

namespace Read

def bytes (length : Nat) : Read (List UInt8) := do
  let c ← getThe Cursor
  if c.offset + length ≤ c.data.length then
    set { c with offset := c.offset + length }
    return (c.data.drop c.offset).take length
  else
    throw (.gguf (.endOfData length c.offset c.remaining))

/--
A little-endian number of some width.
-/
def nat (width : Nat) : Read Nat :=
  LittleEndian.decode <$> bytes width

def u8 : Read Nat := nat 1

def u32 : Read Nat := nat 4

def u64 : Read Nat := nat 8

/--
A count of things that each take a byte or more, so that it cannot exceed what remains.
-/
def length (what : String) : Read Nat := do
  let start := (← getThe Cursor).offset
  let n ← u64
  let remaining := (← getThe Cursor).remaining
  if n ≤ remaining then
    return n
  else
    throw (.gguf (.lengthTooLarge what n start remaining))

/--
A length and that many bytes of text. Bytes that are not UTF-8 are replaced.
-/
def string : Read String := do
  let c ← getThe Cursor
  let n ← u64
  if c.maxStringLen < n then
    throw (.gguf (.stringTooLong n c.maxStringLen c.offset))
  let text ← bytes n
  return String.ofList (Utf8.decodeLossy text)

/--
As many strings as `count` says.
-/
def strings : Nat → Read (List String)
  | 0 => return []
  | count + 1 => do
    let s ← string
    let rest ← strings count
    return s :: rest

end Read

/--
The bytes that `Read.string` reads as `s`.
-/
def encodeString (s : String) : List UInt8 :=
  LittleEndian.encode 8 s.utf8ByteSize ++ Utf8.encode s

end TensorFiles.Gguf
