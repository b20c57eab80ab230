import TensorFiles.Json.Parser
import TensorFiles.Json.Printer
import TensorFiles.SafeTensors.ElementType
import TensorFiles.SafeTensors.Fault
import TensorFiles.Shape
import TensorFiles.Table
/-!
This module contains the header of a `.safetensors` file: a table of strings, and for every tensor its
element type, its shape and the range of its bytes. The ranges follow each other without gaps.
-/

namespace TensorFiles.SafeTensors

/--
The name of the field that holds the table of strings.
-/
def metadataKey : String := "__metadata__"

/--
What a header says about one tensor. Its bytes go from `start` up to `stop`.
-/
structure Entry where
  type : ElementType
  shape : List Nat
  start : Nat
  stop : Nat
  deriving DecidableEq

structure Header where
  metadata : Table String
  entries : Table Entry
  deriving DecidableEq

namespace Entry

def toJson (e : Entry) : Json :=
  .object [("dtype", .string e.type.name), ("shape", .array (e.shape.map .nat)),
    ("data_offsets", .array [.nat e.start, .nat e.stop])]

def nat? : Json → Option Nat
  | .int (.ofNat n) => some n
  | _ => none

/--
An element type is given by its name, which may be that of the only field of an object, with no value.
-/
def type? : Json → Option ElementType
  | .string name => ElementType.ofName? name
  | .object [(name, .null)] => ElementType.ofName? name
  | _ => none

def shape? : Json → Option (List Nat)
  | .array dims => dims.mapM nat?
  | _ => none

def range? : Json → Option (Nat × Nat)
  | .array [start, stop] => do
    let start ← nat? start
    let stop ← nat? stop
    return (start, stop)
  | _ => none

def ofParts? (type shape range : Json) : Option Entry := do
  let type ← type? type
  let shape ← shape? shape
  let (start, stop) ← range? range
  return ⟨type, shape, start, stop⟩

/--
An entry is an object with three fields, none of them twice, or an array of their values.
-/
def ofJson? : Json → Option Entry
  | .object fields =>
    match Json.fieldsNamed "dtype" fields, Json.fieldsNamed "shape" fields,
      Json.fieldsNamed "data_offsets" fields with
    | [type], [shape], [range] => ofParts? type shape range
    | _, _, _ => none
  | .array [type, shape, range] => ofParts? type shape range
  | _ => none

end Entry

namespace Header

def string? : Json → Option String
  | .string s => some s
  | _ => none

/--
The table of strings, which is empty if it is not there.
-/
def metadata? : List Json → Option (Table String)
  | [] | [.null] => some .empty
  | [.object fields] => do
    let pairs ← fields.mapM (fun (key, value) => (string? value).map (fun s => (key, s)))
    return Table.ofList pairs
  | _ => none

def ofJson? : Json → Option Header
  | .object fields => do
    let metadata ← metadata? (Json.fieldsNamed metadataKey fields)
    let others := fields.filter (fun f => f.1 != metadataKey)
    let entries ← others.mapM (fun (name, value) => (Entry.ofJson? value).map (fun e => (name, e)))
    return ⟨metadata, Table.ofList entries⟩
  | _ => none

/--
The table of strings and then the entries, in the order of their bytes. An empty table is left out.
-/
def toJson (metadata : Table String) (entries : List (String × Entry)) : Json :=
  let strings : Json := .object (metadata.entries.map (fun (key, s) => (key, .string s)))
  let table := if metadata.isEmpty then [] else [(metadataKey, strings)]
  .object (table ++ entries.map (fun (name, e) => (name, e.toJson)))

/--
Whether the bytes of one entry come before those of another.
-/
def isBefore (a b : String × Entry) : Bool :=
  a.2.start < b.2.start || a.2.start == b.2.start && a.2.stop ≤ b.2.stop

/--
The entries in the order of their bytes.
-/
def layout (h : Header) : List (String × Entry) :=
  h.entries.entries.mergeSort isBefore

/--
The number of bytes that an entry's elements take.
-/
def size (e : Entry) : Except Fault Nat :=
  match (Shape.productFrom? 1 e.shape).bind (fun n => Shape.productFrom? n [e.type.bits]) with
  | none => .error .sizeOverflow
  | some bits => if bits % 8 = 0 then .ok (bits / 8) else .error .misalignedSlice

/--
The end of the bytes of entries that follow each other from `start` on.
-/
def endFrom (start : Nat) : List (String × Entry) → Except Fault Nat
  | [] => .ok start
  | (name, e) :: rest =>
    if e.start ≠ start ∨ e.stop < e.start then
      .error (.invalidOffset name)
    else
      match size e with
      | .error fault => .error fault
      | .ok size => if e.stop - e.start = size then endFrom e.stop rest else .error .sizeMismatch

end Header

end TensorFiles.SafeTensors
