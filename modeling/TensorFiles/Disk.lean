import TensorFiles.Error
import TensorFiles.Path
/-!
This module contains the file system that files are read from and written to: a tree of directories
and files below the working directory. A file is known by a number, so that one that is open for
writing stays the same file when it is removed or when another takes its name.
-/

namespace TensorFiles

namespace Disk

/--
The names that lead to a place from the working directory. A place that is given from the root
starts with `/`, and one outside the working directory with as many `..` as there are steps up to it.
-/
abbrev Place : Type := List String

inductive Node where
  | directory
  | file (id : Nat) (data : List UInt8)
  deriving DecidableEq

end Disk

structure Disk where
  nodes : List (Disk.Place × Disk.Node)
  /-- The number of the next new file. -/
  nextId : Nat

namespace Disk

def empty : Disk := ⟨[], 0⟩

/--
Whether a place is the working directory or above it.
-/
def isAbove (place : Place) : Bool := place.all (· == "..")

/--
What is at a place. The root, the working directory and those above it are always there.
-/
def node? (d : Disk) (place : Place) : Option Node :=
  if place = ["/"] ∨ isAbove place then
    some .directory
  else
    (d.nodes.find? (fun p => p.1 == place)).map (·.2)

/--
The place a place is in. Nothing is above the root.
-/
def parent (place : Place) : Place :=
  if place = ["/"] then place
  else if isAbove place then ".." :: place
  else place.dropLast

/--
The most bytes that the name of a file may have.
-/
def maxNameLength : Nat := 255

/--
The most bytes that a path may have.
-/
def maxPathLength : Nat := 4095

/--
Take one step from a place, which must be a directory.
-/
def step (d : Disk) (place : Place) (name : List Char) : Except IoFailure Place :=
  match d.node? place with
  | none => .error .notFound
  | some (.file _ _) => .error .notADirectory
  | some .directory =>
    if name = ['.'] then .ok place
    else if name = ['.', '.'] then .ok (parent place)
    else if maxNameLength < (String.ofList name).utf8ByteSize then .error .nameTooLong
    else .ok (place ++ [String.ofList name])

/--
The steps of a path, which may be `.` and `..`, too.
-/
def steps (path : String) : List (List Char) :=
  (Text.splitOn '/' path.toList).filter (· != [])

/--
The place that a path starts from.
-/
def start (path : String) : Place :=
  if path.toList.head? = some '/' then ["/"] else []

/--
Whether a path can only name a directory.
-/
def endsInSlash (path : String) : Bool :=
  path.toList.getLast? == some '/'

def validate (path : String) : Except IoFailure Unit :=
  if path = "" then .error .notFound
  else if '\x00' ∈ path.toList then .error .nulInPath
  else if maxPathLength < path.utf8ByteSize then .error .nameTooLong
  else .ok ()

/--
The place a path leads to, at which there need not be anything.
-/
def resolve (d : Disk) (path : String) : Except IoFailure Place := do
  validate path
  (steps path).foldlM d.step (start path)

/--
What a path leads to.
-/
def find (d : Disk) (path : String) : Except IoFailure Node := do
  match d.node? (← d.resolve path) with
  | none => .error .notFound
  | some .directory => .ok .directory
  | some (.file id data) =>
    if endsInSlash path then .error .notADirectory else .ok (.file id data)

/--
The content of a file.
-/
def read (d : Disk) (path : String) : Except IoFailure (List UInt8) := do
  match ← d.find path with
  | .file _ data => .ok data
  | .directory => .error .isADirectory

/--
The number and the content of a file that is mapped into memory.
-/
def map (d : Disk) (path : String) : Except IoFailure (Nat × List UInt8) := do
  match ← d.find path with
  | .file id data => .ok (id, data)
  | .directory => .error .noDevice

/--
The content of the file with the number `id`, if it still has a name.
-/
def content? (d : Disk) (id : Nat) : Option (List UInt8) :=
  d.nodes.findSome? fun p =>
    match p.2 with
    | .file i data => if i = id then some data else none
    | .directory => none

def isFile (d : Disk) (path : String) : Bool :=
  match d.find path with
  | .ok (.file _ _) => true
  | _ => false

def contains (d : Disk) (path : String) : Bool :=
  match d.find path with
  | .ok _ => true
  | .error _ => false

/--
Put a node at a place, in the place of the one that is there.
-/
def put (d : Disk) (place : Place) (node : Node) : Disk :=
  { d with nodes := (place, node) :: d.nodes.filter (fun p => p.1 != place) }

/--
Open a file for writing, with its number. A file that is there becomes empty. A path that ends in a
slash is refused whether or not there is something, if only the directory is there that it is in.
-/
def create (d : Disk) (path : String) : Except IoFailure (Disk × Nat) := do
  validate path
  if endsInSlash path then
    let _ ← ((steps path).dropLast ++ [['.']]).foldlM d.step (start path)
    throw .isADirectory
  let place ← d.resolve path
  match d.node? place with
  | some .directory => throw .isADirectory
  | some (.file id _) => return (d.put place (.file id []), id)
  | none =>
    return ({ d.put place (.file d.nextId []) with nextId := d.nextId + 1 }, d.nextId)

/--
Bytes with `patch` put over them from `offset` on; what lies between is zero.
-/
def overwrite (data : List UInt8) (offset : Nat) (patch : List UInt8) : List UInt8 :=
  data.take offset ++ List.replicate (offset - data.length) 0 ++ patch ++
    data.drop (offset + patch.length)

/--
Write into the file with the number `id`, if it still has a name.
-/
def writeAt (d : Disk) (id offset : Nat) (patch : List UInt8) : Disk :=
  if patch = [] then
    d
  else
    { d with
      nodes := d.nodes.map fun (place, node) =>
        match node with
        | .file i data => if i = id then (place, .file i (overwrite data offset patch)) else (place, node)
        | .directory => (place, node) }

/--
Make `data` the whole content of a file.
-/
def write (d : Disk) (path : String) (data : List UInt8) : Except IoFailure Disk := do
  let (d, id) ← d.create path
  return d.writeAt id 0 data

/--
Take a file's name away, if there is one.
-/
def remove (d : Disk) (path : String) : Disk :=
  match d.find path, d.resolve path with
  | .ok (.file _ _), .ok place => { d with nodes := d.nodes.filter (fun p => p.1 != place) }
  | _, _ => d

/--
Make a directory, and the directories it is in.
-/
def makeDirectory (d : Disk) (path : String) : Disk :=
  match validate path with
  | .error _ => d
  | .ok () => go d (start path) (steps path)
where
  go (d : Disk) (place : Place) : List (List Char) → Disk
    | [] => d
    | name :: rest =>
      match d.step place name with
      | .error _ => d
      | .ok place =>
        match d.node? place with
        | some _ => go d place rest
        | none => go (d.put place .directory) place rest

/--
The names in the working directory, in order.
-/
def names (d : Disk) : List String :=
  (d.nodes.filterMap fun (place, _) =>
    match place with
    | [name] => if name = "/" then none else some name
    | _ => none).mergeSort (fun a b => a < b || a == b)

end Disk

end TensorFiles
