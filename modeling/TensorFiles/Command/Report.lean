import TensorFiles.Command.Conversion
/-!
This module contains reports on what a file holds, as JSON and as text.
-/

namespace TensorFiles.Command

structure ContainerHeader where
  version : Nat
  alignment : Nat
  dataStart : Nat

/--
One tensor of a report. Its type is the payload type where the file is a container, which also has
the place of the payload.
-/
structure Row where
  name : String
  type : String
  shape : List Nat
  offset? : Option Nat

structure Report where
  path : String
  format : FileFormat
  header? : Option ContainerHeader
  metadata : Table Json
  rows : List Row

namespace Report

def ofSummary (path : String) (s : Gguf.Summary) : Report where
  path
  format := .gguf
  header? := some ⟨s.version, s.alignment, s.dataStart⟩
  metadata := s.metadata.map (fun _ v => v.toJson)
  rows := s.tensors.map (fun d => ⟨d.name, d.type.name, d.shape, some d.offset⟩)

def ofContent (path : String) (format : FileFormat) (c : Gguf.Content) : Report where
  path
  format
  header? := none
  metadata := c.metadata.map (fun _ v => v.toJson)
  rows := c.tensors.entries.map (fun (name, t) => ⟨name, t.dtype.name, t.shape, none⟩)

/--
The report on the file that `path` leads to.
-/
def ofFile (env : Environment) (d : Disk) (path : String) (s : Settings)
    : Except Failure Report := do
  match ← formatOf path with
  | .gguf =>
    let summary ← Failure.during s!"failed to inspect {path}"
      (Failure.lift (Gguf.inspect d path (.ofEnvironment env)))
    return ofSummary path summary
  | format =>
    let content ← Failure.during s!"failed to read {path}" (loadAny d path s)
    return ofContent path format content

end Report

def ContainerHeader.toJson (h : ContainerHeader) : Json :=
  .object [("version", .nat h.version), ("alignment", .nat h.alignment),
    ("data_start", .nat h.dataStart)]

def Row.toJson (r : Row) : Json :=
  let offset :=
    match r.offset? with
    | some offset => [("offset", Json.nat offset)]
    | none => []
  .object ([("name", .string r.name), ("dtype", .string r.type),
    ("shape", .array (r.shape.map .nat))] ++ offset)

/--
The line of a tensor in the text of a report.
-/
def Row.text (r : Row) : String :=
  let shape := Text.numbers r.shape
  let front := "  " ++ Text.padEnd 48 r.name ++ " " ++ Text.padEnd 8 r.type ++ " "
  match r.offset? with
  | some offset => front ++ Text.padEnd 20 shape ++ " @" ++ Text.number offset
  | none => front ++ shape

namespace Report

def toJson (r : Report) : Json :=
  let header :=
    match r.header? with
    | some h => [("header", h.toJson)]
    | none => []
  .object ([("path", .string r.path), ("format", .string r.format.extension)] ++ header ++
    [("metadata", .object r.metadata.entries), ("tensors", .array (r.rows.map Row.toJson))])

def headerText (h : ContainerHeader) : String :=
  s!"  version: {h.version}  alignment: {h.alignment}  data start: {h.dataStart}"

/--
The lines of the text of a report.
-/
def lines (r : Report) : List String :=
  let header :=
    match r.header? with
    | some h => [headerText h]
    | none => []
  let metadata :=
    if r.metadata.isEmpty then
      []
    else
      ["", s!"Metadata ({r.metadata.size})"] ++
        r.metadata.entries.map (fun (key, v) => "  " ++ Text.padEnd 40 key ++ " " ++ v.compact)
  [s!"{r.path} ({r.format.extension})"] ++ header ++ metadata ++
    ["", s!"Tensors ({r.rows.length})"] ++ r.rows.map Row.text

/--
What the report looks like on a terminal.
-/
def text (r : Report) (json : Bool) : String :=
  if json then r.toJson.pretty ++ "\n" else String.join (r.lines.map (· ++ "\n"))

end Report

end TensorFiles.Command
