import TensorFiles.Failure
import TensorFiles.Gguf.Load
import TensorFiles.Gguf.Save
import TensorFiles.Json.Tensor
import TensorFiles.Npy.Stream
import TensorFiles.SafeTensors.Archive
import TensorFiles.Settings
/-!
This module contains the loading of a file of any format, and the conversion of one format to another.
-/

namespace TensorFiles.Command

def formatOf (path : String) : Except Failure FileFormat :=
  match FileFormat.ofPath? path with
  | some format => .ok format
  | none =>
    .error (.refused
      s!"cannot tell the format of {path} (expected .npy, .safetensors or .gguf)")

/--
The name of the tensor of an `.npy` file.
-/
def tensorName (path : String) : String :=
  match Path.stem? path with
  | some stem => String.ofList stem
  | none => "array"

/--
The tensors and the metadata of a file of any format. Strings become metadata values.
-/
def loadAny (d : Disk) (path : String) (s : Settings) : Except Failure Gguf.Content := do
  match ← formatOf path with
  | .npy =>
    let t ← Failure.lift (Npy.load d path)
    return ⟨Table.empty.insert (tensorName path) t, .empty⟩
  | .safeTensors =>
    let archive ← Failure.lift (SafeTensors.load d path)
    return ⟨archive.tensors, archive.metadata.map (fun _ text => .string text)⟩
  | .gguf => Failure.lift (Gguf.load d path s.codec)

/--
The tensor of a content that has only one.
-/
def onlyTensor (path : String) (tensors : Table Tensor) : Except Failure Tensor :=
  match tensors.entries with
  | [(_, t)] => .ok t
  | entries =>
    .error (.refused
      s!"{path} holds {entries.length} tensors; .npy output needs exactly one")

/--
Save a content, that comes from the file `input`, in some format. What the format cannot hold of the
metadata is left out, or becomes text.
-/
def saveAs (format : FileFormat) (d : Disk) (input output : String) (content : Gguf.Content)
    (s : Settings) : Except Failure String × Disk :=
  let views := content.tensors.map (fun _ t => t.toView)
  match format with
  | .npy =>
    match onlyTensor input content.tensors with
    | .error f => (.error f, d)
    | .ok t =>
      let (result, d) := Npy.save d output t.toView
      (Failure.lift result, d)
  | .safeTensors =>
    let (result, d) := SafeTensors.save d output views (content.metadata.map (fun _ v => v.text))
    (Failure.lift result, d)
  | .gguf =>
    let (result, d) := Gguf.save d output views content.metadata s.codec
    (Failure.lift result, d)

/--
Convert the file `input` to the format of `output`. The result is the path that is written.
-/
def convert (d : Disk) (input output : String) (s : Settings) : Except Failure String × Disk :=
  let source : Except Failure (FileFormat × Gguf.Content) := do
    let format ← formatOf output
    let content ← Failure.during s!"failed to read {input}" (loadAny d input s)
    return (format, content)
  match source with
  | .error f => (.error f, d)
  | .ok (format, content) => saveAs format d input output content s

end TensorFiles.Command
