import TensorFiles.Path
/-!
This module contains the file formats, which are told by the extensions of paths.
-/

namespace TensorFiles

inductive FileFormat where
  | npy
  | safeTensors
  | gguf
  deriving DecidableEq

namespace FileFormat

def all : List FileFormat := [.npy, .safeTensors, .gguf]

def extension : FileFormat → String
  | .npy => "npy"
  | .safeTensors => "safetensors"
  | .gguf => "gguf"

/--
The format whose extension a path has.
-/
def ofPath? (path : String) : Option FileFormat :=
  all.find? (fun format => Path.hasExtension format.extension path)

/--
The path that a file of the format is saved under.
-/
def normalize (format : FileFormat) (path : String) : String :=
  Path.withExtension format.extension path

end FileFormat

end TensorFiles
