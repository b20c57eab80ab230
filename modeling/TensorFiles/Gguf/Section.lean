/-!
This module contains the three sections of a GGUF container, in file order.
-/

namespace TensorFiles.Gguf

inductive Section where
  | metadata
  | descriptors
  | data
  deriving DecidableEq

namespace Section

def name : Section → String
  | .metadata => "Metadata"
  | .descriptors => "Descriptors"
  | .data => "Data"

/--
The place of a section in the file.
-/
def rank : Section → Nat
  | .metadata => 0
  | .descriptors => 1
  | .data => 2

end Section

end TensorFiles.Gguf
