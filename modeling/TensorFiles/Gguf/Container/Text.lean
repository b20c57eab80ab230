import TensorFiles.Gguf.Container.Basic
import TensorFiles.Text.Quoted
/-!
This module contains the text that shows a container in diagnostics.
-/

namespace TensorFiles.Gguf.Container

/--
One field of the text.
-/
def fieldText (name value : String) : String :=
  name ++ ": " ++ value ++ ", "

/--
The path, the mode and the place of a container.
-/
def text (c : Container) : String :=
  "ContainerContext \x7b " ++ fieldText "path" (Text.quote c.path) ++ fieldText "mode" c.modeName ++
    fieldText "cursor" (Text.number c.offset) ++ fieldText "alignment" (Text.number c.alignment) ++
    fieldText "section" c.current.name ++ ".. \x7d"

end TensorFiles.Gguf.Container
