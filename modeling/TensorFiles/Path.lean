import TensorFiles.Text.Split
/-!
This module contains the parts of a path: the names between its slashes, and the stem and the
extension of the last of them.
-/

namespace TensorFiles.Path

/--
The names a path goes through. Doubled slashes, slashes at the end and `.` add nothing.
-/
def names (path : String) : List (List Char) :=
  (Text.splitOn '/' path.toList).filter (fun name => name != [] && name != ['.'])

/--
The name of what the path leads to, if its last step is not one up.
-/
def fileName? (path : String) : Option (List Char) :=
  match (names path).getLast? with
  | some name => if name = ['.', '.'] then none else some name
  | none => none

/--
The text before the last dot of a name, and the text after it. A name that only has a dot in front
has no extension.
-/
def splitName (name : List Char) : List Char × Option (List Char) :=
  let extension := (name.reverse.takeWhile (· != '.')).reverse
  let stem := name.take (name.length - extension.length - 1)
  if extension.length = name.length ∨ stem = [] then
    (name, none)
  else
    (stem, some extension)

def extension? (path : String) : Option (List Char) :=
  (fileName? path).bind (fun name => (splitName name).2)

def stem? (path : String) : Option (List Char) :=
  (fileName? path).map (fun name => (splitName name).1)

/--
Whether the extension of a path is `extension`, but for the case of ASCII letters.
-/
def hasExtension (extension : String) (path : String) : Bool :=
  match extension? path with
  | some e => e.map Char.toLower == extension.toList
  | none => false

/--
The path with `extension` appended, unless it has that extension.
-/
def withExtension (extension : String) (path : String) : String :=
  if hasExtension extension path then path else path ++ "." ++ extension

end TensorFiles.Path
