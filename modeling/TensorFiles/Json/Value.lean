import TensorFiles.Double
/-!
This module contains JSON values. The fields of an object keep their order, and a name may occur in
it more than once.
-/

namespace TensorFiles

inductive Json where
  | null
  | bool (b : Bool)
  | int (n : Int)
  /-- A finite number, by its bits in double precision. -/
  | float (bits : Nat)
  | string (s : String)
  | array (elements : List Json)
  | object (fields : List (String × Json))

namespace Json

/--
The number of the given double precision bits. What is not finite has no form as a number.
-/
def ofDouble (bits : Nat) : Json :=
  if Double.isFinite bits then .float bits else .null

def nat (n : Nat) : Json := .int n

/--
The values of all fields of some name.
-/
def fieldsNamed (name : String) (fields : List (String × Json)) : List Json :=
  (fields.filter (fun f => f.1 == name)).map (·.2)

end Json

end TensorFiles
