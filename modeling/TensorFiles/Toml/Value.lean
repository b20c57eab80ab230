/-!
This module contains TOML values, and the rules for adding to tables that exist: what a header or a
dotted key may extend, and that nothing is defined twice.
-/

namespace TensorFiles.Toml

/--
How a table came to be, which decides what may still be added to it: written in braces, opened by a
header of its own, implied by the header of a table in it, or implied by a dotted key.
-/
inductive Origin where
  | inline
  | header
  | implied
  | dotted
  deriving DecidableEq

inductive Value where
  | string (s : String)
  | integer (n : Int)
  /-- A number by its bits in double precision. -/
  | float (bits : Nat)
  | boolean (b : Bool)
  | datetime (text : String)
  | array (elements : List Value)
  | table (origin : Origin) (fields : List (String × Value))
  /-- The tables that repeated headers open one after the other. -/
  | tables (tables : List (List (String × Value)))

/--
The fields of a table. No name occurs twice.
-/
abbrev Fields : Type := List (String × Value)

namespace Fields

def find? (fields : Fields) (key : String) : Option Value :=
  (List.find? (fun f => f.1 == key) fields).map (·.2)

def erase (fields : Fields) (key : String) : Fields :=
  List.filter (fun f => f.1 != key) fields

/--
Give a field a value, whether or not it has one.
-/
def set (fields : Fields) (key : String) (value : Value) : Fields :=
  fields.erase key ++ [(key, value)]

/--
Add a field that must not be there yet.
-/
def add? (fields : Fields) (key : String) (value : Value) : Option Fields :=
  match fields.find? key with
  | none => some (fields ++ [(key, value)])
  | some _ => none

/--
Change the table that a path leads to, and take something from it. Tables that are missing on the way
come to be, by a dotted key or by a header. A dotted key does not lead through tables that have a
header, and nothing leads through values or tables in braces. The last table of several counts.
-/
def change? (dotted : Bool) (f : Origin → Fields → Option (Fields × α)) (origin : Origin)
    (path : List String) (fields : Fields) : Option (Fields × α) :=
  match path with
  | [] => f origin fields
  | key :: path =>
    match fields.find? key with
    | none => do
      let origin : Origin := if dotted then .dotted else .implied
      let (sub, a) ← change? dotted f origin path []
      return (fields.set key (.table origin sub), a)
    | some (.table origin sub) =>
      if origin = .inline ∨ dotted ∧ origin = .header then
        none
      else do
        let (sub, a) ← change? dotted f origin path sub
        return (fields.set key (.table origin sub), a)
    | some (.tables tables) => do
      let (sub, a) ← change? dotted f .header path (← tables.getLast?)
      return (fields.set key (.tables (tables.dropLast ++ [sub])), a)
    | some _ => none

/--
Add the value of a key, which may be dotted, to a table. A dotted key must end in a table that dotted
keys made.
-/
def assign? (fields : Fields) (path : List String) (key : String) (value : Value) : Option Fields :=
  match path with
  | [] => fields.add? key value
  | path =>
    let put (origin : Origin) (sub : Fields) : Option (Fields × Unit) :=
      if origin = .dotted then (sub.add? key value).map (·, ()) else none
    (change? true put .header path fields).map (·.1)

end Fields

end TensorFiles.Toml
