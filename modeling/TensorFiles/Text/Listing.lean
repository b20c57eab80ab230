import TensorFiles.Text.Numeral
/-!
This module contains the texts of numbers, bytes and lists of them, and the filling up of columns.
-/

namespace TensorFiles.Text

def number (n : Nat) : String :=
  String.ofList (Numeral.encode n)

/--
The text of a list of numbers: `[2, 3]`.
-/
def numbers (ns : List Nat) : String :=
  "[" ++ ", ".intercalate (ns.map number) ++ "]"

/--
The two lower case hexadecimal digits of a byte.
-/
def hexByte (b : UInt8) : String :=
  String.ofList [Nat.digitChar (b.toNat / 16), Nat.digitChar (b.toNat % 16)]

/--
The text of a list of bytes: `[47, 0a]`.
-/
def hexBytes (bytes : List UInt8) : String :=
  "[" ++ ", ".intercalate (bytes.map hexByte) ++ "]"

/--
A text filled up with spaces to at least `width` characters.
-/
def padEnd (width : Nat) (s : String) : String :=
  s ++ String.ofList (List.replicate (width - s.length) ' ')

end TensorFiles.Text
