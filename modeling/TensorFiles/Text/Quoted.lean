import TensorFiles.Text.Hidden
/-!
This module contains the quoted form of texts for diagnostics. Double quotes and backslashes get a
backslash in front; characters that cannot be told from their looks are written as their code points.
-/

namespace TensorFiles.Text

/--
The lower case hexadecimal digits of a number, without leading zeros.
-/
def hexDigits (n : Nat) : List Char :=
  if n < 16 then
    [Nat.digitChar n]
  else
    hexDigits (n / 16) ++ [Nat.digitChar (n % 16)]

/--
How one character is written between quotes.
-/
def quoteChar (c : Char) : List Char :=
  if c = '\x00' then ['\\', '0']
  else if c = '\t' then ['\\', 't']
  else if c = '\r' then ['\\', 'r']
  else if c = '\n' then ['\\', 'n']
  else if c = '"' ∨ c = '\\' then ['\\', c]
  else if isHidden c then ['\\', 'u', '\x7b'] ++ hexDigits c.toNat ++ ['\x7d']
  else [c]

def quote (s : String) : String :=
  String.ofList (['"'] ++ s.toList.flatMap quoteChar ++ ['"'])

end TensorFiles.Text
