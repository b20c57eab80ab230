/-!
This module contains the digits of texts in decimal and hexadecimal.
-/

namespace TensorFiles.Text

def isDigit (c : Char) : Bool := '0' ≤ c && c ≤ '9'

/--
The value of a digit in the bases up to 16.
-/
def digitValue? (c : Char) : Option Nat :=
  if '0' ≤ c ∧ c ≤ '9' then some (c.toNat - '0'.toNat)
  else if 'a' ≤ c ∧ c ≤ 'f' then some (c.toNat - 'a'.toNat + 10)
  else if 'A' ≤ c ∧ c ≤ 'F' then some (c.toNat - 'A'.toNat + 10)
  else none

/--
Whether a character is a digit in some base.
-/
def isDigitIn (base : Nat) (c : Char) : Bool :=
  match digitValue? c with
  | some d => d < base
  | none => false

/--
The number that digits stand for.
-/
def ofDigits (base : Nat) (digits : List Char) : Nat :=
  digits.foldl (fun n c => n * base + (digitValue? c).getD 0) 0

/--
The decimal digits at the front of a text, of which there must be one, and what follows them.
-/
def digits? (cs : List Char) : Option (List Char × List Char) :=
  match cs.takeWhile isDigit with
  | [] => none
  | digits => some (digits, cs.dropWhile isDigit)

end TensorFiles.Text
