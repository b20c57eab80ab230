import TensorFiles.Alignment
/-!
This module contains the decimal numerals of natural numbers: writing them, and reading one that
has to fit a machine word.
-/

namespace TensorFiles.Numeral

/--
The decimal digits of `n`, most significant first, without leading zeros.
-/
def encode (n : Nat) : List Char :=
  if n < 10 then
    [Nat.digitChar n]
  else
    encode (n / 10) ++ [Nat.digitChar (n % 10)]

/--
Why a text is not the numeral of a number in range.
-/
inductive Fault where
  | empty
  | invalidDigit
  | tooLarge
  deriving DecidableEq

def Fault.message : Fault → String
  | .empty => "cannot parse integer from empty string"
  | .invalidDigit => "invalid digit found in string"
  | .tooLarge => "number too large to fit in target type"

def digit? (c : Char) : Option Nat :=
  if '0' ≤ c ∧ c ≤ '9' then some (c.toNat - '0'.toNat) else none

/--
Read on from the number `acc`, digit by digit; the first digit at which the number leaves the range
decides.
-/
def decodeFrom (bound acc : Nat) : List Char → Except Fault Nat
  | [] => .ok acc
  | c :: rest =>
    match digit? c with
    | none => .error .invalidDigit
    | some d => if acc * 10 + d < bound then decodeFrom bound (acc * 10 + d) rest else .error .tooLarge

/--
The number below `bound` that a numeral stands for. One plus sign may come first.
-/
def decode (bound : Nat) : List Char → Except Fault Nat
  | [] => .error .empty
  | ['+'] => .error .invalidDigit
  | '+' :: rest => decodeFrom bound 0 rest
  | cs => decodeFrom bound 0 cs

end TensorFiles.Numeral
