import TensorFiles.Decimal.Shortest
import TensorFiles.Json.Quoted
import TensorFiles.Json.Value
/-!
This module contains the two written forms of JSON values: the compact one without any blanks, and
the one with a line for each element and each field.
-/

namespace TensorFiles.Json

/--
The decimal exponents of the first digit for which a number is written without an exponent.
-/
def isPositional (exponent : Int) : Bool :=
  -5 ≤ exponent && exponent ≤ 15

def zeros (n : Nat) : List Char := List.replicate n '0'

def printInt : Int → List Char
  | .ofNat n => Numeral.encode n
  | .negSucc n => '-' :: Numeral.encode (n + 1)

/--
The text of a positive decimal. There is always a digit after the point, if there is a point.
-/
def printDecimal (d : Decimal) : List Char :=
  let digits := Numeral.encode d.digits
  let first := digits.length + d.exponent - 1
  if !isPositional first then
    let fraction :=
      match digits.drop 1 with
      | [] => []
      | rest => '.' :: rest
    let mark := if 0 ≤ first then ['e', '+'] else ['e', '-']
    digits.take 1 ++ fraction ++ mark ++ Numeral.encode first.natAbs
  else if 0 ≤ d.exponent then
    digits ++ zeros d.exponent.toNat ++ ['.', '0']
  else if 0 ≤ first then
    digits.take (first.toNat + 1) ++ ['.'] ++ digits.drop (first.toNat + 1)
  else
    ['0', '.'] ++ zeros (-first - 1).toNat ++ digits

def printDouble (bits : Nat) : List Char :=
  let sign := if Double.isNegative bits then ['-'] else []
  let magnitude := Double.magnitude bits
  sign ++ (if magnitude = 0 then ['0', '.', '0'] else printDecimal (Decimal.ofDouble magnitude))

mutual

/--
The compact form.
-/
def print : Json → List Char
  | .null => "null".toList
  | .bool true => "true".toList
  | .bool false => "false".toList
  | .int n => printInt n
  | .float bits => printDouble bits
  | .string s => quote s.toList
  | .array [] => ['[', ']']
  | .array (e :: es) => '[' :: print e ++ printElements es
  | .object [] => ['\x7b', '\x7d']
  | .object (f :: fs) => '\x7b' :: printField f ++ printFields fs

/--
The rest of an array.
-/
def printElements : List Json → List Char
  | [] => [']']
  | e :: es => ',' :: print e ++ printElements es

def printField : String × Json → List Char
  | (name, value) => quote name.toList ++ ':' :: print value

/--
The rest of an object.
-/
def printFields : List (String × Json) → List Char
  | [] => ['\x7d']
  | f :: fs => ',' :: printField f ++ printFields fs

end

def compact (json : Json) : String := String.ofList (print json)

/--
A new line at some depth.
-/
def newLine (depth : Nat) : List Char :=
  '\n' :: List.replicate (2 * depth) ' '

mutual

/--
The form with lines, at some depth.
-/
def printLines (depth : Nat) : Json → List Char
  | .array (e :: es) =>
    '[' :: newLine (depth + 1) ++ printLines (depth + 1) e ++ printElementLines depth es
  | .object (f :: fs) =>
    '\x7b' :: newLine (depth + 1) ++ printFieldLine (depth + 1) f ++ printFieldLines depth fs
  | json => print json

def printElementLines (depth : Nat) : List Json → List Char
  | [] => newLine depth ++ [']']
  | e :: es =>
    ',' :: newLine (depth + 1) ++ printLines (depth + 1) e ++ printElementLines depth es

def printFieldLine (depth : Nat) : String × Json → List Char
  | (name, value) => quote name.toList ++ [':', ' '] ++ printLines depth value

def printFieldLines (depth : Nat) : List (String × Json) → List Char
  | [] => newLine depth ++ ['\x7d']
  | f :: fs =>
    ',' :: newLine (depth + 1) ++ printFieldLine (depth + 1) f ++ printFieldLines depth fs

end

def pretty (json : Json) : String := String.ofList (printLines 0 json)

end TensorFiles.Json
