import TensorFiles.Decimal.Nearest
import TensorFiles.Text.Digits
import TensorFiles.Text.Split
import TensorFiles.Toml.Value
/-!
This module contains the numbers of TOML, which may have underscores between their digits, and its
dates and times.
-/

namespace TensorFiles.Toml

namespace Number

/--
More digits of a number. An underscore must be followed by a digit.
-/
def moreDigits (base : Nat) : List Char → Option (List Char × List Char)
  | [] => some ([], [])
  | c :: rest =>
    if Text.isDigitIn base c then
      (moreDigits base rest).map (fun (ds, rest) => (c :: ds, rest))
    else if c = '_' then
      match rest with
      | d :: _ => if Text.isDigitIn base d then moreDigits base rest else none
      | [] => none
    else
      some ([], c :: rest)

/--
The digits at the front of a text, of which there must be one.
-/
def digits? (base : Nat) : List Char → Option (List Char × List Char)
  | c :: rest => if Text.isDigitIn base c then moreDigits base (c :: rest) else none
  | [] => none

/--
The sign at the front of a text: whether it is a minus, and what follows it.
-/
def sign : List Char → Bool × List Char
  | '-' :: rest => (true, rest)
  | '+' :: rest => (false, rest)
  | cs => (false, cs)

/--
The digits before the point. A zero stands alone.
-/
def wholeDigits? : List Char → Option (List Char × List Char)
  | '0' :: rest => some (['0'], rest)
  | cs => digits? 10 cs

/--
The number after the mark of an exponent, if there is a mark.
-/
def exponent? (cs : List Char) : Option (Option Int × List Char) :=
  match cs with
  | c :: rest =>
    if c = 'e' ∨ c = 'E' then do
      let (negative, rest) := sign rest
      let (digits, rest) ← digits? 10 rest
      let n : Int := Text.ofDigits 10 digits
      return (some (if negative then -n else n), rest)
    else
      some (none, cs)
  | [] => some (none, [])

/--
An integer, which must fit 64 bits with its sign.
-/
def ofInteger? (negative : Bool) (n : Nat) : Option Value :=
  let i : Int := if negative then -n else n
  if -0x8000000000000000 ≤ i ∧ i < 0x8000000000000000 then some (.integer i) else none

/--
The bits of infinity and of a value that is not a number, without their sign.
-/
def infinity : Nat := 0x7FF0000000000000

def notANumber : Nat := 0x7FF8000000000000

def withSign (negative : Bool) (bits : Nat) : Nat :=
  if negative then Double.signBit + bits else bits

/--
A float. One that is too large is refused, one that is too small is infinite.
-/
def ofDecimal? (negative : Bool) (d : Decimal) : Option Value :=
  match d.toDouble? negative with
  | some bits => some (.float bits)
  | none => if negative then some (.float (withSign true infinity)) else none

/--
The decimal number at the front of a text.
-/
def decimal? (cs : List Char) : Option (Value × List Char) := do
  let (negative, cs) := sign cs
  let (whole, cs) ← wholeDigits? cs
  let (fraction, cs) ←
    match cs with
    | '.' :: cs => (digits? 10 cs).map (fun (ds, rest) => (some ds, rest))
    | cs => some (none, cs)
  let (exponent, cs) ← exponent? cs
  match fraction, exponent with
  | none, none => return (← ofInteger? negative (Text.ofDigits 10 whole), cs)
  | _, _ =>
    let places := fraction.getD []
    let d : Decimal := ⟨Text.ofDigits 10 (whole ++ places), exponent.getD 0 - places.length⟩
    return (← ofDecimal? negative d, cs)

/--
The integer after the mark of a base other than ten. It has no sign.
-/
def inBase? (base : Nat) (cs : List Char) : Option (Value × List Char) := do
  let (digits, rest) ← digits? base cs
  return (← ofInteger? false (Text.ofDigits base digits), rest)

/--
A float that is written as a word.
-/
def word? (cs : List Char) : Option (Value × List Char) :=
  let (negative, cs) := sign cs
  match Text.dropStart? "inf".toList cs, Text.dropStart? "nan".toList cs with
  | some rest, _ => some (.float (withSign negative infinity), rest)
  | none, some rest => some (.float (withSign negative notANumber), rest)
  | none, none => none

end Number

/--
The number at the front of a text.
-/
def number? (cs : List Char) : Option (Value × List Char) :=
  match Number.word? cs with
  | some r => some r
  | none =>
    match cs with
    | '0' :: 'x' :: rest => Number.inBase? 16 rest
    | '0' :: 'o' :: rest => Number.inBase? 8 rest
    | '0' :: 'b' :: rest => Number.inBase? 2 rest
    | cs => Number.decimal? cs

namespace Datetime

/--
The number of exactly `count` decimal digits.
-/
def digits? (count : Nat) (cs : List Char) : Option (Nat × List Char) :=
  let ds := cs.take count
  if ds.length = count ∧ ds.all Text.isDigit then
    some (Text.ofDigits 10 ds, cs.drop count)
  else
    none

/--
Two digits of a number in a range.
-/
def two? (least most : Nat) (cs : List Char) : Option (Nat × List Char) :=
  match digits? 2 cs with
  | some (n, rest) => if least ≤ n ∧ n ≤ most then some (n, rest) else none
  | none => none

def mark? (mark : Char) (cs : List Char) : Option (List Char) :=
  Text.dropStart? [mark] cs

def isLeap (year : Nat) : Bool :=
  year % 4 == 0 && (year % 100 != 0 || year % 400 == 0)

def daysIn (year month : Nat) : Nat :=
  if month = 2 then
    if isLeap year then 29 else 28
  else if month ∈ [4, 6, 9, 11] then
    30
  else
    31

/--
What follows the date at the front of a text.
-/
def date? (cs : List Char) : Option (List Char) := do
  let (year, cs) ← digits? 4 cs
  let cs ← mark? '-' cs
  let (month, cs) ← two? 1 12 cs
  let cs ← mark? '-' cs
  let (_, cs) ← two? 1 (daysIn year month) cs
  return cs

/--
What follows the time of day at the front of a text.
-/
def time? (cs : List Char) : Option (List Char) := do
  let (_, cs) ← two? 0 23 cs
  let cs ← mark? ':' cs
  let (_, cs) ← two? 0 59 cs
  let cs ← mark? ':' cs
  let (_, cs) ← two? 0 60 cs
  match cs with
  | '.' :: rest => (Text.digits? rest).map (·.2)
  | cs => return cs

/--
What follows the distance from universal time at the front of a text, if there is one.
-/
def zone? (cs : List Char) : Option (List Char) :=
  match cs with
  | c :: rest =>
    if c = 'Z' ∨ c = 'z' then
      some rest
    else if c = '+' ∨ c = '-' then do
      let (_, rest) ← two? 0 23 rest
      let rest ← mark? ':' rest
      let (_, rest) ← two? 0 59 rest
      return rest
    else
      some cs
  | [] => some []

/--
What follows the date, the time or both at the front of a text.
-/
def skip? (cs : List Char) : Option (List Char) :=
  match date? cs with
  | none => time? cs
  | some rest =>
    match rest with
    | c :: later =>
      if c = 'T' ∨ c = 't' ∨ c = ' ' then
        match time? later with
        | some rest => zone? rest
        | none => some rest
      else
        some rest
    | [] => some []

end Datetime

/--
The date or time at the front of a text.
-/
def datetime? (cs : List Char) : Option (Value × List Char) :=
  (Datetime.skip? cs).map fun rest =>
    (.datetime (String.ofList (cs.take (cs.length - rest.length))), rest)

end TensorFiles.Toml
