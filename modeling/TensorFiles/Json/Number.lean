import TensorFiles.Decimal.Scaled
import TensorFiles.Json.Value
import TensorFiles.Text.Digits
/-!
This module contains the numbers of JSON texts. What is written as an integer and fits a machine word is
an integer; all others are floats, of which only the leading digits count.
-/

namespace TensorFiles.Json

namespace Number

/--
The number that `acc` and the first digits of a text make as long as it fits a machine word, and how
many digits these are.
-/
def leading (acc : Nat) : List Char → Nat × Nat
  | [] => (acc, 0)
  | c :: cs =>
    let n := acc * 10 + (Text.digitValue? c).getD 0
    if n < wordBound then
      let (n, count) := leading n cs
      (n, count + 1)
    else
      (acc, 0)

/--
The decimal of the digits before and after the point and of an exponent. Digits that do not count
are zeros before the point, and are dropped after it.
-/
def decimal (whole fraction : List Char) (exponent : Int) : Decimal :=
  let (n, wholeCount) := leading 0 whole
  let (digits, fractionCount) := leading n fraction
  ⟨digits, exponent + (whole.length - wholeCount : Nat) - fractionCount⟩

/--
The digits before the point. The first of several is not zero.
-/
def whole? (cs : List Char) : Option (List Char × List Char) :=
  match Text.digits? cs with
  | some ('0' :: _ :: _, _) => none
  | r => r

/--
The digits after a point, or none without a point.
-/
def fraction? : List Char → Option (List Char × List Char)
  | '.' :: cs => Text.digits? cs
  | cs => some ([], cs)

/--
The number after the mark of an exponent, if there is a mark.
-/
def exponent? (cs : List Char) : Option (Option Int × List Char) :=
  match cs with
  | c :: rest =>
    if c = 'e' ∨ c = 'E' then
      let (negative, rest) :=
        match rest with
        | '-' :: rest => (true, rest)
        | '+' :: rest => (false, rest)
        | rest => (false, rest)
      (Text.digits? rest).map fun (digits, rest) =>
        let n : Int := Text.ofDigits 10 digits
        (some (if negative then -n else n), rest)
    else
      some (none, cs)
  | [] => some (none, [])

/--
The float of a decimal, if it is finite.
-/
def ofDecimal? (negative : Bool) (d : Decimal) : Option Json :=
  d.toScaled?.map (fun bits => .float (if negative then Double.signBit + bits else bits))

/--
The number of the digits of an integer. One that fits no machine word, and a zero with a sign, are
floats.
-/
def ofDigits? (negative : Bool) (digits : List Char) : Option Json :=
  let n := Text.ofDigits 10 digits
  if !negative && n < wordBound then
    some (.int n)
  else if negative && 0 < n && n ≤ wordBound / 2 then
    some (.int (-n))
  else
    ofDecimal? negative (decimal digits [] 0)

/--
The number after its sign.
-/
def unsigned? (negative : Bool) (cs : List Char) : Option (Json × List Char) := do
  let (whole, cs) ← whole? cs
  let (fraction, cs) ← fraction? cs
  let (exponent, cs) ← exponent? cs
  match fraction, exponent with
  | [], none => return (← ofDigits? negative whole, cs)
  | _, _ => return (← ofDecimal? negative (decimal whole fraction (exponent.getD 0)), cs)

end Number

/--
The number at the front of a text.
-/
def number? : List Char → Option (Json × List Char)
  | '-' :: cs => Number.unsigned? true cs
  | cs => Number.unsigned? false cs

end TensorFiles.Json
