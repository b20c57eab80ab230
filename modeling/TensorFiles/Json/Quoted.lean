import TensorFiles.Text.Digits
/-!
This module contains the quoted strings of JSON. Quotes, backslashes and control characters are
written as escapes and all else as it is; reading also accepts every other escape there is.
-/

namespace TensorFiles.Json

/--
The escapes of two characters: the second of them, and what they stand for.
-/
def shortEscapes : List (Char × Char) :=
  [('"', '"'), ('\\', '\\'), ('b', '\x08'), ('f', '\x0c'), ('n', '\n'), ('r', '\r'), ('t', '\t')]

def shortEscape? (c : Char) : Option Char :=
  (shortEscapes.find? (fun e => e.2 == c)).map (·.1)

/--
What the escape of a backslash and `c` stands for. A slash may be escaped, but need not be.
-/
def ofShortEscape? (c : Char) : Option Char :=
  if c = '/' then some '/' else (shortEscapes.find? (fun e => e.1 == c)).map (·.2)

def escapeChar (c : Char) : List Char :=
  match shortEscape? c with
  | some e => ['\\', e]
  | none =>
    if c < ' ' then
      ['\\', 'u', '0', '0', Nat.digitChar (c.toNat / 16), Nat.digitChar (c.toNat % 16)]
    else
      [c]

/--
The written form of a text.
-/
def quote (cs : List Char) : List Char :=
  ['"'] ++ cs.flatMap escapeChar ++ ['"']

/--
The number of four hexadecimal digits.
-/
def unit? (a b c d : Char) : Option Nat := do
  let a ← Text.digitValue? a
  let b ← Text.digitValue? b
  let c ← Text.digitValue? c
  let d ← Text.digitValue? d
  return ((a * 16 + b) * 16 + c) * 16 + d

/--
The rest of a string behind one more character of it.
-/
def push (c : Char) (r : Option (List Char × List Char)) : Option (List Char × List Char) :=
  r.map (fun (cs, rest) => (c :: cs, rest))

/--
The text up to the closing quote, and what follows it. Characters beyond the 16 bit ones are escaped
as two surrogates, neither of which may stand alone.
-/
def unquote : List Char → Option (List Char × List Char)
  | [] => none
  | c :: rest =>
    if c = '"' then
      some ([], rest)
    else if c = '\\' then
      match rest with
      | 'u' :: h1 :: h2 :: h3 :: h4 :: rest =>
        match unit? h1 h2 h3 h4 with
        | none => none
        | some high =>
          if 0xD800 ≤ high ∧ high < 0xDC00 then
            match rest with
            | '\\' :: 'u' :: l1 :: l2 :: l3 :: l4 :: rest =>
              match unit? l1 l2 l3 l4 with
              | none => none
              | some low =>
                if 0xDC00 ≤ low ∧ low < 0xE000 then
                  push (Char.ofNat (0x10000 + (high - 0xD800) * 0x400 + (low - 0xDC00)))
                    (unquote rest)
                else
                  none
            | _ => none
          else if 0xDC00 ≤ high ∧ high < 0xE000 then
            none
          else
            push (Char.ofNat high) (unquote rest)
      | e :: rest =>
        match ofShortEscape? e with
        | some c => push c (unquote rest)
        | none => none
      | [] => none
    else if c < ' ' then
      none
    else
      push c (unquote rest)

end TensorFiles.Json
