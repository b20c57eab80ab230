import TensorFiles.Text.Digits
/-!
This module contains the four quoted forms of TOML strings: with escapes or literal, and on one line
or on several.
-/

namespace TensorFiles.Toml

/--
The blanks within a line.
-/
def isBlank (c : Char) : Bool := c == ' ' || c == '\t'

def skipBlanks (cs : List Char) : List Char := cs.dropWhile isBlank

/--
Whether a character may stand for itself in strings and comments.
-/
def isPlain (c : Char) : Bool := c == '\t' || ' ' ≤ c && c != '\x7f'

/--
What follows the end of a line at the front of a text.
-/
def newline? : List Char → Option (List Char)
  | '\n' :: rest => some rest
  | '\r' :: '\n' :: rest => some rest
  | _ => none

/--
Whether a text begins with the end of a line, blanks aside.
-/
def endsLine (cs : List Char) : Bool := (newline? (skipBlanks cs)).isSome

namespace Quoted

/--
The characters that stand for others after a backslash.
-/
def ofShortEscape? (c : Char) : Option Char :=
  ([('b', '\x08'), ('t', '\t'), ('n', '\n'), ('f', '\x0c'), ('r', '\r'), ('"', '"'),
    ('\\', '\\')].find? (fun e => e.1 == c)).map (·.2)

/--
The character whose code point the hexadecimal digits are.
-/
def ofCode? (digits : List Char) : Option Char :=
  let n := Text.ofDigits 16 digits
  if digits.all (Text.isDigitIn 16) && n.isValidChar then some (Char.ofNat n) else none

/--
The rest of a string behind one more character of it.
-/
def push (c : Char) (r : Option (List Char × List Char)) : Option (List Char × List Char) :=
  r.map (fun (cs, rest) => (c :: cs, rest))

/--
The end of a string of several lines after its first closing quote. Up to two quotes before the three
that close it belong to it.
-/
def closing? (quote : Char) : List Char → Option (List Char × List Char)
  | a :: b :: rest =>
    if a = quote ∧ b = quote then
      match rest with
      | c :: d :: rest =>
        if c = quote ∧ d = quote then some ([quote, quote], rest)
        else if c = quote then some ([quote], d :: rest)
        else some ([], c :: d :: rest)
      | [c] => if c = quote then some ([quote], []) else some ([], [c])
      | [] => some ([], [])
    else
      none
  | _ => none

/--
The text up to the closing quote, and what follows it. Strings of several lines have `lines`. While
`skipping`, blanks and line ends do not count.
-/
def body (quote : Char) (lines skipping : Bool) : List Char → Option (List Char × List Char)
  | [] => none
  | c :: rest =>
    if skipping && (isBlank c || (newline? (c :: rest)).isSome) then
      body quote lines true rest
    else if c = quote then
      if !lines then
        some ([], rest)
      else
        match closing? quote rest with
        | some r => some r
        | none => push c (body quote lines false rest)
    else if c = '\\' ∧ quote = '"' then
      if lines && endsLine rest then
        body quote lines true rest
      else
        match rest with
        | 'u' :: a :: b :: c :: d :: rest =>
          match ofCode? [a, b, c, d] with
          | some x => push x (body quote lines false rest)
          | none => none
        | 'U' :: a :: b :: c :: d :: e :: f :: g :: h :: rest =>
          match ofCode? [a, b, c, d, e, f, g, h] with
          | some x => push x (body quote lines false rest)
          | none => none
        | e :: rest =>
          match ofShortEscape? e with
          | some x => push x (body quote lines false rest)
          | none => none
        | [] => none
    else if isPlain c then
      push c (body quote lines false rest)
    else if lines && c == '\n' then
      push c (body quote lines false rest)
    else if lines && (newline? (c :: rest)).isSome then
      body quote lines false rest
    else
      none

/--
A string of one line at the front of a text.
-/
def line? : List Char → Option (List Char × List Char)
  | c :: rest => if c = '"' ∨ c = '\'' then body c false false rest else none
  | [] => none

/--
A string of either form at the front of a text. A line end right after three quotes does not count.
-/
def string? (cs : List Char) : Option (List Char × List Char) :=
  match cs with
  | a :: b :: c :: rest =>
    if (a = '"' ∨ a = '\'') ∧ b = a ∧ c = a then
      body a true false ((newline? rest).getD rest)
    else
      line? cs
  | _ => line? cs

end Quoted

end TensorFiles.Toml
