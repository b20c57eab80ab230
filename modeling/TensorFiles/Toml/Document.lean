import TensorFiles.Toml.Number
import TensorFiles.Toml.Quoted
/-!
This module contains TOML documents: the reading of values and lines, and the table that the lines of
a document define together.
-/

namespace TensorFiles.Toml

/--
A key with the keys it is behind.
-/
structure Key where
  path : List String
  last : String

/--
The most keys, and the most arrays and tables in braces, that may be in each other.
-/
def maxDepth : Nat := 79

/--
Whether a character may be in a key without quotes.
-/
def isBare (c : Char) : Bool := c.isAlphanum || c == '_' || c == '-'

/--
One part of a key.
-/
def name? (cs : List Char) : Option (String × List Char) :=
  match cs with
  | '"' :: _ | '\'' :: _ => (Quoted.line? cs).map (fun (s, rest) => (String.ofList s, rest))
  | cs =>
    match cs.takeWhile isBare with
    | [] => none
    | s => some (String.ofList s, cs.dropWhile isBare)

/--
At most `fuel` parts of a key, with blanks around each of them.
-/
def key? (fuel : Nat) (cs : List Char) : Option (Key × List Char) :=
  match fuel with
  | 0 => none
  | fuel + 1 => do
    let (name, rest) ← name? (skipBlanks cs)
    match skipBlanks rest with
    | '.' :: rest =>
      let (key, rest) ← key? fuel rest
      return (⟨name :: key.path, key.last⟩, rest)
    | rest => return (⟨[], name⟩, rest)

/--
What follows blanks, line ends and comments.
-/
def skipLines (inComment : Bool) : List Char → List Char
  | [] => []
  | c :: rest =>
    if inComment && isPlain c then skipLines true rest
    else if c == '\n' then skipLines false rest
    else if (newline? (c :: rest)).isSome then skipLines false rest
    else if inComment then c :: rest
    else if isBlank c then skipLines false rest
    else if c == '#' then skipLines true rest
    else c :: rest

/--
The words that stand for values.
-/
def word? (cs : List Char) : Option (Value × List Char) :=
  match Text.dropStart? "true".toList cs, Text.dropStart? "false".toList cs with
  | some rest, _ => some (.boolean true, rest)
  | none, some rest => some (.boolean false, rest)
  | none, none => none

mutual

/--
The value at the front of a text, with at most `depth` arrays and tables in each other. The `fuel` is
more than the length of the text.
-/
def value? (fuel depth : Nat) (cs : List Char) : Option (Value × List Char) :=
  match fuel with
  | 0 => none
  | fuel + 1 =>
    match cs with
    | '"' :: _ | '\'' :: _ =>
      (Quoted.string? cs).map (fun (s, rest) => (.string (String.ofList s), rest))
    | '[' :: rest =>
      match depth with
      | 0 => none
      | depth + 1 =>
        (elements? fuel depth (skipLines false rest)).map (fun (es, rest) => (.array es, rest))
    | '\x7b' :: rest =>
      match depth with
      | 0 => none
      | depth + 1 =>
        match skipBlanks rest with
        | '\x7d' :: rest => some (.table .inline [], rest)
        | rest =>
          (fields? fuel depth [] rest).map (fun (fs, rest) => (.table .inline fs, rest))
    | cs =>
      match word? cs, datetime? cs with
      | some r, _ => some r
      | none, some r => some r
      | none, none => number? cs

/--
The elements up to the end of an array. The last one may have a comma after it.
-/
def elements? (fuel depth : Nat) (cs : List Char) : Option (List Value × List Char) :=
  match fuel with
  | 0 => none
  | fuel + 1 =>
    match cs with
    | ']' :: rest => some ([], rest)
    | cs => do
      let (e, rest) ← value? fuel depth cs
      match skipLines false rest with
      | ',' :: rest =>
        (elements? fuel depth (skipLines false rest)).map (fun (es, rest) => (e :: es, rest))
      | ']' :: rest => some ([e], rest)
      | _ => none

/--
The fields up to the end of a table in braces, added to those before them.
-/
def fields? (fuel depth : Nat) (before : Fields) (cs : List Char) : Option (Fields × List Char) :=
  match fuel with
  | 0 => none
  | fuel + 1 => do
    let (key, rest) ← key? maxDepth cs
    match rest with
    | '=' :: rest =>
      let (value, rest) ← value? fuel depth (skipBlanks rest)
      let fields ← before.assign? key.path key.last value
      match skipBlanks rest with
      | ',' :: rest => fields? fuel depth fields rest
      | '\x7d' :: rest => some (fields, rest)
      | _ => none
    | _ => none

end

/--
What a line says: that a table begins, that the next table of several begins, or what the value of a
key is.
-/
inductive Statement where
  | table (key : Key)
  | element (key : Key)
  | assign (key : Key) (value : Value)

/--
What follows the rest of a line, which has only blanks and a comment.
-/
def lineEnd? (cs : List Char) : Option (List Char) :=
  let rest :=
    match skipBlanks cs with
    | '#' :: rest => rest.dropWhile isPlain
    | rest => rest
  match rest with
  | [] => some []
  | rest => newline? rest

/--
The header after its opening bracket or brackets.
-/
def header? (closing : List Char) (cs : List Char) : Option (Key × List Char) := do
  let (key, rest) ← key? maxDepth cs
  let rest ← Text.dropStart? closing rest
  return (key, ← lineEnd? rest)

/--
The statement at the front of a text, without blanks before it.
-/
def statement? (cs : List Char) : Option (Statement × List Char) :=
  match cs with
  | '[' :: '[' :: rest => (header? [']', ']'] rest).map (fun (key, rest) => (.element key, rest))
  | '[' :: rest => (header? [']'] rest).map (fun (key, rest) => (.table key, rest))
  | cs => do
    let (key, rest) ← key? maxDepth cs
    match rest with
    | '=' :: rest =>
      let rest := skipBlanks rest
      let (value, rest) ← value? (rest.length + 1) maxDepth rest
      return (.assign key value, ← lineEnd? rest)
    | _ => none

/--
The statements of a text, of which there are at most `fuel`.
-/
def statements? (fuel : Nat) (cs : List Char) : Option (List Statement) :=
  match skipLines false cs, fuel with
  | [], _ => some []
  | _, 0 => none
  | cs, fuel + 1 => do
    let (s, rest) ← statement? cs
    let more ← statements? fuel rest
    return s :: more

/--
A document and the table that lines are added to, which is not in its place yet. The place is its key
and whether it is one of several tables; the document itself has none.
-/
structure State where
  root : Fields
  place? : Option (Key × Bool)
  fields : Fields

namespace State

def initial : State := ⟨[], none, []⟩

/--
Change the table that the key of a header is in.
-/
def atHeader? (root : Fields) (key : Key) (f : Fields → Option (Fields × α))
    : Option (Fields × α) :=
  root.change? false (fun _ parent => f parent) .header key.path

/--
Put the open table in its place.
-/
def close? (s : State) : Option Fields :=
  match s.place? with
  | none => some s.fields
  | some (key, several) =>
    (·.1) <$> atHeader? s.root key fun parent =>
      match several, parent.find? key.last with
      | false, none => some (parent.set key.last (.table .header s.fields), ())
      | true, none => some (parent.set key.last (.tables [s.fields]), ())
      | true, some (.tables ts) => some (parent.set key.last (.tables (ts ++ [s.fields])), ())
      | _, _ => none

/--
Open the table of a header. One that is there must be implied by other headers.
-/
def openTable? (root : Fields) (key : Key) : Option State := do
  let (root, fields) ← atHeader? root key fun parent =>
    match parent.find? key.last with
    | none => some (parent, [])
    | some (.table .implied fields) => some (parent.erase key.last, fields)
    | some _ => none
  return ⟨root, some (key, false), fields⟩

/--
Open the next of several tables.
-/
def openElement? (root : Fields) (key : Key) : Option State := do
  let (root, ()) ← atHeader? root key fun parent =>
    match parent.find? key.last with
    | none | some (.tables _) => some (parent, ())
    | some _ => none
  return ⟨root, some (key, true), []⟩

def step? (s : State) : Statement → Option State
  | .table key => do openTable? (← s.close?) key
  | .element key => do openElement? (← s.close?) key
  | .assign key value => do
    let fields ← s.fields.assign? key.path key.last value
    return { s with fields }

end State

/--
The character that may mark a text as Unicode at its very front.
-/
def byteOrderMark : Char := Char.ofNat 0xFEFF

/--
The fields of the document of a text.
-/
def parse? (cs : List Char) : Option Fields := do
  let cs :=
    match cs with
    | c :: rest => if c = byteOrderMark then rest else cs
    | [] => []
  let statements ← statements? (cs.length + 1) cs
  let s ← statements.foldlM State.step? .initial
  s.close?

end TensorFiles.Toml
