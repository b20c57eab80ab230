import TensorFiles.Json.Number
import TensorFiles.Json.Quoted
import TensorFiles.Text.Split
/-!
This module contains the reading of JSON texts. Every function gives what it reads at the front of a
text and what follows it.
-/

namespace TensorFiles.Json

/--
The blanks between the tokens of a text.
-/
def isBlank (c : Char) : Bool :=
  c == ' ' || c == '\n' || c == '\t' || c == '\r'

def skipBlanks (cs : List Char) : List Char := cs.dropWhile isBlank

/--
The words that stand for values.
-/
def words : List (List Char × Json) :=
  [("null".toList, .null), ("true".toList, .bool true), ("false".toList, .bool false)]

def word? (cs : List Char) : Option (Json × List Char) :=
  words.findSome? (fun (word, json) => (Text.dropStart? word cs).map (fun rest => (json, rest)))

mutual

/--
The value at the front of a text, with at most `depth` arrays and objects in each other. The `fuel`
is more than the length of the text.
-/
def value? (fuel depth : Nat) (cs : List Char) : Option (Json × List Char) :=
  match fuel with
  | 0 => none
  | fuel + 1 =>
    match skipBlanks cs with
    | '"' :: rest => (unquote rest).map (fun (s, rest) => (.string (String.ofList s), rest))
    | '[' :: rest =>
      match depth with
      | 0 => none
      | depth + 1 =>
        match skipBlanks rest with
        | ']' :: rest => some (.array [], rest)
        | rest => (elements? fuel depth rest).map (fun (es, rest) => (.array es, rest))
    | '\x7b' :: rest =>
      match depth with
      | 0 => none
      | depth + 1 =>
        match skipBlanks rest with
        | '\x7d' :: rest => some (.object [], rest)
        | rest => (fields? fuel depth rest).map (fun (fs, rest) => (.object fs, rest))
    | cs =>
      match word? cs with
      | some r => some r
      | none => number? cs

/--
The elements up to the end of an array.
-/
def elements? (fuel depth : Nat) (cs : List Char) : Option (List Json × List Char) :=
  match fuel with
  | 0 => none
  | fuel + 1 => do
    let (e, rest) ← value? fuel depth cs
    match skipBlanks rest with
    | ',' :: rest => (elements? fuel depth rest).map (fun (es, rest) => (e :: es, rest))
    | ']' :: rest => some ([e], rest)
    | _ => none

/--
The fields up to the end of an object.
-/
def fields? (fuel depth : Nat) (cs : List Char) : Option (List (String × Json) × List Char) :=
  match fuel with
  | 0 => none
  | fuel + 1 =>
    match skipBlanks cs with
    | '"' :: rest => do
      let (name, rest) ← unquote rest
      match skipBlanks rest with
      | ':' :: rest =>
        let (value, rest) ← value? fuel depth rest
        let field := (String.ofList name, value)
        match skipBlanks rest with
        | ',' :: rest => (fields? fuel depth rest).map (fun (fs, rest) => (field :: fs, rest))
        | '\x7d' :: rest => some ([field], rest)
        | _ => none
      | _ => none
    | _ => none

end

/--
The most arrays and objects that may be in each other.
-/
def maxDepth : Nat := 127

/--
The value of a whole text.
-/
def parse? (cs : List Char) : Option Json :=
  match value? (cs.length + 1) maxDepth cs with
  | some (json, rest) => if skipBlanks rest = [] then some json else none
  | none => none

end TensorFiles.Json
