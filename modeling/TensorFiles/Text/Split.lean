/-!
This module contains the taking apart of texts at fixed pieces.
-/

namespace TensorFiles.Text

/--
What follows `start` in a text that begins with it.
-/
def dropStart? (start : List Char) (cs : List Char) : Option (List Char) :=
  match start, cs with
  | [], cs => some cs
  | _ :: _, [] => none
  | s :: start, c :: cs => if s = c then dropStart? start cs else none

theorem dropStart?_eq_some_iff {start cs rest : List Char}
    : dropStart? start cs = some rest ↔ cs = start ++ rest := by
  induction start generalizing cs with
  | nil => simp [dropStart?, eq_comm]
  | cons s start ih =>
    cases cs with
    | nil => simp [dropStart?]
    | cons c cs =>
      by_cases h : s = c
      . simp [dropStart?, h, ih]
      . simp [dropStart?, h, Ne.symm h]

/--
What precedes `ending` in a text that ends with it.
-/
def dropEnd? (ending : List Char) (cs : List Char) : Option (List Char) :=
  (dropStart? ending.reverse cs.reverse).map List.reverse

/--
What follows the first occurrence of `pattern` in a text that has one.
-/
def after? (pattern : List Char) (cs : List Char) : Option (List Char) :=
  match dropStart? pattern cs with
  | some rest => some rest
  | none =>
    match cs with
    | [] => none
    | _ :: cs => after? pattern cs

/--
The pieces of a text between the occurrences of `sep`; there is always at least one.
-/
def splitOn (sep : Char) : List Char → List (List Char)
  | [] => [[]]
  | c :: cs =>
    if c = sep then
      [] :: splitOn sep cs
    else
      match splitOn sep cs with
      | [] => [[c]]
      | piece :: pieces => (c :: piece) :: pieces

theorem splitOn_of_not_mem {sep : Char} {cs : List Char} (h : sep ∉ cs) : splitOn sep cs = [cs] := by
  induction cs with
  | nil => rfl
  | cons c cs ih =>
    simp only [List.mem_cons, not_or] at h
    simp [splitOn, Ne.symm h.1, ih h.2]

/--
What precedes the first separator is the first piece.
-/
theorem splitOn_append_cons {sep : Char} {front : List Char} (h : sep ∉ front) (rest : List Char)
    : splitOn sep (front ++ sep :: rest) = front :: splitOn sep rest := by
  induction front with
  | nil => simp [splitOn]
  | cons c front ih =>
    simp only [List.mem_cons, not_or] at h
    simp [splitOn, Ne.symm h.1, ih h.2]

end TensorFiles.Text
