import TensorFiles.Npy.Fault
import TensorFiles.Text.Blank
import TensorFiles.Text.Split
/-!
This module contains the header of an `.npy` stream: a dictionary with the element type, the order
of the elements, which is always row-major here, and the shape.
-/

namespace TensorFiles.Npy

/--
The code of an element type, if it has one.
-/
def typeCode? : DType → Option String
  | .bool => some "b1"
  | .u8 => some "u1"
  | .u16 => some "u2"
  | .u32 => some "u4"
  | .u64 => some "u8"
  | .i8 => some "i1"
  | .i16 => some "i2"
  | .i32 => some "i4"
  | .i64 => some "i8"
  | .f16 => some "f2"
  | .bf16 => none
  | .f32 => some "f4"
  | .f64 => some "f8"
  | .c64 => some "c8"

def ofTypeCode? (code : List Char) : Option DType :=
  DType.all.find? (fun d => (typeCode? d).map String.toList == some code)

/--
The code of an element type behind the sign of its byte order. A single byte has no order.
-/
def descr? (dtype : DType) : Option String :=
  (typeCode? dtype).map (fun code => (if dtype.size = 1 then "|" else "<") ++ code)

structure Header where
  dtype : DType
  shape : List Nat
  /-- Whether the bytes of each element are most significant first. -/
  swapped : Bool
  deriving DecidableEq

namespace Header

/--
The text up to the next comma or closing brace that is not in parentheses.
-/
def untilEnd? (depth : Nat) : List Char → Option (List Char)
  | [] => none
  | c :: cs =>
    if depth = 0 ∧ (c = ',' ∨ c = '\x7d') then
      some []
    else
      let depth :=
        if c = '(' then depth + 1
        else if c = ')' then depth - 1
        else depth
      (untilEnd? depth cs).map (c :: ·)

/--
The text of the value of `key`.
-/
def entry (key : String) (header : List Char) : Except Fault (List Char) :=
  match Text.after? (['\''] ++ key.toList ++ ['\'']) header with
  | none => .error (.missingKey key)
  | some rest =>
    match Text.trimStart rest with
    | ':' :: rest =>
      match untilEnd? 0 (Text.trimStart rest) with
      | some value => .ok (Text.trim value)
      | none => .error (.unterminatedEntry key)
    | _ => .error (.malformedEntry key)

/--
A text without the quotes around it.
-/
def unquote (cs : List Char) : List Char :=
  let isQuote (c : Char) : Bool := c == '\'' || c == '"'
  ((cs.dropWhile isQuote).reverse.dropWhile isQuote).reverse

/--
The element type of a code, and whether its bytes are swapped.
-/
def parseDescr (descr : List Char) : Except Fault (DType × Bool) :=
  let (order, code) :=
    match descr with
    | c :: code => if c ∈ ['<', '>', '|', '='] then (c, code) else ('=', descr)
    | [] => ('=', [])
  match ofTypeCode? code with
  | some dtype => .ok (dtype, order == '>' && 1 < dtype.size)
  | none => .error (.unsupportedDescr (String.ofList descr))

/--
The dimensions between parentheses.
-/
def parseShape (value : List Char) : Except Fault (List Nat) :=
  match (Text.dropStart? ['('] value).bind (Text.dropEnd? [')']) with
  | none => .error (.badShape (String.ofList value))
  | some inner =>
    let dims := ((Text.splitOn ',' inner).map Text.trim).filter (· != [])
    dims.mapM fun dim =>
      match Numeral.decode wordBound dim with
      | .ok n => .ok n
      | .error fault => .error (.badDim (String.ofList dim) fault)

def parse (header : List Char) : Except Fault Header := do
  let (dtype, swapped) ← parseDescr (unquote (← entry "descr" header))
  let order ← entry "fortran_order" header
  if order = "True".toList then
    throw .fortranOrder
  if order ≠ "False".toList then
    throw (.badFortranOrder (String.ofList order))
  let shape ← parseShape (← entry "shape" header)
  return ⟨dtype, shape, swapped⟩

/--
The text of a shape: `(2, 3)`. A single dimension has a comma after it.
-/
def shapeText (shape : List Nat) : String :=
  match shape with
  | [d] => "(" ++ Text.number d ++ ",)"
  | _ => "(" ++ ", ".intercalate (shape.map Text.number) ++ ")"

/--
The dictionary of a stream whose bytes are least significant first.
-/
def dictionary (descr : String) (shape : List Nat) : String :=
  "\x7b'descr': '" ++ descr ++ "', 'fortran_order': False, 'shape': " ++ shapeText shape ++ ", \x7d"

end Header

end TensorFiles.Npy
