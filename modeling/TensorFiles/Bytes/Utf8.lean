/-!
This module contains the UTF-8 form of texts. Reading is strict, with the place and the kind of the
first fault, or lossy, with a replacement character for every longest run of bytes that begins a
character and does not finish it.
-/

namespace TensorFiles.Utf8

def encodeChars (cs : List Char) : List UInt8 :=
  cs.flatMap String.utf8EncodeChar

def encode (s : String) : List UInt8 :=
  encodeChars s.toList

/--
What the bytes of a text begin with: a whole character, a number of bytes that no character begins
with, or the bytes of a character that the end of the text cuts off.
-/
inductive Head where
  | char (c : Char) (width : Nat)
  | invalid (width : Nat)
  | cutOff
  deriving DecidableEq

def isContinuation (b : UInt8) : Bool :=
  0x80 ≤ b && b ≤ 0xBF

/--
Whether `b` may follow the first byte `lead` of a character of three or four bytes.
-/
def isSecond (lead b : UInt8) : Bool :=
  if lead = 0xE0 then 0xA0 ≤ b && b ≤ 0xBF
  else if lead = 0xED then 0x80 ≤ b && b ≤ 0x9F
  else if lead = 0xF0 then 0x90 ≤ b && b ≤ 0xBF
  else if lead = 0xF4 then 0x80 ≤ b && b ≤ 0x8F
  else isContinuation b

/--
The low six bits of a continuation byte.
-/
def tail (b : UInt8) : Nat :=
  b.toNat % 64

def head (lead : UInt8) (rest : List UInt8) : Head :=
  if lead < 0x80 then
    .char (Char.ofNat lead.toNat) 1
  else if 0xC2 ≤ lead && lead ≤ 0xDF then
    match rest with
    | [] => .cutOff
    | b :: _ =>
      if isContinuation b then
        .char (Char.ofNat (lead.toNat % 32 * 64 + tail b)) 2
      else
        .invalid 1
  else if 0xE0 ≤ lead && lead ≤ 0xEF then
    match rest with
    | [] => .cutOff
    | b :: rest =>
      if isSecond lead b then
        match rest with
        | [] => .cutOff
        | c :: _ =>
          if isContinuation c then
            .char (Char.ofNat ((lead.toNat % 16 * 64 + tail b) * 64 + tail c)) 3
          else
            .invalid 2
      else
        .invalid 1
  else if 0xF0 ≤ lead && lead ≤ 0xF4 then
    match rest with
    | [] => .cutOff
    | b :: rest =>
      if isSecond lead b then
        match rest with
        | [] => .cutOff
        | c :: rest =>
          if isContinuation c then
            match rest with
            | [] => .cutOff
            | d :: _ =>
              if isContinuation d then
                .char (Char.ofNat (((lead.toNat % 8 * 64 + tail b) * 64 + tail c) * 64 + tail d)) 4
              else
                .invalid 3
          else
            .invalid 2
      else
        .invalid 1
  else
    .invalid 1

/--
Where bytes stop being the UTF-8 form of a text: after `validUpTo` bytes, at `width` bytes that no
character begins with, or at the bytes of a character that the end cuts off.
-/
structure Fault where
  validUpTo : Nat
  width? : Option Nat
  deriving DecidableEq

def Fault.message (fault : Fault) : String :=
  match fault.width? with
  | some width => s!"invalid utf-8 sequence of {width} bytes from index {fault.validUpTo}"
  | none => s!"incomplete utf-8 byte sequence from index {fault.validUpTo}"

/--
The characters whose UTF-8 form is `bytes`. The count `skip` of bytes still belongs to the
character before, and `index` is the place of the first byte in the whole.
-/
def decodeFrom (index skip : Nat) : List UInt8 → Except Fault (List Char)
  | [] => .ok []
  | lead :: rest =>
    match skip with
    | skip + 1 => decodeFrom (index + 1) skip rest
    | 0 =>
      match head lead rest with
      | .char c width => (decodeFrom (index + 1) (width - 1) rest).map (c :: ·)
      | .invalid width => .error ⟨index, some width⟩
      | .cutOff => .error ⟨index, none⟩

def decode (bytes : List UInt8) : Except Fault (List Char) :=
  decodeFrom 0 0 bytes

/--
The character that stands for bytes that are not UTF-8.
-/
def replacement : Char := Char.ofNat 0xFFFD

def decodeLossyFrom (skip : Nat) : List UInt8 → List Char
  | [] => []
  | lead :: rest =>
    match skip with
    | skip + 1 => decodeLossyFrom skip rest
    | 0 =>
      match head lead rest with
      | .char c width => c :: decodeLossyFrom (width - 1) rest
      | .invalid width => replacement :: decodeLossyFrom (width - 1) rest
      | .cutOff => [replacement]

def decodeLossy (bytes : List UInt8) : List Char :=
  decodeLossyFrom 0 bytes

end TensorFiles.Utf8
