import TensorFiles.Error
import TensorFiles.Text.Blank
/-!
This module contains the settings of the container codec, and those the environment overrides.
-/

namespace TensorFiles

/--
The alignment of tensor data where nothing says otherwise.
-/
def defaultAlignment : Nat := 32

/--
The settings of the container codec: the alignment and the version that containers are written with,
and the upper bound on the length of strings that are read.
-/
structure CodecConfig where
  alignment : Nat := defaultAlignment
  version : Nat := 3
  maxStringLen : Nat := 10 * 1024 * 1024
  deriving DecidableEq

/--
The variables of the environment that settings are taken from.
-/
structure Environment where
  alignment? : Option String := none
  version? : Option String := none

namespace CodecConfig

def validate (c : CodecConfig) : Except Error Unit :=
  if !isPowerOfTwo c.alignment then
    .error (.gguf (.alignmentNotPowerOfTwo c.alignment))
  else if halfWordBound ≤ c.alignment then
    .error (.gguf (.alignmentTooLarge c.alignment))
  else if c.version < Gguf.minVersion ∨ Gguf.maxVersion < c.version then
    .error (.gguf (.unsupportedVersion c.version))
  else
    .ok ()

/--
`candidate`, unless it is not valid.
-/
def orElse (c candidate : CodecConfig) : CodecConfig :=
  match candidate.validate with
  | .ok () => candidate
  | .error _ => c

/--
The number below `bound` that the text of a variable stands for, blanks around it aside.
-/
def readVariable? (bound : Nat) (text : Option String) : Option Nat :=
  text.bind fun s =>
    match Numeral.decode bound (Text.trim s.toList) with
    | .ok n => some n
    | .error _ => none

/--
The default settings with those of the environment that are valid.
-/
def ofEnvironment (env : Environment) : CodecConfig :=
  let c : CodecConfig := {}
  let c :=
    match readVariable? wordBound env.alignment? with
    | some alignment => c.orElse { c with alignment }
    | none => c
  match readVariable? halfWordBound env.version? with
  | some version => c.orElse { c with version }
  | none => c

end CodecConfig

end TensorFiles
