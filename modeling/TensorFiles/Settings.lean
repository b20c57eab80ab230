import TensorFiles.Bytes.Utf8
import TensorFiles.Config
import TensorFiles.Disk
import TensorFiles.Failure
import TensorFiles.Toml.Document
/-!
This module contains the settings of commands: those of the log and those of the container codec. They
come from a configuration file or, without one, from the environment; flags replace single ones.
-/

namespace TensorFiles

structure Logging where
  level : String := "warn"
  format : String := "compact"
  deriving DecidableEq

structure Settings where
  logging : Logging := {}
  codec : CodecConfig := {}
  deriving DecidableEq

namespace Toml

/--
The members of a record, whose names come in the order `names`. A list gives the first of them in that
order, and a date has none of them.
-/
def Value.members? (names : List String) : Value → Option Fields
  | .table _ fields => some fields
  | .array elements => some (names.zip elements)
  | .tables ts => some (names.zip (ts.map (.table .header)))
  | .datetime _ => some []
  | _ => none

def Value.string? : Value → Option String
  | .string s => some s
  | _ => none

/--
A number that is not negative and below `bound`.
-/
def Value.nat? (bound : Nat) : Value → Option Nat
  | .integer n => if 0 ≤ n ∧ n < bound then some n.toNat else none
  | _ => none

/--
The member called `name`, or `default` if it is not there.
-/
def Fields.get? (fields : Fields) (name : String) (read : Value → Option α) (default : α)
    : Option α :=
  match fields.find? name with
  | some value => read value
  | none => some default

end Toml

namespace Logging

def levels : List String := ["trace", "debug", "info", "warn", "error"]

def formats : List String := ["pretty", "compact", "json"]

def ofToml? (value : Toml.Value) : Option Logging := do
  let fields ← value.members? ["level", "format"]
  let default : Logging := {}
  return {
    level := ← fields.get? "level" Toml.Value.string? default.level
    format := ← fields.get? "format" Toml.Value.string? default.format
  }

end Logging

def CodecConfig.ofToml? (value : Toml.Value) : Option CodecConfig := do
  let fields ← value.members? ["alignment", "gguf_version", "max_string_len"]
  let default : CodecConfig := {}
  return {
    alignment := ← fields.get? "alignment" (Toml.Value.nat? wordBound) default.alignment
    version := ← fields.get? "gguf_version" (Toml.Value.nat? halfWordBound) default.version
    maxStringLen := ← fields.get? "max_string_len" (Toml.Value.nat? wordBound) default.maxStringLen
  }

namespace Settings

/--
The settings of a configuration text. Those it does not mention have their defaults.
-/
def ofText (text : List Char) : Except Failure Settings :=
  let settings? : Option Settings := do
    let fields ← Toml.parse? text
    return {
      logging := ← fields.get? "logging" Logging.ofToml? {}
      codec := ← fields.get? "codec" CodecConfig.ofToml? {}
    }
  match settings? with
  | some s => .ok s
  | none => .error ⟨["invalid configuration TOML"], .toml⟩

/--
The text that refuses a value that is not one of several.
-/
def notOneOf (what value : String) (allowed : List String) : String :=
  s!"invalid {what} '{value}'. Must be one of: " ++ ", ".intercalate allowed

def validate (s : Settings) : Except Failure Unit :=
  if s.logging.level ∉ Logging.levels then
    .error (.refused (notOneOf "log level" s.logging.level Logging.levels))
  else if s.logging.format ∉ Logging.formats then
    .error (.refused (notOneOf "log format" s.logging.format Logging.formats))
  else
    Failure.during "invalid [codec] section" (Failure.lift s.codec.validate)

/--
The configuration file that is read, if it is there, when no other is asked for.
-/
def defaultFile : String := "tensorio.toml"

/--
The text of the file that `path` leads to.
-/
def readText (d : Disk) (path : String) : Except IoFailure (List Char) := do
  match Utf8.decode (← d.read path) with
  | .ok text => return text
  | .error _ => throw .notUtf8

/--
The settings of the configuration file that `path` leads to.
-/
def ofFile (d : Disk) (path : String) : Except Failure Settings :=
  match readText d path with
  | .error failure => .error ⟨[s!"failed to read config file {path}"], .io failure⟩
  | .ok text => Failure.during s!"failed to parse config file {path}" (ofText text)

/--
The settings before any flags. Those of the environment count if there is no configuration file.
-/
def load (env : Environment) (d : Disk) (path? : Option String) : Except Failure Settings :=
  match path? with
  | some path => ofFile d path
  | none =>
    if d.isFile defaultFile then
      ofFile d defaultFile
    else
      .ok { codec := .ofEnvironment env }

/--
Replace the log level and the alignment by those of flags, if they are given, and check the result.
-/
def build (s : Settings) (level? : Option String) (alignment? : Option Nat)
    : Except Failure Settings := do
  let s : Settings := {
    logging := { s.logging with level := level?.getD s.logging.level }
    codec := { s.codec with alignment := alignment?.getD s.codec.alignment }
  }
  s.validate
  return s

end Settings

end TensorFiles
