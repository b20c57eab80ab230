import TensorFiles.Command.Arguments
import TensorFiles.Command.Report
/-!
This module contains the running of the command line: from the arguments to what is written, and to
the files that are there afterwards.
-/

namespace TensorFiles.Command

/--
What a run ends with: its exit code, what it writes, and what it says about its failure.
-/
structure Outcome where
  exit : Nat
  output : String
  errors : String
  deriving DecidableEq

namespace Outcome

def success (output : String) : Outcome := ⟨0, output, ""⟩

/--
The outcome of settings that cannot be used.
-/
def ofSettings (f : Failure) : Outcome := ⟨1, "", "Error: " ++ f.report ++ "\n"⟩

/--
The outcome of an action that fails.
-/
def ofAction (f : Failure) : Outcome :=
  if f.isPanic then ⟨101, "", f.line ++ "\n"⟩ else ⟨1, "", "error: " ++ f.line ++ "\n"⟩

/--
The lines of what is said about a failure.
-/
def errorLines (o : Outcome) : List String :=
  if o.errors = "" then [] else (o.errors.splitOn "\n").dropLast

end Outcome

def versionText : String := "tensorio 0.1.0\n"

def helpText : String :=
  "Inspect and convert npy, safetensors and GGUF tensor files\n\n" ++
  "Usage: tensorio [OPTIONS] [COMMAND]\n\n" ++
  "Commands:\n" ++
  "  inspect <FILE> [--json]              Show what a file contains\n" ++
  "  convert --input <IN> --output <OUT>  Convert between formats\n\n" ++
  "Options:\n" ++
  "  -c, --config <PATH>      Configuration file path (TOML)\n" ++
  "      --log-level <LEVEL>  Log level (trace, debug, info, warn, error)\n" ++
  "      --alignment <BYTES>  Tensor-data alignment for GGUF output\n"

/--
The text of a report.
-/
def inspect (env : Environment) (d : Disk) (file : String) (json : Bool) (s : Settings)
    : Except Failure String :=
  (Report.ofFile env d file s).map (fun r => r.text json)

/--
Do what is asked for. The result is what is written to the standard output.
-/
def perform (env : Environment) (d : Disk) (s : Settings)
    : Action → Except Failure String × Disk
  | .inspect file json => (inspect env d file json s, d)
  | .convert input output =>
    let (result, d) := convert d input output s
    (result.map (· ++ "\n"), d)

/--
The settings that the arguments lead to.
-/
def settingsOf (env : Environment) (d : Disk) (a : Arguments) : Except Failure Settings := do
  let loaded ← Settings.load env d a.config?
  Failure.during "Failed to build configuration" (loaded.build a.logLevel? a.alignment?)

def run (env : Environment) (d : Disk) (texts : List String) : Outcome × Disk :=
  match Arguments.parse texts with
  | .error .help => (.success helpText, d)
  | .error .version => (.success versionText, d)
  | .error .usage => (⟨2, "", "error: see --help\n"⟩, d)
  | .ok a =>
    match settingsOf env d a with
    | .error f => (.ofSettings f, d)
    | .ok s =>
      match a.action? with
      | none => (.success helpText, d)
      | some action =>
        match perform env d s action with
        | (.ok output, d) => (.success output, d)
        | (.error f, d) => (.ofAction f, d)

end TensorFiles.Command
