import TensorFiles.Error
/-!
This module contains the failures of commands: what went wrong, and what was being done at the time.
-/

namespace TensorFiles

/--
What went wrong: a codec gives no result, a file cannot be read, a configuration is not valid TOML, or
a request cannot be met.
-/
inductive Cause where
  | codec (error : Error)
  | io (failure : IoFailure)
  | toml
  | refused (reason : String)
  deriving DecidableEq

namespace Cause

/--
The texts that show a cause. A file that cannot be accessed has the system's text once more.
-/
def texts : Cause → List String
  | .codec (.io path failure) => [(Error.io path failure).message, failure.text]
  | .codec error => [error.message]
  | .io failure => [failure.text]
  | .toml => ["malformed TOML"]
  | .refused reason => [reason]

end Cause

/--
A cause and what was being done, outermost first.
-/
structure Failure where
  contexts : List String
  cause : Cause
  deriving DecidableEq

namespace Failure

def ofError (error : Error) : Failure := ⟨[], .codec error⟩

def refused (reason : String) : Failure := ⟨[], .refused reason⟩

/--
Whether a computation has been broken off, and with it everything that was being done.
-/
def isPanic (f : Failure) : Bool :=
  match f.cause with
  | .codec (.panic _) => true
  | _ => false

/--
The failure of what was being done as `context` says.
-/
def within (context : String) (f : Failure) : Failure :=
  if f.isPanic then f else { f with contexts := context :: f.contexts }

def texts (f : Failure) : List String := f.contexts ++ f.cause.texts

/--
The texts of a failure on one line.
-/
def line (f : Failure) : String := ": ".intercalate f.texts

/--
The lines of a text behind a mark, the first of which has it. The others are indented as far.
-/
def indented (first later : String) (text : String) : String :=
  first ++ ("\n" ++ later).intercalate (text.splitOn "\n")

/--
The first text of a failure, and below it the others, which are numbered if there are several.
-/
def report (f : Failure) : String :=
  match f.texts with
  | [] => ""
  | [text] => text
  | [text, only] => text ++ "\n\nCaused by:\n" ++ indented "    " "    " only
  | text :: causes =>
    let numbered := causes.zipIdx.map fun (cause, i) =>
      indented ("    " ++ toString i ++ ": ") "       " cause
    text ++ "\n\nCaused by:\n" ++ "\n".intercalate numbered

/--
A result of a codec, with its error as a failure.
-/
def lift (r : Except Error α) : Except Failure α :=
  r.mapError ofError

/--
A result of what was being done as `context` says.
-/
def during (context : String) (r : Except Failure α) : Except Failure α :=
  r.mapError (within context)

end Failure

end TensorFiles
