import TensorFiles.Command.Run
/-!
This module contains the program. It looks at the files the arguments mention, runs the command line on
them, and writes the files that are different afterwards.
-/

namespace TensorFiles.Program

/--
All beginnings of a path that end before a slash or at its end.
-/
def beginnings (path : String) : List String :=
  let cs := path.toList
  let ends := (List.range cs.length).filter (fun i => cs[i]? == some '/')
  (ends ++ [cs.length]).map (fun i => String.ofList (cs.take i))

/--
The paths that a run may read or write.
-/
def paths (args : List String) : List String :=
  let asked :=
    match Command.Arguments.parse args with
    | .error _ => []
    | .ok a =>
      a.config?.toList ++
        match a.action? with
        | some (.inspect file _) => [file]
        | some (.convert input output) =>
          [input, output] ++ FileFormat.all.map (fun format => format.normalize output)
        | none => []
  (Settings.defaultFile :: asked).flatMap beginnings |>.eraseDups

/--
Add what a path leads to, if anything, to what is known of the files.
-/
def look (d : Disk) (path : String) : IO Disk := do
  try
    let data ← IO.FS.readBinFile path
    match d.write path data.toList with
    | .ok d => return d
    | .error _ => return d
  catch
    | .noFileOrDirectory .. => return d
    | _ => return d.makeDirectory path

/--
Write a file if it is not what it was.
-/
def keep (before after : Disk) (path : String) : IO Unit := do
  match before.read path, after.read path with
  | .ok old, .ok new => if old ≠ new then IO.FS.writeBinFile path (ByteArray.mk new.toArray)
  | .error _, .ok new => IO.FS.writeBinFile path (ByteArray.mk new.toArray)
  | .ok _, .error _ => IO.FS.removeFile path
  | .error _, .error _ => return

end TensorFiles.Program

open TensorFiles in
def main (args : List String) : IO UInt32 := do
  let paths := Program.paths args
  let disk ← paths.foldlM Program.look .empty
  let env : Environment := {
    alignment? := ← IO.getEnv "TENSORIO_ALIGNMENT"
    version? := ← IO.getEnv "TENSORIO_GGUF_VERSION"
  }
  let (outcome, after) := Command.run env disk args
  paths.forM (Program.keep disk after)
  (← IO.getStdout).putStr outcome.output
  (← IO.getStderr).putStr outcome.errors
  return UInt32.ofNat outcome.exit
