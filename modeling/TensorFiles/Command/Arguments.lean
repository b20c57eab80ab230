import TensorFiles.Text.Numeral
import TensorFiles.Text.Split
/-!
This module contains the arguments of the command line: options before the name of an action and after
it, and the file that an inspection is about.
-/

namespace TensorFiles.Command

/--
What is asked for: a report on a file, or a conversion.
-/
inductive Action where
  | inspect (file : String) (json : Bool)
  | convert (input output : String)
  deriving DecidableEq

/--
The arguments, where they are in good order. Without an action the help is shown.
-/
structure Arguments where
  config? : Option String
  logLevel? : Option String
  alignment? : Option Nat
  action? : Option Action
  deriving DecidableEq

/--
Why there is nothing to do: the help or the version is asked for, or the arguments are not in order.
-/
inductive Stop where
  | help
  | version
  | usage
  deriving DecidableEq

/--
Where an option stands: before the name of the action, or after the name of one.
-/
inductive Level where
  | top
  | inspect
  | convert
  deriving DecidableEq

/--
The options, and the file that is not behind an option.
-/
inductive Flag where
  | config
  | logLevel
  | alignment
  | input
  | output
  | json
  | help
  | version
  | file
  deriving DecidableEq

namespace Flag

def takesValue : Flag → Bool
  | .json | .help | .version => false
  | _ => true

/--
The options of a level by their long names.
-/
def longNames (level : Level) : List (List Char × Flag) :=
  [("config".toList, .config), ("log-level".toList, .logLevel),
    ("alignment".toList, .alignment), ("help".toList, .help)] ++
  match level with
  | .top => [("version".toList, .version)]
  | .inspect => [("json".toList, .json)]
  | .convert => [("input".toList, .input), ("output".toList, .output)]

/--
The options of a level by their short names.
-/
def shortNames (level : Level) : List (Char × Flag) :=
  [('c', .config), ('h', .help)] ++
  match level with
  | .top => [('V', .version)]
  | .inspect => []
  | .convert => [('i', .input), ('o', .output)]

def ofLongName? (level : Level) (name : List Char) : Option Flag :=
  ((longNames level).find? (fun n => n.1 == name)).map (·.2)

def ofShortName? (level : Level) (name : Char) : Option Flag :=
  ((shortNames level).find? (fun n => n.1 == name)).map (·.2)

/--
Whether an option may have a value. Paths are not empty.
-/
def accepts (flag : Flag) (value : List Char) : Bool :=
  match flag with
  | .config | .input | .output | .file => value != []
  | .alignment => (Numeral.decode wordBound value).isOk
  | _ => true

end Flag

/--
The names of the actions.
-/
def Level.ofName? : String → Option Level
  | "inspect" | "info" => some .inspect
  | "convert" | "conv" => some .convert
  | _ => none

/--
What has been read of the arguments of one level. The last option is settled only when the next one
comes, or at the end.
-/
structure Reading where
  settled : List (Flag × List Char) := []
  last? : Option (Flag × Option (List Char)) := none
  /-- Whether what follows is no option, whatever it looks like. -/
  operandsOnly : Bool := false

namespace Reading

def find? (r : Reading) (flag : Flag) : Option (List Char) :=
  (r.settled.find? (fun g => g.1 == flag)).map (·.2)

/--
Whether the last option still needs a value.
-/
def isOpen (r : Reading) : Bool :=
  match r.last? with
  | some (_, none) => true
  | _ => false

/--
Settle the last option. It must have a value that it accepts, and must not be given twice.
-/
def settle (r : Reading) : Except Stop Reading :=
  match r.last? with
  | none => .ok r
  | some (_, none) => .error .usage
  | some (flag, some value) =>
    if (r.find? flag).isSome || !flag.accepts value then
      .error .usage
    else
      .ok { r with settled := r.settled ++ [(flag, value)], last? := none }

/--
Read an option that may still get its value.
-/
def expect (r : Reading) (flag : Flag) : Except Stop Reading := do
  return { ← r.settle with last? := some (flag, none) }

/--
Read an option with its value.
-/
def attach (r : Reading) (flag : Flag) (value : List Char) : Except Stop Reading := do
  settle { ← r.settle with last? := some (flag, some value) }

/--
Read an option that has no value.
-/
def mark (r : Reading) (flag : Flag) : Except Stop Reading := do
  match flag with
  | .help =>
    let _ ← r.settle
    throw .help
  | .version =>
    let _ ← r.settle
    throw .version
  | flag => r.attach flag []

/--
Read an option by its long name, which may have a value behind an equals sign.
-/
def long (r : Reading) (level : Level) (text : List Char) : Except Stop Reading :=
  let name := text.takeWhile (· != '=')
  let value? := Text.dropStart? ['='] (text.drop name.length)
  match Flag.ofLongName? level name with
  | none => .error .usage
  | some flag =>
    match flag.takesValue, value? with
    | true, some value => r.attach flag value
    | true, none => r.expect flag
    | false, none => r.mark flag
    | false, some _ => .error .usage

/--
Read options by their short names. What follows one that takes a value is its value, with or without
an equals sign.
-/
def short (r : Reading) (level : Level) : List Char → Except Stop Reading
  | [] => .ok r
  | name :: rest =>
    match Flag.ofShortName? level name with
    | none => .error .usage
    | some flag =>
      if flag.takesValue then
        match rest with
        | [] => r.expect flag
        | '=' :: value => r.attach flag value
        | value => r.attach flag value
      else do
        (← r.mark flag).short level rest

/--
Read what is no option. Only an inspection has it, and only once.
-/
def operand (r : Reading) (level : Level) (text : List Char) : Except Stop Reading := do
  if level ≠ .inspect then
    throw .usage
  let r ← r.settle
  if (r.find? .file).isSome then
    throw .usage
  return { r with last? := some (.file, some text) }

/--
Read one argument.
-/
def argument (r : Reading) (level : Level) (text : List Char) : Except Stop Reading :=
  if r.operandsOnly then
    r.operand level text
  else
    match text with
    | ['-', '-'] => .ok { r with operandsOnly := true }
    | '-' :: '-' :: name => r.long level name
    | '-' :: name :: names => r.short level (name :: names)
    | text =>
      match r.last? with
      | some (flag, none) => .ok { r with last? := some (flag, some text) }
      | _ => r.operand level text

/--
Read all arguments.
-/
def arguments (r : Reading) (level : Level) (texts : List String) : Except Stop Reading := do
  let r ← texts.foldlM (fun r text => r.argument level text.toList) r
  r.settle

end Reading

/--
The topics that help can be asked for by name.
-/
def helpFor : List String → Stop
  | [] => .help
  | [topic] => if topic = "help" ∨ (Level.ofName? topic).isSome then .help else .usage
  | _ => .usage

/--
The options before the name of an action, the action, and the arguments after it.
-/
def splitAction (r : Reading) : List String
    → Except Stop (Reading × Option (Level × List String))
  | [] => .ok (r, none)
  | text :: rest =>
    if r.operandsOnly || r.isOpen then do
      splitAction (← r.argument .top text.toList) rest
    else if text = "help" then
      .error (helpFor rest)
    else
      match Level.ofName? text with
      | some level => .ok (r, some (level, rest))
      | none => do splitAction (← r.argument .top text.toList) rest

/--
The action of a level, whose operands must be there.
-/
def actionOf (level : Level) (r : Reading) : Except Stop Action :=
  match level, r.find? .file, r.find? .input, r.find? .output with
  | .inspect, some file, _, _ => .ok (.inspect (String.ofList file) (r.find? .json).isSome)
  | .convert, _, some input, some output =>
    .ok (.convert (String.ofList input) (String.ofList output))
  | _, _, _, _ => .error .usage

/--
The settings among the options. Those after the name of the action win over those before it.
-/
def Arguments.ofReadings (top inner : Reading) (action? : Option Action) : Arguments :=
  let value? (flag : Flag) : Option (List Char) := (inner.find? flag).or (top.find? flag)
  {
    config? := (value? .config).map String.ofList
    logLevel? := (value? .logLevel).map String.ofList
    alignment? := (value? .alignment).bind (fun v => (Numeral.decode wordBound v).toOption)
    action?
  }

namespace Arguments

def parse (texts : List String) : Except Stop Arguments := do
  let (top, action?) ← splitAction {} texts
  match action? with
  | none => return ofReadings (← top.settle) {} none
  | some (level, rest) =>
    let inner ← Reading.arguments {} level rest
    let action ← actionOf level inner
    return ofReadings (← top.settle) inner (some action)

end Arguments

end TensorFiles.Command
