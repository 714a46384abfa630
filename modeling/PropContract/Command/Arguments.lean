/-!
# Arguments

What a command line asks for. Options have long names, some have letters too, and letters can stand
together after one hyphen. What is no option is a path.
-/

namespace PropContract

inductive OutputFormat where
  | text | json
deriving DecidableEq, Repr

namespace OutputFormat

def name : OutputFormat → String
  | text => "text"
  | json => "json"

def ofName? (word : String) : Option OutputFormat :=
  [text, json].find? (·.name == word)

end OutputFormat

structure Arguments where
  paths : List String := []
  config : Option String := none
  included : List String := []
  excluded : List String := []
  outputFolder : Option String := none
  format? : Option OutputFormat := none
  pretty : Bool := false
  noColor : Bool := false
  verbose : Bool := false
deriving DecidableEq, Repr

inductive ValueOption where
  | config | included | excluded | outputFolder | format
deriving DecidableEq, Repr

inductive Flag where
  | pretty | noColor | verbose | help | version
deriving DecidableEq, Repr

inductive CommandOption where
  | value (option : ValueOption)
  | flag (flag : Flag)
deriving DecidableEq, Repr

namespace CommandOption

def ofName? : String → Option CommandOption
  | "config" => some (.value .config)
  | "include" => some (.value .included)
  | "exclude" => some (.value .excluded)
  | "out-dir" | "outDir" => some (.value .outputFolder)
  | "format" => some (.value .format)
  | "pretty" => some (.flag .pretty)
  | "no-color" => some (.flag .noColor)
  | "verbose" => some (.flag .verbose)
  | "help" => some (.flag .help)
  | "version" => some (.flag .version)
  | _ => none

def ofLetter? : Char → Option CommandOption
  | 'c' => some (.value .config)
  | 'v' => some (.flag .verbose)
  | 'h' => some (.flag .help)
  | 'V' => some (.flag .version)
  | _ => none

end CommandOption

/-- Why a command line gives nothing to do. -/
inductive UsageError where
  | unknown (argument : String)
  /-- An option that wants a value stands without one -/
  | missingValue
  | invalidValue (value : String)
  /-- A value for an option that takes none -/
  | unwantedValue (value : String)
  /-- An option that may stand once stands again -/
  | repeated
  | helpRequested
  | versionRequested
deriving DecidableEq, Repr

def UsageError.message : UsageError → String
  | unknown argument => "unexpected argument '" ++ argument ++ "'"
  | missingValue => "a value is required for an option"
  | invalidValue value => "invalid value '" ++ value ++ "'"
  | unwantedValue value => "unexpected value '" ++ value ++ "'"
  | repeated => "an option is used more than once"
  | helpRequested => "help requested"
  | versionRequested => "version requested"

namespace Arguments

def format (a : Arguments) : OutputFormat := a.format?.getD .text

/-- Whether to use color, on a terminal or not. -/
def usesColor (a : Arguments) (isTerminal : Bool) : Bool :=
  !a.noColor && (a.pretty || isTerminal)

/-! ## Options -/

/-- A path that is given for the first time. -/
def newPath (old : Option String) (path : String) : Except UsageError (Option String) :=
  if old.isSome then .error .repeated
  else if path.isEmpty then .error (.invalidValue path)
  else .ok (some path)

def setOption (a : Arguments) (option : ValueOption) (value : String) :
    Except UsageError Arguments := do
  match option with
  | .config => return { a with config := ← newPath a.config value }
  | .included => return { a with included := a.included ++ value.splitOn "," }
  | .excluded => return { a with excluded := a.excluded ++ value.splitOn "," }
  | .outputFolder => return { a with outputFolder := ← newPath a.outputFolder value }
  | .format =>
    if a.format?.isSome then throw .repeated
    else
      match OutputFormat.ofName? value with
      | some format => return { a with format? := some format }
      | none => throw (.invalidValue value)

def raise (a : Arguments) : Flag → Except UsageError Arguments
  | .pretty => if a.pretty then .error .repeated else .ok { a with pretty := true }
  | .noColor => if a.noColor then .error .repeated else .ok { a with noColor := true }
  | .verbose => if a.verbose then .error .repeated else .ok { a with verbose := true }
  | .help => .error .helpRequested
  | .version => .error .versionRequested

def addPaths (a : Arguments) (paths : List String) : Except UsageError Arguments :=
  if paths.contains "" then .error (.invalidValue "") else .ok { a with paths := a.paths ++ paths }

end Arguments

/-! ## Reading -/

/-- What is not yet part of the arguments, because more may follow. -/
inductive PendingArgument where
  | nothing
  | option (option : ValueOption) (value : Option String)
  | paths (paths : List String)
deriving DecidableEq, Repr

structure ArgumentsReading where
  arguments : Arguments := {}
  pending : PendingArgument := .nothing
  /-- Whether all that follows is a path -/
  onlyPaths : Bool := false
deriving DecidableEq, Repr

namespace ArgumentsReading

/-- Makes what is pending a part of the arguments. -/
def settle (r : ArgumentsReading) : Except UsageError ArgumentsReading := do
  let arguments ← match r.pending with
    | .nothing => pure r.arguments
    | .option _ none => throw .missingValue
    | .option option (some value) => r.arguments.setOption option value
    | .paths paths => r.arguments.addPaths paths
  return { r with arguments, pending := .nothing }

/-- An option that wants a value. A value that is attached to it counts at once. -/
def giveOption (r : ArgumentsReading) (option : ValueOption) (attached : Option String) :
    Except UsageError ArgumentsReading := do
  let r ← r.settle
  match attached with
  | some value => return { r with arguments := ← r.arguments.setOption option value }
  | none => return { r with pending := .option option none }

def raise (r : ArgumentsReading) (flag : Flag) : Except UsageError ArgumentsReading := do
  let r ← r.settle
  return { r with arguments := ← r.arguments.raise flag }

/-- An option by its name, with what is attached after an equals sign. -/
def long (r : ArgumentsReading) (text : List Char) : Except UsageError ArgumentsReading :=
  let name := String.ofList (text.takeWhile (· != '='))
  let attached := (text.dropWhile (· != '=')).tail?.map String.ofList
  match CommandOption.ofName? name, attached with
  | none, _ => .error (.unknown ("--" ++ name))
  | some (.value option), _ => r.giveOption option attached
  | some (.flag _), some value => .error (.unwantedValue value)
  | some (.flag flag), none => r.raise flag

/-- Options by their letters. What follows the letter of an option that wants a value is its value; an
equals sign in front of it does not count. -/
def letters (r : ArgumentsReading) : List Char → Except UsageError ArgumentsReading
  | [] => .ok r
  | c :: rest =>
    match CommandOption.ofLetter? c with
    | none => .error (.unknown (String.ofList ['-', c]))
    | some (.flag flag) => do (← r.raise flag).letters rest
    | some (.value option) =>
      match rest with
      | [] => r.giveOption option none
      | '=' :: value => r.giveOption option (some (String.ofList value))
      | value => r.giveOption option (some (String.ofList value))

def addPath (r : ArgumentsReading) (path : String) : Except UsageError ArgumentsReading :=
  match r.pending with
  | .paths paths => .ok { r with pending := .paths (paths ++ [path]) }
  | _ => do return { ← r.settle with pending := .paths [path] }

/-- A value for the option before it, or else a path. -/
def plain (r : ArgumentsReading) (text : String) : Except UsageError ArgumentsReading :=
  match r.pending with
  | .option option none => .ok { r with pending := .option option (some text) }
  | _ => r.addPath text

def step (r : ArgumentsReading) (argument : String) : Except UsageError ArgumentsReading :=
  if r.onlyPaths then r.addPath argument
  else
    match argument.toList with
    | ['-', '-'] => .ok { r with onlyPaths := true }
    | '-' :: '-' :: text => r.long text
    | '-' :: c :: rest => r.letters (c :: rest)
    | _ => r.plain argument

end ArgumentsReading

def Arguments.parse (words : List String) : Except UsageError Arguments := do
  let r ← words.foldlM ArgumentsReading.step {}
  return (← r.settle).arguments

end PropContract
