import PropContract.Command.Options
import PropContract.Contract.FileCheck
import PropContract.File.System

/-!
# Runs

A run finds the files to check, checks them, and writes the models if nothing is wrong with any of
the files.
-/

namespace PropContract

inductive RunError where
  | configNotFound (path : String)
  | configUnreadable (path : String)
  | configInvalid (path : String) (cause : ConfigError)
  | glob (error : GlobError)
  | pathNotFound (path : String)
  | folderUnreadable (path : String)
  | fileUnreadable (path : String)
  | folderNotCreated (path : String)
  | notWritten (path : String)
deriving DecidableEq, Repr

namespace RunError

def message : RunError → String
  | configNotFound path => "config not found at " ++ path
  | configUnreadable path => "failed to read config " ++ path
  | configInvalid path _ => "invalid config " ++ path
  | glob error => error.message
  | pathNotFound path => "path not found: " ++ path
  | folderUnreadable path => "failed to walk directory " ++ path
  | fileUnreadable path => "failed to read " ++ path
  | folderNotCreated path => "failed to create output directory " ++ path
  | notWritten path => "failed to write " ++ path

/-- The message, with what is known of the cause. -/
def fullMessage (e : RunError) : String :=
  match e with
  | configInvalid _ cause => e.message ++ ": " ++ cause.message
  | _ => e.message

end RunError

/-- What a run found out, and the paths of the models it wrote. Files come in the order of their
paths. -/
structure RunResult where
  files : List FileResult
  written : List String := []

namespace RunResult

def diagnostics (r : RunResult) : List Diagnostic := r.files.flatMap (·.diagnostics)

def errorCount (r : RunResult) : Nat := r.diagnostics.length

def failed (r : RunResult) : List FileResult := r.files.filter (!·.diagnostics.isEmpty)

def hasErrors (r : RunResult) : Bool := !r.failed.isEmpty

def models (r : RunResult) : List ComponentModel := r.files.filterMap (·.model)

end RunResult

namespace Run

variable {m : Type → Type} [Monad m] [FileSystem m]

/-! ## Configuration -/

/-- The configuration file: the one that is asked for, which has to exist, or the one in the working
folder. In place of the file, its folder may be given. -/
def configPath? (workingFolder : String) : Option String → ExceptT RunError m (Option String)
  | none => do
    let path := Path.join workingFolder Config.fileName
    return if ← FileSystem.isFile path then some path else none
  | some given => do
    let path := Path.join workingFolder given
    let path := if ← FileSystem.isFolder path then Path.join path Config.fileName else path
    if ← FileSystem.isFile path then return some path else throw (.configNotFound path)

def readConfig (path : String) : ExceptT RunError m Config := do
  match ← FileSystem.readText? path with
  | none => throw (.configUnreadable path)
  | some text =>
    match Config.parse text with
    | .ok config => return config
    | .error cause => throw (.configInvalid path cause)

def config (args : Arguments) (workingFolder : String) : ExceptT RunError m (Config × String) := do
  match ← configPath? workingFolder args.config with
  | some path => return (← readConfig path, Path.folder path)
  | none => return ({}, workingFolder)

def options (args : Arguments) (workingFolder : String) : ExceptT RunError m Options := do
  let (config, folder) ← config args workingFolder
  match Options.resolve args config folder workingFolder with
  | .ok o => return o
  | .error e => throw (.glob e)

/-! ## Files -/

/-- The files at a path: the file itself, or those below the folder that the options select. -/
def filesAt (o : Options) (path : String) : ExceptT RunError m (List String) := do
  if ← FileSystem.isFile path then return [path]
  else if ← FileSystem.isFolder path then
    match ← FileSystem.filesBelow? path with
    | some files => return (files.filter o.selects).map (Path.join path)
    | none => throw (.folderUnreadable path)
  else throw (.pathNotFound path)

/-- The files to check, in order and each of them once. -/
def files (args : Arguments) (workingFolder : String) (o : Options) :
    ExceptT RunError m (List String) := do
  let paths :=
    if args.paths.isEmpty then [workingFolder] else args.paths.map (Path.join workingFolder)
  return Path.sortedDistinct (← paths.mapM (filesAt o)).flatten

def checkFile (names : FieldNames) (path : String) : ExceptT RunError m FileResult := do
  match ← FileSystem.readText? path with
  | some source => return .ofSource names path source
  | none => throw (.fileUnreadable path)

/-! ## Models -/

def modelPath (folder : String) (model : ComponentModel) : String :=
  Path.join folder (model.name ++ ".json")

def modelText (model : ComponentModel) : String := model.toJson.text ++ "\n"

def writeModel (folder : String) (model : ComponentModel) : ExceptT RunError m String := do
  let path := modelPath folder model
  if ← FileSystem.write path (modelText model).toUTF8 then return path else throw (.notWritten path)

def writeModels (folder : String) (models : List ComponentModel) :
    ExceptT RunError m (List String) := do
  if ← FileSystem.createNamedFolder folder then models.mapM (writeModel folder)
  else throw (.folderNotCreated folder)

/-- Checks files, and writes the models if nothing is wrong with any of them. -/
def check (names : FieldNames) (outputFolder : Option String) (paths : List String) :
    ExceptT RunError m RunResult := do
  let result : RunResult := { files := ← paths.mapM (checkFile names) }
  match outputFolder with
  | some folder =>
    if result.hasErrors then return result
    else return { result with written := ← writeModels folder result.models }
  | none => return result

end Run

def run {m : Type → Type} [Monad m] [FileSystem m] (args : Arguments) (workingFolder : String) :
    ExceptT RunError m RunResult := do
  let o ← Run.options args workingFolder
  let paths ← Run.files args workingFolder o
  Run.check o.names o.outputFolder paths

end PropContract
