import PropContract.Command.Run
import PropContract.Report.Reporter

/-!
# The program

What a command line prints, and the exit code: zero if all is well, one if there are diagnostics, two
if the program could not do its work.
-/

namespace PropContract

structure Outcome where
  exitCode : Nat
  output : String := ""
  errors : String := ""
deriving DecidableEq, Repr

structure Terminals where
  output : Bool := false
  errors : Bool := false
deriving DecidableEq, Repr

namespace Program

def versionText : String := "vmc 0.1.0\n"

def helpText : String :=
  String.join
    ["Validate component propTypes against their viewModelMeta overrides\n\n",
     "Usage: vmc [OPTIONS] [PATHS]...\n\n",
     "Arguments:\n",
     "  [PATHS]...  Files or directories to check. Defaults to the current directory\n\n",
     "Options:\n",
     "  -c, --config <CONFIG>    Path to vmc.json or a directory containing it\n",
     "      --include <INCLUDE>  Glob patterns selecting the files to check\n",
     "      --exclude <EXCLUDE>  Glob patterns excluding files from the check\n",
     "      --out-dir <OUT_DIR>  Write a `<Component>.json` type model for every clean component\n",
     "      --format <FORMAT>    Diagnostic output format: text or json\n",
     "      --pretty             Always use color and source snippets\n",
     "      --no-color           Disable colored output\n",
     "  -v, --verbose            Print per-file progress to stderr\n",
     "  -h, --help               Print help\n",
     "  -V, --version            Print version\n"]

def usageOutcome : UsageError → Outcome
  | .helpRequested => { exitCode := 0, output := helpText }
  | .versionRequested => { exitCode := 0, output := versionText }
  | e => { exitCode := 2, errors := "error: " ++ e.message ++ "\n" }

/-! ## Results -/

def statusText (file : FileResult) : String :=
  if file.parseFailed then "syntax errors"
  else if file.diagnostics.isEmpty then "ok"
  else toString file.diagnostics.length ++ " diagnostic(s)"

/-- A line for every file and every model. -/
def progressText (r : RunResult) : String :=
  String.join (r.files.map fun file => file.path ++ ": " ++ statusText file ++ "\n") ++
    String.join (r.written.map fun path => "wrote " ++ path ++ "\n")

/-- A reporter that knows the texts of the files something is wrong with. -/
def reporter (color : Bool) (r : RunResult) : Reporter :=
  r.failed.foldl (fun reporter file => reporter.addSource file.path file.source) { color }

def reportText (reporter : Reporter) (r : RunResult) : String :=
  if r.hasErrors then
    reporter.render r.diagnostics ++ "\n" ++ reporter.summary r.errorCount r.failed.length ++ "\n"
  else ""

/-- Color needs an output that is a terminal, whatever the arguments ask for. -/
def usesColor (args : Arguments) (t : Terminals) : Bool :=
  args.usesColor t.errors && t.output

def resultOutcome (args : Arguments) (t : Terminals) (r : RunResult) : Outcome :=
  let reporter := reporter (usesColor args t) r
  let progress := if args.verbose then progressText r else ""
  let exitCode := if r.hasErrors then 1 else 0
  match args.format with
  | .json =>
    { exitCode, output := reporter.renderJson r.diagnostics ++ "\n", errors := progress }
  | .text => { exitCode, errors := progress ++ reportText reporter r }

def execute {m : Type → Type} [Monad m] [FileSystem m] (workingFolder : String) (t : Terminals)
    (words : List String) : m Outcome := do
  match Arguments.parse words with
  | .error e => return usageOutcome e
  | .ok args =>
    match ← (run args workingFolder).run with
    | .ok r => return resultOutcome args t r
    | .error e => return { exitCode := 2, errors := "error: " ++ e.fullMessage ++ "\n" }

end Program

end PropContract
