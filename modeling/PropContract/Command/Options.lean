import PropContract.Command.Arguments
import PropContract.Command.Config
import PropContract.File.Path
import PropContract.Glob.Set

/-!
# Options

The settings of a run: what the command line says goes before what the configuration says.
-/

namespace PropContract

structure Options where
  included : GlobSet
  excluded : GlobSet
  outputFolder : Option String
  names : FieldNames
deriving Repr

namespace Options

/-- The output folder. Seen from the working folder on the command line, and from the folder of the
configuration file in the configuration. -/
def folderFor (args : Arguments) (config : Config) (configFolder workingFolder : String) :
    Option String :=
  match args.outputFolder with
  | some folder => some (Path.join workingFolder folder)
  | none => config.outputFolder.map (Path.join configFolder)

def resolve (args : Arguments) (config : Config) (configFolder workingFolder : String) :
    Except GlobError Options := do
  let patterns (given default : List String) := if given.isEmpty then default else given
  return {
    included := ← GlobSet.ofPatterns (patterns args.included config.included)
    excluded := ← GlobSet.ofPatterns (patterns args.excluded config.excluded)
    outputFolder := folderFor args config configFolder workingFolder
    names := config.names }

def selects (o : Options) (path : String) : Bool :=
  o.included.isMatch path && !o.excluded.isMatch path

end Options

end PropContract
