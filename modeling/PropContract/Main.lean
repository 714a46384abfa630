import PropContract.Command.Program

/-!
# Command line

The program on the files of this machine.
-/

namespace PropContract.Machine

def succeeds (action : IO Unit) : IO Bool := do
  try
    action
    return true
  catch _ => return false

/-- Whether something of a type stands at a path, links followed. -/
def isOfType (type : IO.FS.FileType) (path : String) : IO Bool := do
  try
    return (← (← IO.FS.realPath path).metadata).type == type
  catch _ => return false

/-- The files below a folder, seen from there. -/
partial def filesBelow (folder : String) : IO (List String) := do
  let entries ← (← IO.FS.realPath folder).readDir
  let found ← entries.toList.mapM fun entry => do
    let path := Path.join folder entry.fileName
    if ← isOfType .dir path then
      return (← filesBelow path).map (Path.join entry.fileName)
    else if ← isOfType .file path then return [entry.fileName]
    else return []
  return found.flatten

instance : FileSystem IO where
  isFile := isOfType .file
  isFolder := isOfType .dir
  read? path := do
    try return some (← IO.FS.readBinFile path)
    catch _ => return none
  filesBelow? path := do
    try return some (← filesBelow path)
    catch _ => return none
  createFolders path := succeeds (IO.FS.createDirAll path)
  write path content := succeeds (IO.FS.writeBinFile path content)

end PropContract.Machine

open PropContract in
def main (words : List String) : IO UInt32 := do
  let output ← IO.getStdout
  let errors ← IO.getStderr
  let terminals : Terminals := { output := ← output.isTty, errors := ← errors.isTty }
  let outcome ← Program.execute (toString (← IO.currentDir)) terminals words
  output.putStr outcome.output
  errors.putStr outcome.errors
  return outcome.exitCode.toUInt32
