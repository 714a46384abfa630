import PropContract.File.Path

/-!
# File systems

What a run needs of the files of a machine.
-/

namespace PropContract

/-- Access to files by their paths. What can fail gives nothing, or says so. -/
class FileSystem (m : Type → Type) where
  isFile : String → m Bool
  isFolder : String → m Bool
  read? : String → m (Option ByteArray)
  /-- The paths of all files below a folder, seen from there -/
  filesBelow? : String → m (Option (List String))
  /-- Makes a folder, and those it is in, where there are none -/
  createFolders : String → m Bool
  write : String → ByteArray → m Bool

instance {m : Type → Type} {ε : Type} [Monad m] [FileSystem m] : FileSystem (ExceptT ε m) where
  isFile path := ExceptT.lift (FileSystem.isFile path)
  isFolder path := ExceptT.lift (FileSystem.isFolder path)
  read? path := ExceptT.lift (FileSystem.read? path)
  filesBelow? path := ExceptT.lift (FileSystem.filesBelow? path)
  createFolders path := ExceptT.lift (FileSystem.createFolders path)
  write path content := ExceptT.lift (FileSystem.write path content)

namespace FileSystem

variable {m : Type → Type} [Monad m] [FileSystem m]

def readText? (path : String) : m (Option String) := do
  return (← read? path).bind String.fromUTF8?

/-- Makes a folder by its name, and those it is in, where there are none. A dot leads into a folder
and is no name: what a path that ends in one leads to is not made. -/
def createNamedFolder (path : String) : m Bool := do
  if Path.endsInDot path then
    let _ ← createFolders (Path.folder path)
    isFolder path
  else createFolders path

end FileSystem

end PropContract
