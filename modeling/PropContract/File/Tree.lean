import PropContract.Entries
import PropContract.File.System

/-!
# Trees of files

Files and folders as a value: a file system of its own. All paths begin at the outermost folder.
-/

namespace PropContract

inductive FileTree where
  | file (content : ByteArray)
  | folder (entries : List (String × FileTree))

namespace FileTree

def empty : FileTree := folder []

def isFolder : FileTree → Bool
  | folder _ => true
  | file _ => false

/-! ## Places -/

def get? : FileTree → List String → Option FileTree
  | t, [] => some t
  | folder entries, name :: rest => (Entries.get? entries name).bind (get? · rest)
  | file _, _ :: _ => none

/-- Puts a tree at a place. Folders on the way are made; nothing can be put into a file. -/
def put : FileTree → List String → FileTree → FileTree
  | _, [], new => new
  | folder entries, name :: rest, new =>
    folder (Entries.put entries name (((Entries.get? entries name).getD empty).put rest new))
  | file content, _ :: _, _ => file content

def files : FileTree → List (List String)
  | file _ => [[]]
  | folder entries => filesIn entries
where
  filesIn : List (String × FileTree) → List (List String)
    | [] => []
    | (name, t) :: rest => (files t).map (name :: ·) ++ filesIn rest

/-! ## Paths -/

def folderAt (t : FileTree) (place : List String) : Bool :=
  (t.get? place).any isFolder

/-- Whether a text can be the name of a file: it has at most 255 bytes, and none of them is zero. -/
def isName (text : String) : Bool :=
  text.utf8ByteSize ≤ 255 && !text.toList.contains '\x00'

/-- Where the next part of a path leads from a folder. -/
def enter? (t : FileTree) (place : List String) (piece : String) : Option (List String) :=
  if t.folderAt place then
    match piece with
    | "" | "." => some place
    | ".." => some place.dropLast
    | name => if isName name then some (place ++ [name]) else none
  else none

/-- The place that a path leads to. All but the last name on the way has to be a folder. -/
def place? (t : FileTree) (path : String) : Option (List String) :=
  (Path.pieces path).foldlM t.enter? []

def find? (t : FileTree) (path : String) : Option FileTree := do
  t.get? (← t.place? path)

def read? (t : FileTree) (path : String) : Option ByteArray :=
  match t.find? path with
  | some (file content) => some content
  | _ => none

def filesBelow? (t : FileTree) (path : String) : Option (List String) :=
  match t.find? path with
  | some (folder entries) => some ((files (folder entries)).map ("/".intercalate ·))
  | _ => none

/-- Enters the next part of a path and makes a folder where nothing stands. -/
def enterNew? (state : FileTree × List String) (piece : String) :
    Option (FileTree × List String) := do
  let (t, place) := state
  let next ← t.enter? place piece
  match t.get? next with
  | some (file _) => none
  | some (folder _) => some (t, next)
  | none => some (t.put next empty, next)

def createFolders? (t : FileTree) (path : String) : Option FileTree :=
  ((Path.pieces path).foldlM enterNew? (t, [])).map Prod.fst

/-- Writes a file into a folder. It replaces a file there, but not a folder. -/
def write? (t : FileTree) (path : String) (content : ByteArray) : Option FileTree := do
  let place ← t.place? path
  if t.folderAt place then none else some (t.put place (file content))

/-! ## File system -/

/-- Goes on with the changed tree if there is one. -/
def replaceBy (change : FileTree → Option FileTree) : StateM FileTree Bool := do
  match change (← get) with
  | some t =>
    set t
    return true
  | none => return false

instance : FileSystem (StateM FileTree) where
  isFile path := do return ((← get).find? path).any fun t => !t.isFolder
  isFolder path := do return ((← get).find? path).any isFolder
  read? path := do return (← get).read? path
  filesBelow? path := do return (← get).filesBelow? path
  createFolders path := replaceBy (·.createFolders? path)
  write path content := replaceBy (·.write? path content)

end FileTree

end PropContract
