/-!
# Paths

File names as text, with slashes between their parts.
-/

namespace PropContract

inductive PathPart where
  | root
  /-- A single dot, which only a path's first part keeps -/
  | current
  | parent
  | name (text : String)
deriving DecidableEq, Repr

namespace Path

/-! ## Parts -/

/-- The texts between the slashes of a path. -/
def pieces (path : String) : List String :=
  (path.toList.splitOn '/').map String.ofList

/-- The part between two slashes, if it counts. -/
def part? : String → Option PathPart
  | "" | "." => none
  | ".." => some .parent
  | text => some (.name text)

def parts (path : String) : List PathPart :=
  let pieces := pieces path
  let first := match pieces with
    | "." :: _ => [.current]
    | "" :: _ :: _ => [.root]
    | _ => []
  first ++ pieces.filterMap part?

/-- The last part of a path, if it is a name. -/
def fileName? (path : String) : Option String :=
  match (parts path).getLast? with
  | some (.name text) => some text
  | _ => none

/-- A file name up to its last dot. A dot at the beginning belongs to the name. -/
def stem (name : String) : String :=
  let pieces := name.splitOn "."
  match pieces.dropLast with
  | [] | [""] => name
  | front => ".".intercalate front

/-- The name of a file without its extension, or the whole path if it names no file. -/
def fileStem (path : String) : String :=
  ((fileName? path).map stem).getD path

/-! ## Joining -/

def isAbsolute (path : String) : Bool := path.startsWith "/"

/-- A path seen from a folder. An absolute path stays what it is. -/
def join (folder path : String) : String :=
  if isAbsolute path || folder.isEmpty then path
  else if folder.endsWith "/" then folder ++ path
  else folder ++ "/" ++ path

/-- Drops the last piece that counts, and pieces around it that do not count. -/
def withoutLast (pieces : List String) : List String :=
  let trim := List.dropWhile fun piece => (part? piece).isNone
  (trim ((trim pieces.reverse).drop 1)).reverse

def folder (path : String) : String :=
  match pieces path with
  | "" :: piece :: rest => "/" ++ "/".intercalate (withoutLast (piece :: rest))
  | "." :: rest => "/".intercalate ("." :: withoutLast rest)
  | pieces => "/".intercalate (withoutLast pieces)

def endsInDot (path : String) : Bool :=
  ((pieces path).filter (!·.isEmpty)).getLast? == some "."

/-! ## Order -/

/-- The key of the order of parts: the root, then dots, then names by their characters. -/
def orderKey : PathPart → Nat × String
  | .root => (0, "")
  | .current => (1, "")
  | .parent => (2, "")
  | .name text => (3, text)

/-- Whether a part comes before another one. -/
def partBefore (p q : PathPart) : Bool :=
  let (m, s) := orderKey p
  let (n, t) := orderKey q
  m < n || (m == n && s < t)

/-- Whether parts come before others or are the same: at the first difference the lesser part decides,
and what goes on comes after what ends. -/
def partsOrdered : List PathPart → List PathPart → Bool
  | [], _ => true
  | _ :: _, [] => false
  | p :: ps, q :: qs => if p = q then partsOrdered ps qs else partBefore p q

/-- Keeps the first of neighbours with the same parts. -/
def dropRepeated : List String → List String
  | [] => []
  | path :: rest =>
    match dropRepeated rest with
    | [] => [path]
    | next :: others => if parts path = parts next then path :: others else path :: next :: others

/-- The paths in the order of their parts; of paths with the same parts, only the first one. -/
def sortedDistinct (paths : List String) : List String :=
  dropRepeated (paths.mergeSort fun p q => partsOrdered (parts p) (parts q))

end Path

end PropContract
