import PropContract.Glob.Parser

/-!
# Globs

Patterns for paths, one alone or several at once.
-/

namespace PropContract

structure Glob where
  parts : List GlobPart
deriving Repr

namespace Glob

def ofString? (text : String) : Option Glob := (parts? text).map Glob.mk

/-- The paths that the wildcards allow. Two stars alone allow every path. -/
def bytePattern (g : Glob) : BytePattern :=
  match g.parts with
  | [.leadingFolders] => .run
  | parts => GlobPart.bytePattern.branchPattern parts

/-- Whether the last component of a path is two dots. Such a path has neither a file name nor an
extension. -/
def leadsUp (path : String) : Bool :=
  (path.splitOn "/").getLast? == some ".."

/-- Whether a glob is compared with whole paths, and not with their file names or extensions. The
difference shows only in globs that end in a dot. Those compare whole paths if they are plain text, or
if they begin with a star or folders and are plain text from there on that is more than a dot, and
after folders more than a file name. -/
def comparesPaths (g : Glob) : Bool :=
  match g.parts.getLast? with
  | some (.literal '.') =>
    let (folders, rest) := match g.parts with
      | .leadingFolders :: rest => (true, rest)
      | parts => (false, parts)
    match rest with
    | .anyText :: tail => (GlobPart.literalText? tail).any (· != ['.'])
    | _ => (GlobPart.literalText? rest).any fun text => !folders || text.contains '/'
  | _ => true

def isMatch (g : Glob) (path : String) : Bool :=
  (g.comparesPaths || !leadsUp path) && g.bytePattern.isMatch path.toUTF8.data.toList

end Glob

structure GlobError where
  pattern : String
deriving DecidableEq, Repr

def GlobError.message (e : GlobError) : String := "invalid glob pattern '" ++ e.pattern ++ "'"

structure GlobSet where
  globs : List Glob
deriving Repr

namespace GlobSet

def ofPatterns (patterns : List String) : Except GlobError GlobSet :=
  GlobSet.mk <$> patterns.mapM fun pattern =>
    match Glob.ofString? pattern with
    | some glob => .ok glob
    | none => .error { pattern }

def isMatch (s : GlobSet) (path : String) : Bool := s.globs.any (·.isMatch path)

end GlobSet

end PropContract
