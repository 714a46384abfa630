import PropContract.Glob.BytePattern

/-!
# Parts of a glob

What the wildcards of a glob stand for, as patterns over the bytes of a path.
-/

namespace PropContract

inductive GlobPart where
  | literal (c : Char)
  /-- `?` -/
  | anyByte
  /-- `*` -/
  | anyText
  /-- Two stars and a slash at the beginning -/
  | leadingFolders
  /-- A slash and two stars at the end -/
  | trailingFolders
  /-- Two stars between slashes -/
  | innerFolders
  /-- Brackets -/
  | oneByte (negated : Bool) (ranges : List (Char × Char))
  /-- Braces -/
  | alternatives (branches : List (List GlobPart))
deriving Repr

namespace GlobPart

def slash : BytePattern := .ofBytes (String.utf8EncodeChar '/')

/-- The bytes in a range of characters. The bytes of both ends count, and what lies between the last
byte of the lower one and the first byte of the upper one. -/
def byteRanges (low high : Char) : List (UInt8 × UInt8) :=
  let single (b : UInt8) : UInt8 × UInt8 := (b, b)
  let lows := String.utf8EncodeChar low
  let highs := String.utf8EncodeChar high
  if low = high then lows.map single
  else
    lows.dropLast.map single ++ List.zip (lows.getLast?.toList) (highs.head?.toList) ++
      (highs.drop 1).map single

def bytePattern : GlobPart → BytePattern
  | literal c => .ofBytes (String.utf8EncodeChar c)
  | anyByte => .one .all
  | anyText => .run
  | leadingFolders => .choice (.choice .empty slash) (.seq .run slash)
  | trailingFolders => .seq slash .run
  | innerFolders => .choice slash (.seq slash (.seq .run slash))
  | oneByte negated ranges =>
    .one { negated, ranges := ranges.flatMap fun (low, high) => byteRanges low high }
  | alternatives branches => .oneOf ((branchPatterns branches).filter (· != .empty))
where
  branchPattern : List GlobPart → BytePattern
    | [] => .empty
    | part :: rest => (bytePattern part).followedBy (branchPattern rest)
  branchPatterns : List (List GlobPart) → List BytePattern
    | [] => []
    | branch :: rest => branchPattern branch :: branchPatterns rest

/-- The text of parts that are all literal. -/
def literalText? (parts : List GlobPart) : Option (List Char) :=
  parts.mapM fun
    | literal c => some c
    | _ => none

end GlobPart

end PropContract
