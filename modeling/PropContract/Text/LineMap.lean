import PropContract.Text.Source

/-!
# Lines and columns

Where the lines of a text begin, and the line and column of an offset. Lines end with a line feed, a
carriage return, or both.
-/

namespace PropContract.Text

/-- A line and a column, counted from zero. Columns are counted in characters. -/
structure Position where
  line : Nat
  column : Nat
deriving DecidableEq, Repr

structure LineMap where
  starts : List Nat
deriving DecidableEq, Repr

namespace LineMap

/-- The starts of the lines after the first one, in characters that stand at `pos`. -/
def startsFrom : (pos : Nat) → List Char → List Nat
  | _, [] => []
  | pos, '\r' :: '\n' :: rest => (pos + 2) :: startsFrom (pos + 2) rest
  | pos, c :: rest =>
    let next := pos + c.utf8Size
    if c = '\n' ∨ c = '\r' then next :: startsFrom next rest else startsFrom next rest

def ofText (text : String) : LineMap where
  starts := 0 :: startsFrom 0 text.toList

def lineCount (m : LineMap) : Nat := m.starts.length

/-- The position of an offset. Past the end of the text it is the position of the end; inside of a
character the column is zero. -/
def position (m : LineMap) (s : Source) (offset : Nat) : Position :=
  let begun := m.starts.takeWhile (· ≤ offset)
  let stop := min offset s.size
  let start := min (begun.getLastD 0) stop
  { line := begun.length - 1, column := (s.slice start stop).length }

/-- The largest offset: it fits into 32 bits. -/
def maxOffset : Nat := 0xffffffff

def span (m : LineMap) (s : Source) (start length : Nat) : Position × Position :=
  (m.position s start, m.position s (min (start + length) maxOffset))

end LineMap

end PropContract.Text
