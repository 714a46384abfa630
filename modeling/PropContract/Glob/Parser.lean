import PropContract.Glob.Part

/-!
# Reading globs

The parts that the text of a glob is made of. Brackets and braces have to be closed, ranges may not
run backwards, and a backslash needs something to escape.
-/

namespace PropContract.Glob

structure Reading where
  /-- The parts of the innermost branch, last one first -/
  branch : List GlobPart := []
  /-- For each open brace, the innermost first: its finished branches, last one first, and the parts
  before it, last one first -/
  groups : List (List (List GlobPart) × List GlobPart) := []
  /-- The character read last -/
  previous : Option Char := none

namespace Reading

def push (r : Reading) (part : GlobPart) : Reading :=
  { r with branch := part :: r.branch }

/-! ## Braces -/

def openGroup (r : Reading) : Reading :=
  { r with branch := [], groups := ([], r.branch) :: r.groups }

/-- A comma, which begins a new branch only between braces. -/
def comma (r : Reading) : Reading :=
  match r.groups with
  | [] => r.push (.literal ',')
  | (finished, outer) :: groups =>
    { r with branch := [], groups := (r.branch.reverse :: finished, outer) :: groups }

def closeGroup? (r : Reading) : Option Reading :=
  match r.groups with
  | [] => none
  | (finished, outer) :: groups =>
    let branches := (r.branch.reverse :: finished).reverse
    some { r with branch := .alternatives branches :: outer, groups }

/-! ## Stars -/

/-- Puts folders in place of the last part, unless that stands for folders at an end of the path. -/
def replaceByFolders (r : Reading) (folders : GlobPart) : Reading :=
  match r.branch with
  | .leadingFolders :: _ | .trailingFolders :: _ => r
  | parts => { r with branch := folders :: parts.drop 1 }

/-- Whether a whole component of a path may begin after the character read last. -/
def atComponent (r : Reading) : Bool :=
  r.previous == some '/' ||
    (!r.groups.isEmpty && (r.previous == some ',' || r.previous == some '{'))

/-- Two stars, and the text that follows what they take. They stand for folders only where they are
a whole component. -/
def doubleStar (r : Reading) (rest : List Char) : Reading × List Char :=
  let plain := ((r.push .anyText).push .anyText, rest)
  if r.branch.isEmpty then
    match rest with
    | [] => (r.push .leadingFolders, [])
    | '/' :: rest => (r.push .leadingFolders, rest)
    | _ => plain
  else if r.atComponent then
    match rest with
    | [] => (r.replaceByFolders .trailingFolders, [])
    | '/' :: rest => (r.replaceByFolders .innerFolders, rest)
    | c :: _ =>
      if !r.groups.isEmpty && (c == ',' || c == '}') then
        (r.replaceByFolders .trailingFolders, rest)
      else plain
  else plain

end Reading

/-! ## Brackets -/

/-- The ranges of a bracket up to its end, and the text after it. A closing bracket counts as a
character at the beginning; so does a hyphen at the beginning or the end. -/
def ranges? : (atStart afterHyphen : Bool) → (read : List (Char × Char)) → List Char →
    Option (List (Char × Char) × List Char)
  | _, _, _, [] => none
  | atStart, afterHyphen, read, c :: rest =>
    if c == ']' && !atStart then
      some ((if afterHyphen then ('-', '-') :: read else read).reverse, rest)
    else if c == '-' && !atStart && !afterHyphen then ranges? false true read rest
    else if afterHyphen then
      match read with
      | (low, _) :: others => if c < low then none else ranges? false false ((low, c) :: others) rest
      | [] => none
    else ranges? false false ((c, c) :: read) rest

/-- A bracket after its opening, and the text after it. -/
def bracket? (text : List Char) : Option (GlobPart × List Char) :=
  let (negated, text) := match text with
    | '!' :: rest | '^' :: rest => (true, rest)
    | _ => (false, text)
  (ranges? true false [] text).map fun (ranges, rest) => (.oneByte negated ranges, rest)

/-! ## Globs -/

/-- Reads the part that begins with a character, and gives the text after it. -/
def Reading.step? (r : Reading) : Char → List Char → Option (Reading × List Char)
  | '?', rest => some (r.push .anyByte, rest)
  | '*', '*' :: rest => some (r.doubleStar rest)
  | '*', rest => some (r.push .anyText, rest)
  | '[', rest => (bracket? rest).map fun (part, rest) => (r.push part, rest)
  | '{', rest => some (r.openGroup, rest)
  | '}', rest => r.closeGroup?.map (·, rest)
  | ',', rest => some (r.comma, rest)
  | '\\', [] => none
  | '\\', c :: rest => some (r.push (.literal c), rest)
  | c, rest => some (r.push (.literal c), rest)

def readUpTo : (n : Nat) → Reading → List Char → Option Reading
  | _, r, [] => some r
  | 0, _, _ => none
  | n + 1, r, c :: rest => do
    let (r, left) ← r.step? c rest
    let taken := (c :: rest).take (rest.length + 1 - left.length)
    readUpTo n { r with previous := taken.getLast? } left

def parts? (text : String) : Option (List GlobPart) := do
  let r ← readUpTo text.length {} text.toList
  if r.groups.isEmpty then some r.branch.reverse else none

end PropContract.Glob
