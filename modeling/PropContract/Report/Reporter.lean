import PropContract.Diagnostic.Message
import PropContract.Entries
import PropContract.Json.Value
import PropContract.Text.LineMap

/-!
# Reports

Diagnostics as text, with the line they point into, or as JSON. Lines and columns are counted from
one.
-/

namespace PropContract

structure Reporter where
  color : Bool := false
  sources : Entries String := []
deriving DecidableEq, Repr

namespace Reporter

def addSource (r : Reporter) (file text : String) : Reporter :=
  { r with sources := r.sources.put file text }

/-! ## Colors -/

def reset : String := "\x1b[0m"

/-- Text in a terminal style. Where the text itself ends a style, this one begins again. -/
def paint (r : Reporter) (style text : String) : String :=
  if r.color then
    let start := "\x1b[" ++ style ++ "m"
    start ++ text.replace reset (reset ++ start) ++ reset
  else text

def categoryText (r : Reporter) : Category → String
  | .error => r.paint "1;31" "error"
  | .warning => r.paint "1;33" "warning"
  | .suggestion => r.paint "34" "suggestion"
  | .message => r.paint "34" "message"

/-! ## Places -/

/-- The line and column of an offset in a file whose text is known, counted from one. -/
def place? (r : Reporter) (file : String) (offset : Nat) : Option (Nat × Nat) := do
  let text ← r.sources.get? file
  let p := (Text.LineMap.ofText text).position (.ofString text) offset
  return (p.line + 1, p.column + 1)

/-- A line without the carriage return that ends it. -/
def trimReturn (line : List Char) : List Char :=
  if line.getLast? = some '\r' then line.dropLast else line

/-- The lines of a text. A line ends with a line feed, which may follow a carriage return; what stands
after the last one is a line too, unless it is empty. -/
def lines (text : String) : List (List Char) :=
  let pieces := text.toList.splitOn '\n'
  pieces.dropLast.map trimReturn ++ (pieces.getLast?.filter (!·.isEmpty)).toList

/-- Marks under a line: blanks before the column, then one mark for each of `n` characters, as far as
the line goes. Tabs stay tabs. -/
def underline (line : List Char) (column n : Nat) : List Char :=
  let before := (line.take (column - 1)).map fun c => if c = '\t' then '\t' else ' '
  let marks := List.replicate (min n (line.length - (column - 1))) '~'
  before ++ (if marks.isEmpty then ['~'] else marks)

/-- How many characters of a span are marked: those on its first line, at least one. -/
def markCount (text : String) (start length : Nat) : Nat :=
  let span := (Text.Source.ofString text).slice start (start + length)
  max 1 (span.toList.takeWhile (· != '\n')).length

def padded (n : Nat) : String :=
  let digits := Nat.toDigits 10 n
  String.ofList (List.replicate (3 - digits.length) ' ' ++ digits)

/-- The line that a span begins in, with the span underlined. An empty span has none. -/
def snippet? (r : Reporter) (file : String) (start length : Nat) : Option String := do
  if length = 0 then none
  else
    let text ← r.sources.get? file
    let (line, column) ← r.place? file start
    let lineText := trimReturn (← (lines text)[line - 1]?)
    let marks := String.ofList (underline lineText column (markCount text start length))
    return "\n  " ++ padded line ++ "   " ++ String.ofList lineText ++ "\n        " ++
      r.paint "31" marks

/-! ## Text -/

def placeText (r : Reporter) (d : Diagnostic) : String :=
  match r.place? d.file d.start with
  | some (line, column) => d.file ++ ":" ++ toString line ++ ":" ++ toString column
  | none => if d.file.isEmpty then "<unknown>" else d.file

def diagnosticText (r : Reporter) (d : Diagnostic) : String :=
  r.paint "36" (r.placeText d) ++ " - " ++ r.categoryText d.category ++ " " ++
    r.paint "90" ("VMC" ++ toString d.code) ++ ": " ++ d.text ++
    (r.snippet? d.file d.start d.length).getD ""

def render (r : Reporter) (diagnostics : List Diagnostic) : String :=
  String.join (diagnostics.map fun d => r.diagnosticText d ++ "\n")

/-- The line that ends a report, as in `Found 3 errors in 2 files.` -/
def summary (r : Reporter) (errors files : Nat) : String :=
  let count (n : Nat) (one many : String) : String :=
    toString n ++ " " ++ (if n = 1 then one else many)
  let text := "Found " ++ count errors "error" "errors" ++ " in " ++ count files "file" "files" ++ "."
  if errors = 0 then text else r.paint "1" text

/-! ## JSON -/

/-- A diagnostic with its line and column, which are zero where the text is not known. -/
def diagnosticJson (r : Reporter) (d : Diagnostic) : Json :=
  let (line, column) := (r.place? d.file d.start).getD (0, 0)
  .object
    [("file", .string d.file), ("start", .natural d.start), ("length", .natural d.length),
     ("line", .natural line), ("column", .natural column),
     ("category", .string d.category.name), ("code", .natural d.code),
     ("message", .string d.text)]

def renderJson (r : Reporter) (diagnostics : List Diagnostic) : String :=
  (Json.array (diagnostics.map r.diagnosticJson)).text

end Reporter

end PropContract
