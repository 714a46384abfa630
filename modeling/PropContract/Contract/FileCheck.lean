import PropContract.Contract.Check
import PropContract.Contract.ModelJson

/-!
# Checking a file

A file with syntax errors gets only those; any other file gets what its contract deserves.
-/

namespace PropContract

structure FileResult where
  path : String
  source : String
  diagnostics : List Diagnostic := []
  model : Option ComponentModel := none
  /-- Whether the file has syntax errors, and so was not checked -/
  parseFailed : Bool := false

def SyntaxError.toDiagnostic (e : SyntaxError) (file : String) : Diagnostic :=
  { file, start := e.start, length := e.length, text := e.text, category := .error, code := e.code }

namespace FileResult

def ofSource (names : FieldNames) (path source : String) : FileResult :=
  let m := Module.parse path source
  if m.errors.isEmpty then
    let result := checkContract m.arena (.ofModule m) names path (some m.root)
    { path, source, model := result.model
      diagnostics := result.findings.map (·.toDiagnostic m.arena path) }
  else
    { path, source, parseFailed := true, diagnostics := m.errors.map (·.toDiagnostic path) }

end FileResult

end PropContract
