import PropContract.Limits
import PropContract.Text.Source
import PropContract.Token.Trivia

/-!
# Text that is stepped over

Function bodies, parameter lists and markup are not tokenized: only their end is found. Strings,
templates, comments, regular expressions and markup inside them are stepped over, so brackets in
those do not count.
-/

namespace PropContract.Token

open Text

/-- Words after which a slash begins a regular expression and `<` begins markup. -/
def expressionWords : List String :=
  ["return", "typeof", "case", "do", "else", "in", "of", "yield", "await", "void", "delete",
   "throw", "new", "default"]

/-- Punctuation after which an expression can begin. -/
def expressionMarks : List Char :=
  ['(', ',', '=', ':', '[', '!', '&', '|', '?', '{', '}', ';', '+', '-', '*', '%', '<', '>', '~', '^']

/-- Whether an expression can begin at `pos`, judged by the last word or mark before it. -/
def expressionMayStart (s : Source) (pos : Nat) : Bool :=
  match s.skipBack isAsciiSpace pos with
  | 0 => true
  | stop + 1 =>
    let last := s.charAt stop
    if isIdentifierPart last then
      expressionWords.contains (s.slice (s.skipBack isIdentifierPart (stop + 1)) (stop + 1))
    else expressionMarks.contains last

/-- The end of a quoted string whose contents go on at `pos`, which has at most `n` more marks. -/
def stringEndIn (s : Source) (quote : Char) : (n pos : Nat) → Option Nat
  | 0, _ => none
  | n + 1, pos => do
    let p ← s.find? (fun c => c == quote || c == '\\' || c == '\n') pos
    if s.charAt p == '\\' then stringEndIn s quote n (p + 2)
    else if s.charAt p == '\n' then none
    else some (p + 1)

def stringEnd (s : Source) (start : Nat) (quote : Char) : Option Nat :=
  stringEndIn s quote (s.size - start) (start + 1)

/-- The end of a template whose contents go on at `pos`, and whether it has a substitution. -/
def templateEndIn (s : Source) (group : Nat → Option Nat) :
    (n pos : Nat) → (substituted : Bool) → Option (Nat × Bool)
  | 0, _, _ => none
  | n + 1, pos, substituted => do
    let p ← s.find? (fun c => c == '`' || c == '\\' || c == '$') pos
    if s.charAt p == '\\' then templateEndIn s group n (p + 2) substituted
    else if s.charAt p == '`' then some (p + 1, substituted)
    else if s.charAt (p + 1) == '{' then templateEndIn s group n (← group (p + 1)) true
    else templateEndIn s group n (p + 1) substituted

/-- The end of the template whose backquote stands at `start`; `group` steps over a substitution. -/
def templateEnd (s : Source) (group : Nat → Option Nat) (start : Nat) : Option (Nat × Bool) :=
  templateEndIn s group (s.size - start) (start + 1) false

/-- The slash that closes a regular expression whose body goes on at `pos`. -/
def regexCloseIn (s : Source) : (n pos : Nat) → (inClass : Bool) → Option Nat
  | 0, _, _ => none
  | n + 1, pos, inClass =>
    if s.size ≤ pos then none
    else
      let c := s.charAt pos
      if isLineBreak c then none
      else if c == '\\' then regexCloseIn s n (pos + 2) inClass
      else if c == '[' then regexCloseIn s n (pos + 1) true
      else if c == ']' then regexCloseIn s n (pos + 1) false
      else if c == '/' && !inClass then some pos
      else regexCloseIn s n (pos + 1) inClass

/-- The end of the regular expression whose first slash stands at `start`, flags included. -/
def regexEnd (s : Source) (start : Nat) : Option Nat :=
  (regexCloseIn s (s.size - start) (start + 1) false).map fun close =>
    s.skipWhile isIdentifierPart (close + 1)

inductive Opaque where
  | group
  | template
  | element
deriving DecidableEq, Repr

def closer? : Char → Option Char
  | '{' => some '}'
  | '(' => some ')'
  | '[' => some ']'
  | _ => none

def isCloser (c : Char) : Bool := c == '}' || c == ')' || c == ']'

/-- The end of the group whose open brackets wait for `closers`, reading on at `pos`. -/
def groupEndIn (s : Source) (inner : Opaque → Nat → Option Nat) :
    (n pos : Nat) → (closers : List Char) → Option Nat
  | 0, _, _ => none
  | n + 1, pos, closers =>
    if s.size ≤ pos then none
    else
      let c := s.charAt pos
      let d := s.charAt (pos + 1)
      let go (next : Option Nat) : Option Nat := do groupEndIn s inner n (← next) closers
      match closer? c with
      | some close => groupEndIn s inner n (pos + 1) (close :: closers)
      | none =>
        if isCloser c then
          match closers with
          | [] => none
          | close :: rest =>
            if c != close then none
            else if rest.isEmpty then some (pos + 1)
            else groupEndIn s inner n (pos + 1) rest
        else if c == '"' || c == '\'' then go (stringEnd s pos c)
        else if c == '`' then go (inner .template pos)
        else if c == '/' && d == '/' then go (some (lineCommentEnd s pos))
        else if c == '/' && d == '*' then go ((blockCommentEnd s pos).map (·.1))
        else if c == '/' && expressionMayStart s pos then go (regexEnd s pos)
        else if c == '<' && expressionMayStart s pos && (isIdentifierStart d || d == '>') then
          go (inner .element pos)
        else go (some (pos + 1))

/-- The end of the children of an element, reading on at `pos`, closing tag included. -/
def childrenEndIn (s : Source) (inner : Opaque → Nat → Option Nat) : (n pos : Nat) → Option Nat
  | 0, _ => none
  | n + 1, pos => do
    let p ← s.find? (fun c => c == '<' || c == '{') pos
    if s.charAt p == '{' then childrenEndIn s inner n (← inner .group p)
    else if s.charAt (p + 1) == '/' then some ((← s.find? (· == '>') p) + 1)
    else childrenEndIn s inner n (← inner .element p)

def childrenEnd (s : Source) (inner : Opaque → Nat → Option Nat) (pos : Nat) : Option Nat :=
  childrenEndIn s inner (s.size - pos) pos

/-- The end of the element whose tag's attributes go on at `pos`. -/
def attributesEndIn (s : Source) (inner : Opaque → Nat → Option Nat) : (n pos : Nat) → Option Nat
  | 0, _ => none
  | n + 1, pos =>
    if s.size ≤ pos then none
    else
      let c := s.charAt pos
      if c == '/' && s.charAt (pos + 1) == '>' then some (pos + 2)
      else if c == '>' then childrenEnd s inner (pos + 1)
      else if c == '{' then do attributesEndIn s inner n (← inner .group pos)
      else if c == '"' || c == '\'' then do
        attributesEndIn s inner n ((← s.find? (· == c) (pos + 1)) + 1)
      else attributesEndIn s inner n (pos + 1)

/-- The end of the element whose `<` stands at `start`. -/
def elementEnd (s : Source) (inner : Opaque → Nat → Option Nat) (start : Nat) : Option Nat :=
  if s.charAt (start + 1) == '>' then childrenEnd s inner (start + 2)
  else
    let pos := s.skipWhile isTagNamePart (start + 1)
    attributesEndIn s inner (s.size - pos) pos

/-- The end of what begins at `pos`, with at most `level` levels of nesting. On the last level a
template may still be stepped over, but nothing in it. -/
def opaqueEnd (s : Source) : (level : Nat) → Opaque → (pos : Nat) → Option Nat
  | 0, .template, pos => (templateEnd s (fun _ => none) pos).map (·.1)
  | 0, _, _ => none
  | level + 1, .group, pos => groupEndIn s (opaqueEnd s level) (s.size - pos) pos []
  | level + 1, .template, pos => (templateEnd s (opaqueEnd s level .group) pos).map (·.1)
  | level + 1, .element, pos => elementEnd s (opaqueEnd s level) pos

def groupEnd (s : Source) (pos : Nat) : Option Nat :=
  opaqueEnd s (maxSkipDepth + 1) .group pos

def markupEnd (s : Source) (pos : Nat) : Option Nat :=
  opaqueEnd s (maxSkipDepth + 1) .element pos

def templateLiteralEnd (s : Source) (pos : Nat) : Option (Nat × Bool) :=
  templateEnd s (opaqueEnd s maxSkipDepth .group) pos

end PropContract.Token
