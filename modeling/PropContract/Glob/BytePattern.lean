/-!
# Byte patterns

Patterns over bytes, with a wildcard for a run of any bytes, and how they match.
-/

namespace PropContract

/-- The bytes of some ranges, or all other bytes. -/
structure ByteSet where
  ranges : List (UInt8 × UInt8)
  negated : Bool := false
deriving DecidableEq, Repr

namespace ByteSet

def contains (s : ByteSet) (b : UInt8) : Bool :=
  s.ranges.any (fun (first, last) => first ≤ b && b ≤ last) != s.negated

def all : ByteSet := { ranges := [], negated := true }

def singleton (b : UInt8) : ByteSet := { ranges := [(b, b)] }

end ByteSet

inductive BytePattern where
  | empty
  /-- One byte of a set -/
  | one (set : ByteSet)
  /-- Any bytes, as many as there are -/
  | run
  | seq (first second : BytePattern)
  | choice (first second : BytePattern)
deriving DecidableEq, Repr

namespace BytePattern

def followedBy : BytePattern → BytePattern → BytePattern
  | empty, q => q
  | p, empty => p
  | p, q => seq p q

def ofBytes (bytes : List UInt8) : BytePattern :=
  bytes.foldr (fun b p => (one (.singleton b)).followedBy p) empty

def oneOf : List BytePattern → BytePattern
  | [] => empty
  | [p] => p
  | p :: rest => choice p (oneOf rest)

/-! ## Matching -/

def matchesEmpty : BytePattern → Bool
  | empty => true
  | one _ => false
  | run => true
  | seq p q => matchesEmpty p && matchesEmpty q
  | choice p q => matchesEmpty p || matchesEmpty q

/-- What may follow a byte where a pattern begins. -/
def after (b : UInt8) : BytePattern → List BytePattern
  | empty => []
  | one set => if set.contains b then [empty] else []
  | run => [run]
  | seq p q =>
    (after b p).map (followedBy · q) ++ (if matchesEmpty p then after b q else [])
  | choice p q => after b p ++ after b q

/-- What may follow the bytes where one of the patterns begins. -/
def afterAll (patterns : List BytePattern) (bytes : List UInt8) : List BytePattern :=
  bytes.foldl (fun patterns b => (patterns.flatMap (after b)).eraseDups) patterns

def isMatch (p : BytePattern) (bytes : List UInt8) : Bool :=
  (afterAll [p] bytes).any matchesEmpty

end BytePattern

end PropContract
