import PropContract.Parse.Module
import PropContract.Proofs.Token.Suffix
import PropContract.Proofs.Tree.Renumber

/-!
# Parsing at the end of a larger text

Where a text stands at the end of a larger one, a parser state for it has its counterpart there: the
offsets are moved, and so are the numbers of the nodes, behind the nodes that are there already.
-/

namespace PropContract

open Text

/-- A place for a text: the end of a larger one, and the nodes of what stands before it. -/
structure Displacement where
  source : Source
  target : Source
  offset : Nat
  suffix : target.EndsWith offset source
  nodes : Array Node

namespace Displacement

variable (d : Displacement)

/-- A text in its own place. -/
def identity (src : Source) : Displacement :=
  { source := src, target := src, offset := 0, suffix := .refl src, nodes := #[] }

def id (i : NodeId) : NodeId := d.nodes.size + i

def child (c : Child) : Child := c.map d.id

def form (form : Form) : Form := form.renumber d.id

def node (n : Node) : Node :=
  { start := d.offset + n.start
    stop := d.offset + n.stop
    parent := n.parent.map d.id
    modifiers := n.modifiers
    form := d.form n.form }

def arena (a : Arena) : Arena := { nodes := d.nodes ++ a.nodes.map d.node }

def error (e : SyntaxError) : SyntaxError := { e with start := d.offset + e.start }

def state (s : ParserState) : ParserState where
  lexer :=
    { source := d.target
      token := s.lexer.token.moved d.offset
      errors := s.lexer.errors.map (·.moved d.offset) }
  arena := d.arena s.arena
  errors := s.errors.map d.error
  prevEnd := d.offset + s.prevEnd
  depth := s.depth
  quiet := s.quiet

/-! ## Nodes -/

theorem size_arena (a : Arena) : (d.arena a).size = d.id a.size := by
  simp [arena, Arena.size, id]

theorem get?_arena (a : Arena) (i : NodeId) : (d.arena a).get? (d.id i) = (a.get? i).map d.node := by
  have hle : d.nodes.size ≤ d.nodes.size + i := Nat.le_add_right _ _
  rw [arena, Arena.get?, id, Array.getElem?_append_right hle, Nat.add_sub_cancel_left,
    Array.getElem?_map, Arena.get?]

theorem children_form (form : Form) : (d.form form).children = form.children.map d.child :=
  form.children_renumber d.id

theorem adopt_arena (a : Arena) (parent : NodeId) (c : Child) :
    d.arena (a.adopt parent c) = (d.arena a).adopt (d.id parent) (d.child c) := by
  cases c with
  | none => rfl
  | some i =>
      change Arena.mk (d.nodes ++ (a.nodes.modify i fun n => { n with parent := some parent }).map
          d.node) =
        Arena.mk ((d.nodes ++ a.nodes.map d.node).modify (d.nodes.size + i) fun n =>
          { n with parent := some (d.id parent) })
      congr 1
      apply Array.ext_getElem?
      intro j
      simp only [Array.getElem?_append, Array.getElem?_map, Array.getElem?_modify]
      by_cases hj : j < d.nodes.size
      · have hne : ¬ d.nodes.size + i = j := by omega
        rw [if_pos hj, if_neg hne, if_pos hj]
      · obtain ⟨k, rfl⟩ := Nat.exists_eq_add_of_le (Nat.le_of_not_lt hj)
        simp only [if_neg hj, Nat.add_sub_cancel_left, Nat.add_left_cancel_iff]
        split
        · rw [Option.map_map, Option.map_map]
          rfl
        · rfl

theorem add_arena (a : Arena) (n : Node) : d.arena (a.add n) = (d.arena a).add (d.node n) := by
  have hfold (children : List Child) (b : Arena) :
      d.arena (children.foldl (Arena.adopt a.size) b) =
        (children.map d.child).foldl (Arena.adopt (d.arena a).size) (d.arena b) := by
    induction children generalizing b with
    | nil => rfl
    | cons c children ih =>
        rw [List.foldl_cons, ih, adopt_arena, ← size_arena]
        rfl
  rw [Arena.add, Arena.add, node, children_form, ← hfold]
  simp only [arena, Array.map_push, Array.append_push]
  rfl

theorem isIdentifier_arena (a : Arena) (i : NodeId) :
    ((d.arena a).get? (d.id i)).any (·.isIdentifier) = (a.get? i).any (·.isIdentifier) := by
  rw [get?_arena, Option.any_map]
  congr 1
  funext n
  cases hform : n.form <;> simp [node, Node.isIdentifier, hform, Displacement.form, Form.renumber]

theorem offset_beq (i j : Nat) : (d.offset + i == d.offset + j) = (i == j) := by
  rw [Bool.eq_iff_iff]
  simp

/-! ## Moving on -/

variable {d} {s : ParserState} {pos : Nat}

theorem state_advance (hs : s.source = d.source) : (d.state s).advance = d.state s.advance := by
  have hsource : s.lexer.source = d.source := hs
  have hscan : Token.scanAt d.target (d.offset + s.lexer.token.stop) = _ := Token.scanAt_suffix d.suffix
  simp only [ParserState.advance, state, Lexer.scan, Token.moved, ParserState.token, hsource] at hscan ⊢
  rw [hscan]
  simp only [List.map_append]

theorem state_jump (hs : s.source = d.source) :
    (d.state s).jump (d.offset + pos) = d.state (s.jump pos) := by
  have hsource : s.lexer.source = d.source := hs
  have hscan : Token.scanAt d.target (d.offset + min pos d.source.size) = _ :=
    Token.scanAt_suffix d.suffix
  simp only [ParserState.jump, state, Lexer.resetTo, Lexer.scan, Token.moved, hsource,
    d.suffix.size, Nat.add_min_add_left] at hscan ⊢
  rw [hscan]
  simp only [List.map_append]

theorem state_rescan (hs : s.source = d.source) :
    ({ d.state s with lexer := (d.state s).lexer.rescanSlash } : ParserState) =
      d.state { s with lexer := s.lexer.rescanSlash } := by
  have hsource : s.lexer.source = d.source := hs
  simp only [state, Lexer.rescanSlash, hsource, Token.asRegex_suffix d.suffix, List.map_append]

theorem state_reportHere (message : Message) (args : List String) :
    (d.state s).reportHere message args = d.state (s.reportHere message args) := by
  have hlength : d.offset + s.token.stop - (d.offset + s.token.start) =
      s.token.stop - s.token.start := Nat.add_sub_add_left ..
  have hhead : (s.errors.map d.error).head?.any (·.start == d.offset + s.token.start) =
      s.errors.head?.any (·.start == s.token.start) := by
    cases s.errors with
    | nil => rfl
    | cons e es => exact d.offset_beq _ _
  change (if s.quiet || (s.errors.map d.error).head?.any (·.start == d.offset + s.token.start) then
      d.state s
    else { d.state s with errors := ⟨d.offset + s.token.start,
        d.offset + s.token.stop - (d.offset + s.token.start), message, args⟩ :: s.errors.map d.error }) =
      _
  rw [hhead, hlength, ParserState.reportHere, ParserState.report, apply_ite d.state]
  rfl

theorem state_add (n : Node) :
    ({ d.state s with arena := (d.state s).arena.add (d.node n) } : ParserState) =
      d.state { s with arena := s.arena.add n } := by
  simp only [state, add_arena]

theorem state_addNode (form : Form) (modifiers : Modifiers) :
    (d.state s).addNode (d.form form) (d.offset + pos) modifiers =
      d.state (s.addNode form pos modifiers) := by
  rw [ParserState.addNode, ParserState.addNode, ← state_add, node]
  simp only [Option.map_none, state, Nat.add_max_add_left]

/-! ## Looking ahead -/

theorem peekPos_state (hs : s.source = d.source) : (d.state s).peekPos = d.offset + s.peekPos := by
  rw [ParserState.peekPos, ParserState.peekPos, hs]
  exact Token.skipTrivia_suffix d.suffix

theorem peekChar_state (hs : s.source = d.source) : (d.state s).peekChar = s.peekChar := by
  rw [ParserState.peekChar, peekPos_state hs, ParserState.peekChar, hs]
  exact d.suffix.charAt

theorem peeksWord_state (hs : s.source = d.source) (w : String) :
    (d.state s).peeksWord w = s.peeksWord w := by
  rw [ParserState.peeksWord, ParserState.peeksWord, peekPos_state hs, hs, Nat.add_assoc]
  change (d.target.startsWithAt (d.offset + s.peekPos) w &&
    !isIdentifierPart (d.target.charAt (d.offset + (s.peekPos + w.utf8ByteSize)))) = _
  rw [d.suffix.startsWithAt, d.suffix.charAt]

theorem isAsyncFunction_state (hs : s.source = d.source) :
    (d.state s).isAsyncFunction = s.isAsyncFunction := by
  rw [ParserState.isAsyncFunction, peeksWord_state hs]
  rfl

theorem isMethodModifier_state (hs : s.source = d.source) :
    (d.state s).isMethodModifier = s.isMethodModifier := by
  rw [ParserState.isMethodModifier, peekChar_state hs]
  rfl

theorem isMemberModifier_state (hs : s.source = d.source) (word : String) :
    (d.state s).isMemberModifier word = s.isMemberModifier word := by
  rw [ParserState.isMemberModifier, peekChar_state hs]
  rfl

theorem lineEndsAfterToken_state (hs : s.source = d.source) :
    (d.state s).lineEndsAfterToken = s.lineEndsAfterToken := by
  rw [ParserState.lineEndsAfterToken, ParserState.lineEndsAfterToken, peekPos_state hs, hs]
  exact congrArg (·.any isLineBreak) d.suffix.slice

theorem arrowFunction?_state (hs : s.source = d.source) :
    (d.state s).arrowFunction? = s.arrowFunction?.map fun found => (d.offset + found.1, found.2) := by
  have harrow (pos : Nat) (isAsync : Bool) :
      (arrowEnd? d.target (d.offset + pos)).map (·, isAsync) =
        ((arrowEnd? d.source pos).map (·, isAsync)).map fun found => (d.offset + found.1, found.2) := by
    rw [Token.arrowEnd?_suffix d.suffix, Option.map_map, Option.map_map]
    rfl
  rw [ParserState.arrowFunction?, ParserState.arrowFunction?, peekPos_state hs, hs]
  change (if s.isWord "async" then
      ((arrowEnd? d.target (d.offset + s.peekPos)).map (·, true)).or
        ((arrowEnd? d.target (d.offset + s.token.start)).map (·, false))
    else if s.kind == .identifier || s.kind == .punct .openParen then
      (arrowEnd? d.target (d.offset + s.token.start)).map (·, false)
    else none) = _
  rw [harrow, harrow]
  split
  · cases arrowEnd? d.source s.peekPos <;> rfl
  · split <;> rfl

end Displacement

end PropContract
