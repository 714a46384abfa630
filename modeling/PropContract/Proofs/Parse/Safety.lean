import PropContract.Proofs.Parse.File
import PropContract.Proofs.Token.Checked

/-!
# Reading never fails

Wherever the parser stands, its offsets are on character boundaries, and the checked lexer gives it what
the lexer does. No loop of the parser is ended by its budget, and reading ends at the end of the text.
-/

namespace PropContract

open Text

/-! ## A text in its own place -/

namespace Displacement

variable (src : Source)

theorem id_identity (i : NodeId) : (identity src).id i = i := Nat.zero_add i

theorem map_id_identity (ids : List NodeId) : ids.map (identity src).id = ids := by
  rw [funext (id_identity src), List.map_id']

theorem child_identity (c : Child) : (identity src).child c = c := by
  rw [child, funext (id_identity src), Option.map_id']

theorem map_child_identity (cs : List Child) : cs.map (identity src).child = cs := by
  rw [funext (child_identity src), List.map_id']

theorem form_identity (form : Form) : (identity src).form form = form := by
  have hid : (identity src).id = fun i => i := funext (id_identity src)
  cases form <;> simp [Displacement.form, Form.renumber, hid]

theorem arena_identity (a : Arena) : (identity src).arena a = a := by
  have hnode : (identity src).node = fun n => n := funext fun n => by
    rw [node, form_identity, funext (id_identity src), Option.map_id']
    exact congrArg₂ (fun start stop => { n with start, stop }) (Nat.zero_add _) (Nat.zero_add _)
  rw [arena, hnode, Array.map_id']
  exact congrArg Arena.mk (Array.empty_append)

theorem state_identity {s : ParserState} (h : s.source = src) : (identity src).state s = s := by
  have htoken : s.lexer.token.moved 0 = s.lexer.token :=
    congrArg₂ (fun start stop => { s.lexer.token with start, stop }) (Nat.zero_add _) (Nat.zero_add _)
  have hlexical : (fun e => LexicalError.moved 0 e) = fun e => e := funext fun e =>
    congrArg (fun start => { e with start }) (Nat.zero_add _)
  have herror : (identity src).error = fun e => e := funext fun e =>
    congrArg (fun start => { e with start }) (Nat.zero_add _)
  have hlexer : ({ s.lexer with source := src } : Lexer) = s.lexer := by rw [← h]; rfl
  change ({ s with
    lexer := { source := src, token := s.lexer.token.moved 0, errors := s.lexer.errors.map (·.moved 0) }
    arena := (identity src).arena s.arena
    errors := s.errors.map (identity src).error
    prevEnd := 0 + s.prevEnd } : ParserState) = s
  rw [htoken, hlexical, List.map_id', arena_identity, herror, List.map_id', Nat.zero_add, hlexer]

end Displacement

/-! ## Offsets -/

namespace ParserState

/-- Whether the offsets at a state are on character boundaries, and the checked lexer gives whatever the
parser may scan or look up there. The looking up may begin anywhere. -/
structure Safe (s : ParserState) : Prop where
  prevEnd : s.source.OnBoundary s.prevEnd
  start : s.source.OnBoundary s.token.start
  stop : s.source.OnBoundary s.token.stop
  ordered : s.prevEnd ≤ s.token.start ∧ s.token.start ≤ s.token.stop ∧ s.token.stop ≤ s.source.size
  lands : ∀ pos, s.Lands pos → s.token.start ≤ pos ∧ pos ≤ s.source.size ∧ s.source.OnBoundary pos
  scan : ∀ pos, pos = s.token.stop ∨ s.Lands pos →
    Token.Checked.scanAt s.source pos = some (Token.scanAt s.source pos)
  rescan : Token.Checked.asRegex s.source s.token = some (s.token.asRegex s.source)
  group : ∀ pos, Token.Checked.groupEnd s.source pos = some (Token.groupEnd s.source pos)
  markup : ∀ pos, Token.Checked.markupEnd s.source pos = some (Token.markupEnd s.source pos)
  trivia : ∀ pos, Token.Checked.skipTrivia s.source pos = some (Token.skipTrivia s.source pos)

theorem Ready.safe {src : Source} {s : ParserState} (h : s.Ready src) : s.Safe := by
  obtain rfl := h.source
  have hlands (pos : Nat) (hpos : s.Lands pos) : s.token.start ≤ pos ∧ s.source.OnBoundary pos :=
    hpos.spec h.token
  exact
  { prevEnd := h.prev
    start := h.token.start
    stop := h.token.stop
    ordered := ⟨h.le, h.token.le, h.token.stop.le⟩
    lands := fun pos hpos => ⟨(hlands pos hpos).1, (hlands pos hpos).2.le, (hlands pos hpos).2⟩
    scan := fun pos hpos => Token.Checked.scanAt_eq <|
      hpos.elim (fun heq => heq ▸ h.token.stop) fun hpos => (hlands pos hpos).2
    rescan := Token.Checked.asRegex_eq h.token.start
    group := Token.Checked.groupEnd_eq s.source
    markup := Token.Checked.markupEnd_eq s.source
    trivia := Token.Checked.skipTrivia_eq s.source }

end ParserState

namespace Parser

open ParserState

variable {α : Type} {s : ParserState}

/-! ## Loops -/

/-- Whether a loop does the same with any two budgets of more steps than the text has bytes left. -/
def Settled (s : ParserState) (loop : Nat → Parser α) : Prop :=
  ∀ n n', s.left s.source < n → s.left s.source < n' → (loop n).run s = (loop n').run s

/-- Whether every loop of the parser that may begin at a state settles there. -/
structure LoopsSettle (s : ParserState) : Prop where
  statements : Settled s fileStatementsIn
  skipped : s.kind ≠ .endOfFile → s.kind ≠ .punct .closeBrace → Settled s (skipStatementIn · true false)
  recovery : Settled s resyncIn
  declarations : Settled s variableDeclarationsIn
  patterns : Settled s bindingIn
  levels : ∀ k, (k = .new → s.kind = .keyword .newWord) → Settled s fun n => expressionIn (6 * n) k
  commas : Settled s fun n => do
    let start ← pos
    commaRest expression start n (← expression .assignment)
  operators : ∀ above, Settled s fun n => do
    let start ← pos
    binaryRest expression above start n (← expression .unary)
  links : ∀ calls, Settled s fun n => do
    let start ← pos
    linksIn expression calls start n (← newOrPrimary expression)
  members : Settled s (classMembersIn expression)
  arguments : Settled s (commaListIn .closeParen (element expression))
  properties : Settled s (commaListIn .closeBrace (objectElement expression))
  elements : Settled s <| holedListIn (do
    let hole ← pos
    next
    return some (← finishHole hole)) (element expression)
  objectPatterns : Settled s (commaListIn .closeBrace (objectPatternElement binding))
  arrayPatterns : Settled s <| holedListIn (do
    let hole ← finish .omitted (← pos)
    next
    return hole) (arrayPatternElement binding)
  imports : Settled s (commaListIn .closeBrace (specifier .importSpecifier))
  exports : Settled s (commaListIn .closeBrace (specifier .exportSpecifier))

section

variable {d : Displacement} (hd : d = .identity s.source)

include hd

/-- In its own place, a loop that runs the same with other budgets settles. -/
theorem Runs.settled {loop : Nat → Parser α} {move : α → α} {post : α → ParserState → Prop}
    (hmove : ∀ x, move x = x) (hpost : ∀ x t, post x t → t.Ready d.source)
    (h : ∀ n n', s.left d.source < n → s.left d.source < n' → Runs d s (loop n) (loop n') move post) :
    Settled s loop := by
  subst hd
  intro n n' hn hn'
  obtain ⟨hafter, hsame⟩ := h n n' hn hn'
  have hsource : ((loop n).run s).2.source = s.source := (hpost _ _ hafter).source
  rw [Displacement.state_identity _ rfl, hmove, Displacement.state_identity _ hsource] at hsame
  exact hsame.symm

theorem Passes.settled {loop : Nat → Parser Unit} {took : Bool}
    (h : ∀ n n', s.left d.source < n → s.left d.source < n' → Passes d took s (loop n) (loop n')) :
    Settled s loop :=
  Runs.settled hd (fun _ => rfl) (fun _ _ ht => ht.ready) h

theorem Reads.settled {loop : Nat → Parser Child}
    (h : ∀ n n', s.left d.source < n → s.left d.source < n' → Reads d s (loop n) (loop n')) :
    Settled s loop :=
  Runs.settled hd (hd ▸ Displacement.child_identity _) (fun _ _ ht => ht.ready) h

theorem Runs.settled_nodes {loop : Nat → Parser (List NodeId)}
    (h : ∀ n n', s.left d.source < n → s.left d.source < n' →
      Runs d s (loop n) (loop n') (List.map d.id) fun xs t => Yields d.source false s (xs.map some) t) :
    Settled s loop :=
  Runs.settled hd (hd ▸ Displacement.map_id_identity _) (fun _ _ ht => ht.ready) h

/-- A list is read the same whatever its items yield. -/
theorem Runs.settled_rows {loop : Nat → Parser (List α)} {move : α → α} {view : α → List Child}
    (hmove : ∀ xs, List.map move xs = xs)
    (h : ∀ n n', s.left d.source < n → s.left d.source < n' →
      Runs d s (loop n) (loop n') (List.map move) fun xs t => Yields d.source false s (xs.flatMap view) t) :
    Settled s loop :=
  Runs.settled hd hmove (fun _ _ ht => ht.ready) h

end

theorem loopsSettle {src : Source} (hs : s.Ready src) : LoopsSettle s := by
  obtain ⟨d, hd⟩ : ∃ d, d = Displacement.identity s.source := ⟨_, rfl⟩
  have hs : s.Ready d.source := by
    rw [hd]
    exact hs.source ▸ hs
  have hp : Parses d (6 * s.left d.source + 5) expression expression := expression_parses d _
  have hids : ∀ ids : List NodeId, ids.map d.id = ids := hd ▸ Displacement.map_id_identity _
  have hchildren : ∀ cs : List Child, cs.map d.child = cs := hd ▸ Displacement.map_child_identity _
  have list {close : Punct} {item : Parser Child}
      (hitem : ∀ t, t.Ready d.source → t.left d.source ≤ s.left d.source → Reads d t item item) :
      Settled s (commaListIn close item) :=
    Runs.settled_rows hd hchildren fun _ _ hn hn' =>
      (commaListIn_runs (fun x => [x]) close (fun _ _ _ _ (h : True) => h)
        (fun t ht hle => (hitem t ht hle).mono fun _ _ hu => ⟨hu, trivial⟩) hs (le_refl _) hn hn').mono
          fun _ _ ht => ht.1
  have nodes {item : Parser NodeId} (hitem : ∀ t, t.Ready d.source → ReadsNode d t item item) :
      Settled s (commaListIn .closeBrace item) :=
    Runs.settled_rows hd hids fun _ _ hn hn' =>
      (commaListIn_runs (fun x => [some x]) .closeBrace (fun _ _ _ _ (h : True) => h)
        (fun t ht _ => (hitem t ht).mono fun _ _ hu => ⟨hu, trivial⟩) hs (le_refl _) hn hn').mono
          fun _ _ ht => ht.1
  exact
  { statements := Runs.settled_nodes hd fun _ _ hn hn' =>
      (fileStatementsIn_runs hs hn hn').mono fun _ _ ht => ht.1
    skipped := fun hfile hbrace => Passes.settled hd fun _ _ hn hn' =>
      skipStatementIn_passes hs hn hn' fun _ => ⟨hfile, hbrace⟩
    recovery := Passes.settled hd fun _ _ hn hn' => resyncIn_passes hs hn hn'
    declarations := Runs.settled_nodes hd fun _ _ hn hn' =>
      (variableDeclarationsIn_runs hs hn hn').mono fun _ _ ht => ht.1
    patterns := Reads.settled hd fun _ _ hn hn' => bindingIn_runs hs hn hn'
    levels := fun k hnew => Reads.settled hd fun n n' hn hn' => by
      have hrank := k.rank_le
      have hparse : Parses d (6 * s.left d.source + 5) (expressionIn (6 * n)) (expressionIn (6 * n')) :=
        expressionIn_parses (by omega) (by omega)
      exact hparse k s hs (by omega) hnew
    commas := Reads.settled hd fun n n' hn hn' => by
      refine .pos (.bind (hp .assignment s hs (Nat.lt_succ_self _) ExpressionKind.noConfusion) fun first t ht => ?_)
      have hle := ht.left_le
      exact commaRest_runs hp ht (by omega) (by omega) (by omega)
    operators := fun above => Reads.settled hd fun n n' hn hn' => by
      have hrank : 6 * s.left d.source + ExpressionKind.unary.rank < 6 * s.left d.source + 5 := by
        rw [ExpressionKind.rank]
        omega
      refine .pos (.bind (hp .unary s hs hrank ExpressionKind.noConfusion) fun first t ht => ?_)
      have hle := ht.left_le
      exact binaryRest_runs hp ht (by omega) (by omega) (by omega)
    links := fun calls => Reads.settled hd fun n n' hn hn' => by
      refine .pos (.bind (newOrPrimary_runs hp hs (by omega)) fun target t ht => ?_)
      have hle := ht.left_le
      exact linksIn_runs hp ht (by omega) (by omega) (by omega)
    members := Runs.settled_nodes hd fun _ _ hn hn' => classMembersIn_runs hp hs (by omega) hn hn'
    arguments := list fun t ht hle => element_runs hp ht (by omega)
    properties := list fun t ht hle => objectElement_runs hp ht (by omega)
    elements := Runs.settled_rows hd hchildren fun _ _ hn hn' => by
      refine holedListIn_runs (fun x => [x]) (fun t ht hcomma => ?_)
        (fun t ht hle => element_runs hp ht (by omega)) hs (le_refl _) hn hn'
      refine .pos (.bind (next_passes ht (hcomma.trans_ne TokenKind.noConfusion)) fun _ u hu => ?_)
      exact .bind (finishHole_runs hu) fun hole v hv => .pure hv rfl
    objectPatterns := nodes fun t ht => objectPatternElement_runs (fun u hu _ => binding_runs hu) ht (le_refl _)
    arrayPatterns := Runs.settled_rows hd hids fun _ _ hn hn' =>
      holedListIn_runs (fun x => [some x]) (fun t ht hcomma => arrayPatternHole_runs ht hcomma)
        (fun t ht _ => arrayPatternElement_runs (fun u hu _ => binding_runs hu) ht (le_refl _)) hs (le_refl _) hn hn'
    imports := nodes fun t ht => .mono (specifier_runs (fun _ _ => rfl) (fun _ _ => rfl)
      (fun _ _ _ _ => trivial) (fun _ _ _ hname => hname) ht) fun _ _ hu => hu.1
    exports := nodes fun t ht => .mono (specifier_runs (fun _ _ => rfl) (fun _ _ => rfl)
      (fun _ _ _ _ => trivial) (fun _ _ _ _ => trivial) ht) fun _ _ hu => hu.1 }

/-- Whether reading a file from a state before its first token is safe: the first scan gives a token,
every state that steps lead to from there is safe and lets all loops settle, and reading takes such steps to
the end of the text. Behind any other text, where every loop may take more steps, it reads the same. -/
structure ReadsSafely (s : ParserState) : Prop where
  first : Token.Checked.scanAt s.source s.token.stop = some (Token.scanAt s.source s.token.stop)
  safe : ∀ t, s.advance.Moves t → t.Safe ∧ LoopsSettle t
  moves : s.advance.Moves (fileStatements.run s).2
  ending : (fileStatements.run s).2.kind = .endOfFile ∧ (fileStatements.run s).2.token.stop = s.source.size
  same : ∀ d : Displacement, d.source = s.source →
    fileStatements.run (d.state s) =
      ((fileStatements.run s).1.map d.id, d.state (fileStatements.run s).2)

/-- Every text is read safely. -/
theorem fileStatements_safe (text : String) : ReadsSafely (initial text) := by
  obtain ⟨hyields, hend⟩ := fileStatements_yields text
  refine ⟨Token.Checked.scanAt_eq (onBoundary_initial text), fun t ht => ?_, hyields.moves, ⟨hend, ?_⟩,
    fun d hd => ?_⟩
  · have hready := (ht.ready (ready_first text)).1
    exact ⟨hready.safe, loopsSettle hready⟩
  · have hstart := hyields.ready.token.atEnd hend
    exact le_antisymm hyields.ready.token.stop.le (hstart.ge.trans hyields.ready.token.le)
  · have hready : (initial text).advance.Ready d.source := hd ▸ ready_first text
    have hnext : Runs d (initial text) next next id fun _ t => t = (initial text).advance :=
      .modify rfl (Displacement.state_advance hd.symm)
    have hrun : Runs d (initial text) fileStatements fileStatements (List.map d.id) fun _ _ => True :=
      hnext.bind fun _ t ht => ht ▸ (fileStatements_runs hready).mono fun _ _ _ => trivial
    exact hrun.same

end Parser

end PropContract
