import PropContract.Proofs.Parse.Heedless
import PropContract.Proofs.Parse.Module
import PropContract.Proofs.Parse.Stray
import PropContract.Proofs.Token.Line

/-!
# Statements that are stepped over

A statement with a condition is stepped over up to its end, and what is behind it is read as if it stood
alone.
-/

namespace PropContract

open Text

namespace ParserState

variable {s : ParserState} {pos : Nat} {token : Token} {errors : List LexicalError}

/-! ## Jumps -/

theorem jump_eq (h : pos ≤ s.source.size) (hscan : Token.scanAt s.source pos = (token, errors)) :
    s.jump pos = { s with
      prevEnd := pos
      lexer := { s.lexer with token, errors := s.lexer.errors ++ errors } } := by
  have hmin : min pos s.lexer.source.size = pos := min_eq_left h
  have hscan : Token.scanAt s.lexer.source pos = (token, errors) := hscan
  simp only [jump, Lexer.resetTo, Lexer.scan, hmin, hscan]

theorem token_jump (h : pos ≤ s.source.size) (hscan : Token.scanAt s.source pos = (token, errors)) :
    (s.jump pos).token = token := by
  rw [jump_eq h hscan]
  rfl

/-- A jump from a token without errors leads where it leads from before the token. -/
theorem jump_jump (h : pos ≤ s.source.size) (hscan : Token.scanAt s.source pos = (token, [])) (stop : Nat) :
    (s.jump pos).jump stop = s.jump stop := by
  rw [jump_eq h hscan, List.append_nil]
  rfl

theorem advance_eq_jump (h : s.token.stop ≤ s.source.size) : s.advance = s.jump s.token.stop := by
  have hmin : min s.token.stop s.lexer.source.size = s.token.stop := min_eq_left h
  rw [advance, jump, Lexer.resetTo, hmin]
  rfl

end ParserState

namespace Parser

open ParserState

variable {s t : ParserState} {src : Source} {pos stop n : Nat} {token : Token} {owes : Bool} {ending : Token.Ending}

/-! ## Stepping over a row -/

theorem run_skipGroup (h : Token.groupEnd s.source s.token.start = some stop) :
    skipGroup.run s = (true, s.jump stop) := by
  rw [skipGroup, Stateful.run_bind, Stateful.run_get]
  simp only [h]
  rfl

/-- What is done at a token in a row. -/
theorem run_skipStatementIn_inLine (h : s.token.InLine) (first goesOn : Bool) :
    (skipStatementIn (n + 1) first goesOn).run s =
      if isOpener s.kind then
        (skipGroup >>= fun closed =>
          if closed then skipStatementIn n false (s.kind == .punct .openParen) else pure ()).run s
      else (skipStatementIn n false s.kind.wantsStatement).run s.advance := by
  obtain ⟨hline, hkind⟩ := h
  change s.kind ∉ _ at hkind
  simp only [List.mem_cons, List.not_mem_nil, or_false, not_or] at hkind
  obtain ⟨hfile, hsemicolon, hopen, hclose⟩ := hkind
  rw [skipStatementIn, Stateful.run_bind, Stateful.run_get]
  simp only [beq_eq_false_iff_ne.mpr hfile, beq_eq_false_iff_ne.mpr hsemicolon, beq_eq_false_iff_ne.mpr hopen,
    beq_eq_false_iff_ne.mpr hclose, hline, Bool.or_self, Bool.and_false, Bool.false_eq_true, if_false]
  split <;> rfl

theorem run_skipStatementIn_token (hline : s.token.InLine) (hopener : isOpener s.kind = false) (first goesOn : Bool) :
    (skipStatementIn (n + 1) first goesOn).run s = (skipStatementIn n false s.kind.wantsStatement).run s.advance := by
  rw [run_skipStatementIn_inLine hline, if_neg (ne_true_of_eq_false hopener)]

theorem run_skipStatementIn_group (hline : s.token.InLine) (hopener : isOpener s.kind = true)
    (hclose : Token.groupEnd s.source s.token.start = some stop) (first goesOn : Bool) :
    (skipStatementIn (n + 1) first goesOn).run s =
      (skipStatementIn n false (s.kind == .punct .openParen)).run (s.jump stop) := by
  rw [run_skipStatementIn_inLine hline, if_pos hopener, Stateful.run_bind, run_skipGroup hclose]
  rfl

theorem run_skipStatementIn_block (hline : s.token.afterLineBreak = false) (hkind : s.kind = .punct .openBrace)
    (hclose : Token.groupEnd s.source s.token.start = some stop) (first goesOn : Bool) :
    (skipStatementIn (n + 1) first goesOn).run s =
      (kind >>= fun k => if k.continuesBlock then skipStatementIn n false false else pure ()).run (s.jump stop) := by
  rw [skipStatementIn, Stateful.run_bind, Stateful.run_get]
  simp only [hkind, hline, Bool.and_false]
  change (skipGroup >>= _).run s = _
  rw [Stateful.run_bind, run_skipGroup hclose]
  rfl

/-- What is still to be done at the end of a row. -/
def afterRow (n : Nat) : Token.Ending → Parser Unit
  | .plain => skipStatementIn n false false
  | .owing => skipStatementIn n false true
  | .block => do if (← kind).continuesBlock then skipStatementIn n false false

/-- Stepping over a row leads to its end. -/
theorem skipStatementIn_line (h : Token.Line src stop pos owes ending) (hs : (s.jump pos).Ready src)
    (hn : (s.jump pos).left src < n) :
    (s.jump stop).Ready src ∧ ∃ m, (s.jump stop).left src < m ∧
      (skipStatementIn n false owes).run (s.jump pos) = (afterRow m ending).run (s.jump stop) := by
  obtain rfl : s.source = src := hs.source
  have close {pos close : Nat} {token : Token} (hs : (s.jump pos).Ready s.source)
      (hscan : Token.scanAt s.source pos = (token, [])) (hclose : Token.groupEnd s.source token.start = some close) :
      (s.jump pos).jump close = s.jump close ∧ (s.jump close).Ready s.source ∧
        (s.jump close).left s.source < (s.jump pos).left s.source := by
    obtain rfl : (s.jump pos).token = token := token_jump hs.prev.le hscan
    have hstart := (Token.opaqueEnd_ends _ _ _ _ close hclose).1
    have htook := hs.jump_took (.group hclose) hstart
    have hnext : (s.jump pos).jump close = s.jump close := jump_jump hs.prev.le hscan close
    exact ⟨hnext, hnext ▸ htook.ready, hnext ▸ htook.left_lt⟩
  induction h generalizing n with
  | plain => exact ⟨hs, n, hn, rfl⟩
  | owing => exact ⟨hs, n, hn, rfl⟩
  | @block pos token owes hscan hline hkind hclose =>
      obtain _ | n := n
      · exact absurd hn (Nat.not_lt_zero _)
      obtain ⟨hnext, hready, hlt⟩ := close hs hscan hclose
      obtain rfl : (s.jump pos).token = token := token_jump hs.prev.le hscan
      refine ⟨hready, n, by omega, ?_⟩
      rw [run_skipStatementIn_block hline hkind hclose, hnext]
      rfl
  | @token pos token owes ending hscan hline hopener _ ih =>
      obtain _ | n := n
      · exact absurd hn (Nat.not_lt_zero _)
      obtain rfl : (s.jump pos).token = token := token_jump hs.prev.le hscan
      have hnext : (s.jump pos).advance = s.jump (s.jump pos).token.stop :=
        (advance_eq_jump hs.token.stop.le).trans (jump_jump hs.prev.le hscan _)
      have hlt := (hs.next_took hline.ne_endOfFile).left_lt
      have hready := hs.advance.1
      rw [run_skipStatementIn_token hline hopener]
      rw [hnext] at hlt hready ⊢
      exact ih hready (by omega)
  | @group pos stop token owes ending hscan hline hopener hclose _ ih =>
      obtain _ | n := n
      · exact absurd hn (Nat.not_lt_zero _)
      obtain ⟨hnext, hready, hlt⟩ := close hs hscan hclose
      obtain rfl : (s.jump pos).token = token := token_jump hs.prev.le hscan
      rw [run_skipStatementIn_group hline hopener hclose, hnext]
      exact ih hready (by omega)

theorem arena_skipGroup : (skipGroup.run s).2.arena = s.arena := by
  rw [skipGroup, Stateful.run_bind, Stateful.run_get]
  cases Token.groupEnd s.source s.token.start with
  | some stop => rfl
  | none =>
      change (s.reportHere .unterminatedBlock [s.kind.label]).arena = _
      rw [reportHere, report]
      split <;> rfl

/-- Stepping over adds no node. -/
theorem arena_skipStatementIn (first goesOn : Bool) :
    ((skipStatementIn n first goesOn).run s).2.arena = s.arena := by
  induction n generalizing s first goesOn with
  | zero => rfl
  | succ n ih =>
      rw [skipStatementIn, Stateful.run_bind, Stateful.run_get]
      dsimp only
      split
      · rfl
      split
      · rfl
      split
      · rfl
      split
      · rw [Stateful.run_bind]
        split
        · rw [Stateful.run_bind]
          split
          · exact (ih _ _).trans arena_skipGroup
          · exact arena_skipGroup
        · exact arena_skipGroup
      split
      · rw [Stateful.run_bind]
        split
        · exact (ih _ _).trans arena_skipGroup
        · exact arena_skipGroup
      · exact ih _ _

/-! ## A statement at the beginning of a file -/

/-- The node of a statement that is stepped over. -/
def skippedNode (stop : Nat) : Node := { start := 0, stop, form := .skippedStatement }

variable {text : String} {k : Keyword}

theorem get?_skippedNode (stop : Nat) :
    ({ nodes := #[skippedNode stop] } : Arena).get? 0 = some (skippedNode stop) := rfl

/-- A first statement that is stepped over is the only node of the text so far. -/
theorem run_statement_skipped (hkind : (initial text).advance.kind = .keyword k) (hk : k.beginsSkipped = true)
    (hstart : (initial text).advance.token.start = 0)
    (hskip : (skipStatementIn (text.utf8ByteSize + 1) true false).run (initial text).advance = (⟨⟩, s)) :
    statement.run (initial text).advance = (some 0, { s with arena := { nodes := #[skippedNode s.prevEnd] } }) := by
  have harena : s.arena = {} := by
    have heq := arena_skipStatementIn (n := text.utf8ByteSize + 1) (s := (initial text).advance) true false
    rwa [hskip] at heq
  have hnode : s.addNode .skippedStatement 0 {} = { s with arena := { nodes := #[skippedNode s.prevEnd] } } := by
    rw [addNode, harena, Nat.max_zero]
    rfl
  have hskipped : skippedStatement.run (initial text).advance =
      (some 0, { s with arena := { nodes := #[skippedNode s.prevEnd] } }) := by
    have hbudget : (initial text).advance.source.size + 1 = text.utf8ByteSize + 1 := rfl
    simp -implicitDefEqProofs only [skippedStatement, Stateful.run_bind, run_pos, run_budget, hbudget, hskip,
      run_finishChild, hstart, hnode, harena]
    rfl
  rw [statement, Stateful.run_bind, Stateful.run_get]
  cases k <;> first
    | exact absurd hk (by decide)
    | simp only [hkind, hk, if_true, hskipped]

/-- A file goes on behind a first statement that is stepped over. -/
theorem run_fileStatements_skipped (hkind : (initial text).advance.kind = .keyword k) (hk : k.beginsSkipped = true)
    (hstart : (initial text).advance.token.start = 0)
    (hskip : (skipStatementIn (text.utf8ByteSize + 1) true false).run (initial text).advance = (⟨⟩, s))
    (herrors : s.errors = []) (hne : s.token.start ≠ 0) :
    fileStatements.run (initial text) =
      let r := (fileStatementsIn text.utf8ByteSize).run
        { s with arena := { nodes := #[skippedNode s.prevEnd] }, quiet := false, depth := 0 }
      (0 :: r.1, r.2) := by
  have hstatement := run_statement_skipped hkind hk hstart hskip
  have hbrace : ((initial text).advance.kind == .punct .closeBrace) = false := by
    rw [hkind]
    rfl
  have hfirst : fileStatement.run (initial text).advance =
      (some 0, { s with arena := { nodes := #[skippedNode s.prevEnd] }, quiet := false, depth := 0 }) := by
    have hmoved : (({ s with arena := { nodes := #[skippedNode s.prevEnd] }, quiet := false, depth := 0 } :
        ParserState).token.start == (initial text).advance.token.start) = false := by
      rw [hstart]
      exact beq_false_of_ne hne
    have herrors : ¬ (initial text).advance.errors.length < s.errors.length := by
      rw [herrors]
      exact Nat.not_lt_zero _
    simp -implicitDefEqProofs only [fileStatement, Stateful.run_bind, Stateful.run_get, hbrace,
      Bool.false_eq_true, if_false, hstatement, herrors, Stateful.run_modify, hmoved, Bool.false_and, Stateful.run_pure]
  have hend : ((initial text).advance.kind == .endOfFile) = false := by
    rw [hkind]
    rfl
  simp -implicitDefEqProofs only [fileStatements, Stateful.run_bind, run_next, run_budget, fileStatementsIn, run_kind, hend,
    Bool.false_eq_true, if_false, hfirst, Stateful.run_pure]
  rfl

end Parser

namespace Displacement

/-- The place of a text behind another one, from which one node is left. -/
def behind (before rest : String) (n : Node) : Displacement :=
  { source := .ofString rest, target := .ofString (before ++ rest), offset := before.utf8ByteSize
    suffix := Source.endsWith_append before rest, nodes := #[n] }

end Displacement

namespace ParserState

/-- Reading begins at the first byte if that is no byte order mark. -/
theorem stop_initial {text : String} (h : text.toList.head? ≠ some '\uFEFF') : (initial text).token.stop = 0 := by
  change (if text.toList.head? == some '\uFEFF' then 3 else 0) = 0
  rw [if_neg (by simpa using h)]

end ParserState

namespace Parser

open ParserState

variable {text line after rest condition body : String} {k : Keyword} {ending : Token.Ending} {c : Char} {cs : List Char}

/-- The word that a text begins with. -/
def wordAt (k : Keyword) : Token :=
  { start := 0, stop := k.spelling.utf8ByteSize, kind := .keyword k, value := k.spelling }

/-- Whether a text is a statement in one line that is stepped over: a word and a row of tokens. -/
structure SkippedLine (k : Keyword) (line : String) (ending : Token.Ending) : Prop where
  begins : k.beginsSkipped = true
  wants : (TokenKind.keyword k).wantsStatement = false
  unmarked : ∀ after, (line ++ after).toList.head? ≠ some '\uFEFF'
  word : Token.scanAt (.ofString line) 0 = (wordAt k, [])
  row : Token.Line (.ofString line) line.utf8ByteSize k.spelling.utf8ByteSize false ending

/-- A statement with a condition is such a line, if what stands under the condition is a row. -/
theorem skippedLine_conditioned (hk : k ∈ Token.conditionWords) (hcondition : Token.Balanced condition)
    (hbody : body ≠ "") (hrow : Token.Line (.ofString body) body.utf8ByteSize 0 true ending) :
    SkippedLine k (Token.conditioned k condition body) ending := by
  have hwords : ∀ k ∈ Token.conditionWords,
      k.beginsSkipped = true ∧ (TokenKind.keyword k).wantsStatement = false ∧
        k.spelling.toList ≠ [] ∧ k.spelling.toList.head? ≠ some '\uFEFF' := by
    decide +kernel
  obtain ⟨hbegins, hwants, hne, hhead⟩ := hwords k hk
  refine ⟨hbegins, hwants, fun after => ?_, Token.scanAt_conditioned hk condition body,
    Token.line_conditioned hcondition hbody hrow k false⟩
  rw [String.toList_append, Token.toList_conditioned, List.append_assoc, List.head?_append_of_ne_nil _ hne]
  exact hhead

theorem advance_initial (h : text.toList.head? ≠ some '\uFEFF') : (initial text).advance = (initial text).jump 0 := by
  rw [advance_eq_jump ((stop_initial h).trans_le (Nat.zero_le _)), stop_initial h]

theorem SkippedLine.pos (h : SkippedLine k line ending) : 0 < line.utf8ByteSize := by
  have hfits := (Token.scanAt_fits (Source.ofString line).onBoundary_zero).1
  rw [h.word] at hfits
  exact (hfits.full nofun).trans_le hfits.stop.le

/-- Where a text goes on behind a line, stepping over leads to the end of the line. -/
theorem SkippedLine.run_skipStatementIn (h : SkippedLine k line ending) (hafter : after.toList = c :: cs)
    (hc : c = ' ' ∨ c = '\n' ∨ c = ';') :
    (initial (line ++ after)).advance.token = wordAt k ∧
      ((initial (line ++ after)).jump line.utf8ByteSize).Ready (.ofString (line ++ after)) ∧
      ∃ m, ((initial (line ++ after)).jump line.utf8ByteSize).left (.ofString (line ++ after)) < m ∧
        (skipStatementIn ((line ++ after).utf8ByteSize + 1) true false).run (initial (line ++ after)).advance =
          (afterRow m ending).run ((initial (line ++ after)).jump line.utf8ByteSize) := by
  have hextends : (Source.ofString (line ++ after)).Extends (.ofString line) c :=
    Source.extends_append hafter (by rcases hc with rfl | rfl | rfl <;> decide)
  have hscan : Token.scanAt (initial (line ++ after)).source 0 = (wordAt k, []) :=
    (Token.scanAt_front hextends hc (by rw [h.word]; exact TokenKind.noConfusion) (by rw [h.word])).trans h.word
  have hadvance := advance_initial (h.unmarked after)
  have htoken : (initial (line ++ after)).advance.token = wordAt k := by
    rw [hadvance, token_jump (Nat.zero_le _) hscan]
  have hready : (initial (line ++ after)).advance.Ready (.ofString (line ++ after)) := ready_first _
  have hlt := (hready.next_took (by rw [ParserState.kind, htoken]; exact TokenKind.noConfusion)).left_lt
  have hnext : (initial (line ++ after)).advance.advance = (initial (line ++ after)).jump k.spelling.utf8ByteSize := by
    rw [advance_eq_jump hready.token.stop.le, htoken, hadvance, jump_jump (Nat.zero_le _) hscan]
    rfl
  have hstep : (skipStatementIn ((line ++ after).utf8ByteSize + 1) true false).run (initial (line ++ after)).advance =
      (skipStatementIn (line ++ after).utf8ByteSize false false).run
        ((initial (line ++ after)).jump k.spelling.utf8ByteSize) := by
    rw [run_skipStatementIn_inLine (htoken ▸ ⟨rfl, by simp [wordAt]⟩), hnext, ParserState.kind, htoken]
    change (if false = true then _ else (skipStatementIn _ false (TokenKind.keyword k).wantsStatement).run _) = _
    rw [h.wants]
    rfl
  have hnextReady := hready.advance.1
  rw [hnext] at hlt hnextReady
  obtain ⟨hend, m, hm, hrun⟩ :=
    skipStatementIn_line (h.row.front hextends hc) hnextReady (hlt.trans_le (Nat.sub_le _ _))
  exact ⟨htoken, hend, m, hm, hstep.trans hrun⟩

/-! ## What stands behind the statement -/

/-- Behind a line, the first token of a text is the one that stands there. -/
theorem state_behind (stop : Nat) (h : rest.toList.head? ≠ some '\uFEFF') :
    (Displacement.behind line rest (skippedNode stop)).state (initial rest).advance =
      { (initial (line ++ rest)).jump line.utf8ByteSize with arena := { nodes := #[skippedNode stop] } } := by
  have hle : line.utf8ByteSize ≤ (initial (line ++ rest)).source.size := (Source.endsWith_append line rest).le
  have harena : (Displacement.behind line rest (skippedNode stop)).arena {} = { nodes := #[skippedNode stop] } :=
    congrArg Arena.mk (by rw [Array.map_empty]; exact Array.append_empty)
  cases hfirst : Token.scanAt (.ofString rest) 0 with
  | mk token errors =>
      have hmoved : Token.scanAt (initial (line ++ rest)).source (line.utf8ByteSize + 0) =
          (token.moved line.utf8ByteSize, errors.map (·.moved line.utf8ByteSize)) := by
        rw [source_initial, Token.scanAt_suffix (Source.endsWith_append line rest), hfirst]
      rw [advance_initial h, jump_eq (s := initial rest) (Nat.zero_le _) hfirst, jump_eq hle hmoved, ← harena]
      rfl

/-- What stands behind a line. -/
theorem rest_append (line : String) (hafter : after.toList = c :: cs) :
    (Source.ofString (line ++ after)).Rest line.utf8ByteSize (c :: cs) := by
  have hzero := (Source.ofString (line ++ after)).rest_zero
  have htext : (Source.ofString (line ++ after)).text.toList = line.toList ++ c :: cs :=
    String.toList_append.trans (hafter ▸ rfl)
  rw [htext] at hzero
  rw [← Source.width_toList, ← Nat.zero_add (width _)]
  exact hzero.drop

/-- Behind a line feed, the token is the same one on a new line. -/
theorem jump_lineFeed (line rest : String) :
    (initial (line ++ "\n" ++ rest)).jump line.utf8ByteSize =
      ((initial (line ++ "\n" ++ rest)).jump (line ++ "\n").utf8ByteSize).behind line.utf8ByteSize true := by
  have hends := Source.endsWith_append line ("\n" ++ rest)
  have hrest := rest_append line (show ("\n" ++ rest).toList = '\n' :: rest.toList by rw [String.toList_append]; rfl)
  rw [← String.append_assoc] at hends hrest
  have hsize : (line ++ "\n").utf8ByteSize = line.utf8ByteSize + 1 := String.utf8ByteSize_append
  have hscan : Token.scanAt (initial (line ++ "\n" ++ rest)).source line.utf8ByteSize = _ :=
    Token.scanAt_lineFeed hrest
  have hnext := (Source.endsWith_append (line ++ "\n") rest).le
  rw [hsize] at hnext ⊢
  rw [jump_eq hends.le hscan, jump_eq hnext rfl]
  rfl

/-- Reading goes on behind a line as it does in the text that stands there. -/
theorem fileStatementsIn_behind {n stop : Nat} (hn : rest.utf8ByteSize < n) :
    (fileStatementsIn n).run
        ((Displacement.behind line rest (skippedNode stop)).state (initial rest).advance) =
      ((fileStatements.run (initial rest)).1.map (Displacement.behind line rest (skippedNode stop)).id,
        (Displacement.behind line rest (skippedNode stop)).state (fileStatements.run (initial rest)).2) := by
  have hle : (initial rest).advance.left (.ofString rest) ≤ rest.utf8ByteSize := Nat.sub_le _ _
  exact (fileStatementsIn_runs (d := .behind line rest (skippedNode stop)) (ready_first rest)
    (Nat.lt_succ_of_le hle) (hle.trans_lt hn)).same

/-- Behind a line feed, reading would go on as it does in the text that stands there, if that were not behind
a line break. -/
theorem jump_lineFeed_eq (hrest : rest.toList.head? ≠ some '\uFEFF') (stop : Nat) :
    { (initial (line ++ "\n" ++ rest)).jump line.utf8ByteSize with arena := { nodes := #[skippedNode stop] } } =
      ((Displacement.behind (line ++ "\n") rest (skippedNode stop)).state (initial rest).advance).behind
        line.utf8ByteSize true := by
  rw [state_behind _ hrest, jump_lineFeed]
  rfl

variable {s : ParserState} {n : Nat}

/-- A row is over at a declaration or a name on a new line, unless a statement is still to come. -/
theorem afterRow_stops (hending : ending ≠ .owing) (hn : 0 < n) (hline : s.token.afterLineBreak = true)
    (hbegins : BeginsStatement s) : (afterRow n ending).run s = (⟨⟩, s) := by
  have hsemicolon : (s.kind == .punct .semicolon) = false := beq_false_of_ne fun heq => by
    rw [BeginsStatement, heq] at hbegins
    exact absurd hbegins (by decide)
  cases ending with
  | plain =>
      obtain _ | n := n
      · exact absurd hn (Nat.lt_irrefl 0)
      rw [afterRow, skipStatementIn, Stateful.run_bind, Stateful.run_get]
      simp only [hline, hsemicolon]
      split <;> rfl
  | owing => exact absurd rfl hending
  | block =>
      have hblock : s.kind.continuesBlock = false := by
        simp only [BeginsStatement, List.mem_cons, List.not_mem_nil, or_false] at hbegins
        rcases hbegins with h | h | h | h | h | h | h | h <;> rw [h] <;> rfl
      change (if s.kind.continuesBlock then skipStatementIn n false false else pure ()).run s = _
      rw [hblock]
      rfl

/-- A semicolon ends a row, unless a block has ended it before. -/
theorem afterRow_semicolon (hending : ending ≠ .block) (hn : 0 < n) (hkind : s.kind = .punct .semicolon) :
    (afterRow n ending).run s = (⟨⟩, s.advance) := by
  obtain _ | n := n
  · exact absurd hn (Nat.lt_irrefl 0)
  cases ending with
  | block => exact absurd rfl hending
  | _ =>
      rw [afterRow, skipStatementIn, Stateful.run_bind, Stateful.run_get]
      simp only [hkind]
      rfl

/-- Where a statement is still to come, a declaration or a name is stepped over too. -/
theorem afterRow_owing (hbegins : BeginsStatement s) :
    (afterRow (n + 1) .owing).run s = (skipStatementIn n false s.kind.wantsStatement).run s.advance := by
  rw [afterRow, skipStatementIn, Stateful.run_bind, Stateful.run_get]
  simp only [BeginsStatement, List.mem_cons, List.not_mem_nil, or_false] at hbegins
  rcases hbegins with h | h | h | h | h | h | h | h <;> simp only [h] <;> rfl

/-- What is known of a line with a line feed and a declaration or a name behind it. -/
theorem SkippedLine.run_lineFeed (h : SkippedLine k line ending) (hrest : rest.toList.head? ≠ some '\uFEFF')
    (hbegins : BeginsStatement (initial rest).advance) :
    (initial (line ++ "\n" ++ rest)).advance.token = wordAt k ∧
      ((initial (line ++ "\n" ++ rest)).jump line.utf8ByteSize).Ready (.ofString (line ++ "\n" ++ rest)) ∧
      ((initial (line ++ "\n" ++ rest)).jump line.utf8ByteSize).token.afterLineBreak = true ∧
      BeginsStatement ((initial (line ++ "\n" ++ rest)).jump line.utf8ByteSize) ∧
      ∃ m, ((initial (line ++ "\n" ++ rest)).jump line.utf8ByteSize).left (.ofString (line ++ "\n" ++ rest)) < m ∧
        (skipStatementIn ((line ++ "\n" ++ rest).utf8ByteSize + 1) true false).run
            (initial (line ++ "\n" ++ rest)).advance =
          (afterRow m ending).run ((initial (line ++ "\n" ++ rest)).jump line.utf8ByteSize) := by
  have hafter : ("\n" ++ rest).toList = '\n' :: rest.toList := by
    rw [String.toList_append]
    rfl
  obtain ⟨hword, hready, hrun⟩ := h.run_skipStatementIn hafter (.inr (.inl rfl))
  rw [← String.append_assoc] at hword hready hrun
  have hbehind : { (initial (line ++ "\n" ++ rest)).jump line.utf8ByteSize with
      arena := { nodes := #[skippedNode 0] } } = _ := jump_lineFeed_eq hrest 0
  refine ⟨hword, hready, ?_, ?_, hrun⟩
  · have heq := congrArg (fun s : ParserState => s.token.afterLineBreak) hbehind
    exact heq
  · have heq := congrArg ParserState.kind hbehind
    have hkind : ((initial (line ++ "\n" ++ rest)).jump line.utf8ByteSize).kind = (initial rest).advance.kind := heq
    rw [BeginsStatement, hkind]
    exact hbegins

end Parser

namespace Module

open ParserState PropContract.Parser

variable {fileName line rest : String} {k : Keyword} {ending : Token.Ending}

/-- Whether a module is another one behind a statement that is stepped over and ends at `stop`. -/
structure Follows (m : Module) (stop : Nat) (d : Displacement) (rest : Module) : Prop where
  errors : m.errors = rest.errors.map d.error
  root : m.root = d.id rest.root
  statements : m.statements = 0 :: rest.statements.map d.id
  skipped : m.arena.get? 0 = some { skippedNode stop with parent := some m.root }
  nodes : ∀ id < rest.root, m.arena.get? (d.id id) = (rest.arena.get? id).map d.node

theorem map_ofLexical (d : Displacement) (es : List LexicalError) :
    (es.map (·.moved d.offset)).map SyntaxError.ofLexical = (es.map SyntaxError.ofLexical).map d.error := by
  rw [List.map_map, List.map_map]
  rfl

theorem follows_of_run {fileName before rest : String} {stop : Nat} {ids : List NodeId} {s : ParserState}
    (hrest : fileStatements.run (initial rest) = (ids, s))
    (hrun : fileStatements.run (initial (before ++ rest)) =
      (0 :: ids.map (Displacement.behind before rest (skippedNode stop)).id,
        (Displacement.behind before rest (skippedNode stop)).state s)) :
    (Module.parse fileName (before ++ rest)).Follows stop (.behind before rest (skippedNode stop))
      (Module.parse fileName rest) := by
  generalize hd : Displacement.behind before rest (skippedNode stop) = d at hrun ⊢
  have hnodes : d.nodes = #[skippedNode stop] := by rw [← hd]; rfl
  rw [parse_eq fileName rest hrest, parse_eq fileName _ hrun]
  have hsize : (d.state s).arena.size = d.id s.arena.size := d.size_arena s.arena
  refine ⟨?_, hsize, ?_, ?_, fun id hid => ?_⟩
  · rw [List.map_mergeSort (s := fun a b => decide (a.start ≤ b.start)) fun a _ b _ => ?_]
    · simp only [Displacement.state, List.map_append, List.map_reverse, map_ofLexical]
    · simp [Displacement.error]
  · simp [Module.statements, Arena.statements, Arena.form?, Arena.get?_add]
  · have hlarger : ¬ 0 = (d.state s).arena.size := by
      rw [hsize, Displacement.id, hnodes]
      exact Nat.ne_of_lt (Nat.lt_add_right _ Nat.one_pos)
    have hfirst : (d.state s).arena.get? 0 = some (skippedNode stop) := by
      change (d.nodes ++ _)[0]? = _
      rw [hnodes, Array.getElem?_append_left (by exact Nat.one_pos)]
      rfl
    have hchild : some 0 ∈ (Form.sourceFile (0 :: ids.map d.id) fileName).children := List.mem_cons_self
    rw [Arena.get?_add, if_neg hlarger, if_pos hchild, hfirst]
    rfl
  · have hlarger : ¬ d.id id = (d.arena s.arena).size := by
      rw [d.size_arena, Displacement.id, Displacement.id, Nat.add_left_cancel_iff]
      exact Nat.ne_of_lt hid
    have hchild : some (d.id id) ∈ (Form.sourceFile (0 :: ids.map d.id) fileName).children ↔
        some (d.id id) ∈ (Form.sourceFile (ids.map d.id) fileName).children := by
      have hne : d.id id ≠ 0 := by
        rw [Displacement.id, hnodes]
        exact Nat.ne_of_gt (Nat.lt_add_right _ Nat.one_pos)
      simp [Form.children, hne]
    rw [← d.get?_arena, d.add_arena]
    change ((d.arena s.arena).add _).get? (d.id id) = _
    rw [Arena.get?_add, Arena.get?_add, if_neg hlarger, if_neg hlarger]
    exact if_congr hchild rfl rfl

/-- A module follows a statement if reading goes on behind it as it does in the text that stands there. -/
theorem follows_of_skip {before : String} {pos : Nat} (hbefore : 0 < before.utf8ByteSize) (hpos : 0 < pos)
    (hk : k.beginsSkipped = true) (hword : (initial (before ++ rest)).advance.token = wordAt k)
    (hready : ((initial (before ++ rest)).jump pos).Ready (.ofString (before ++ rest)))
    (hskip : (skipStatementIn ((before ++ rest).utf8ByteSize + 1) true false).run (initial (before ++ rest)).advance =
      (⟨⟩, (initial (before ++ rest)).jump pos))
    (hnext : (fileStatementsIn (before ++ rest).utf8ByteSize).run
        { (initial (before ++ rest)).jump pos with arena := { nodes := #[skippedNode pos] } } =
      (fileStatementsIn (before ++ rest).utf8ByteSize).run
        ((Displacement.behind before rest (skippedNode pos)).state (initial rest).advance)) :
    (Module.parse fileName (before ++ rest)).Follows pos (.behind before rest (skippedNode pos))
      (Module.parse fileName rest) := by
  have hstart : ((initial (before ++ rest)).jump pos).token.start ≠ 0 :=
    Nat.ne_of_gt (hpos.trans_le hready.le)
  have hsize : rest.utf8ByteSize < (before ++ rest).utf8ByteSize := by
    rw [String.utf8ByteSize_append]
    omega
  have hrun := run_fileStatements_skipped (congrArg Token.kind hword) hk (congrArg Token.start hword) hskip rfl hstart
  exact follows_of_run rfl <|
    hrun.trans (congrArg (fun r => (0 :: r.1, r.2)) (hnext.trans (fileStatementsIn_behind hsize)))

/-- On a new line, a text that begins with a declaration or a name is read as if it stood alone. -/
theorem follows_lineFeed (h : SkippedLine k line ending) (hending : ending ≠ .owing)
    (hrest : rest.toList.head? ≠ some '\uFEFF') (hbegins : BeginsStatement (initial rest).advance) :
    (Module.parse fileName (line ++ "\n" ++ rest)).Follows line.utf8ByteSize
      (.behind (line ++ "\n") rest (skippedNode line.utf8ByteSize)) (Module.parse fileName rest) := by
  obtain ⟨hword, hready, hline, hhere, m, hm, hskip⟩ := h.run_lineFeed hrest hbegins
  rw [afterRow_stops hending (Nat.zero_lt_of_lt hm) hline hhere] at hskip
  have hbefore : 0 < (line ++ "\n").utf8ByteSize := by
    rw [String.utf8ByteSize_append]
    exact Nat.add_pos_left h.pos _
  have hsize : (line ++ "\n" ++ rest).utf8ByteSize = line.utf8ByteSize + rest.utf8ByteSize + 1 := by
    rw [String.utf8ByteSize_append, String.utf8ByteSize_append, Nat.add_right_comm]
    rfl
  have hmoved : BeginsStatement ((Displacement.behind (line ++ "\n") rest (skippedNode line.utf8ByteSize)).state
      (initial rest).advance) := hbegins
  refine follows_of_skip hbefore h.pos h.begins hword hready hskip ?_
  rw [jump_lineFeed_eq hrest, hsize]
  exact fileStatementsIn_heedless hmoved (show 0 + 1 < maxExpressionDepth by decide) _ _ _

/-- Where a statement is still to come, the statement does not end where the line does. -/
theorem not_follows_lineFeed (h : SkippedLine k line .owing) (hrest : rest.toList.head? ≠ some '\uFEFF')
    (hbegins : BeginsStatement (initial rest).advance) {d : Displacement} {m : Module} :
    ¬ (Module.parse fileName (line ++ "\n" ++ rest)).Follows line.utf8ByteSize d m := by
  obtain ⟨hword, hready, hline, hhere, m, hm, hskip⟩ := h.run_lineFeed hrest hbegins
  obtain _ | m := m
  · exact absurd hm (Nat.not_lt_zero _)
  rw [afterRow_owing hhere] at hskip
  have hprev : ((initial (line ++ "\n" ++ rest)).jump line.utf8ByteSize).prevEnd = line.utf8ByteSize := rfl
  generalize (initial (line ++ "\n" ++ rest)).jump line.utf8ByteSize = u at hready hhere hm hskip hprev
  have hfile : u.kind ≠ .endOfFile := fun heq => by
    rw [BeginsStatement, heq] at hhere
    exact absurd hhere (by decide)
  have hnext := hready.next_took hfile
  have hleft : u.advance.left (.ofString (line ++ "\n" ++ rest)) < m :=
    hnext.left_lt.trans_le (Nat.le_of_lt_succ hm)
  have hpasses : Passes (.identity (.ofString (line ++ "\n" ++ rest))) false u.advance
      (skipStatementIn m false u.kind.wantsStatement) (skipStatementIn m false u.kind.wantsStatement) :=
    skipStatementIn_passes hnext.ready hleft hleft Bool.noConfusion
  have hlt : line.utf8ByteSize < ((skipStatementIn m false u.kind.wantsStatement).run u.advance).2.prevEnd := by
    rw [← hprev]
    exact (hready.le.trans_lt (hready.token.full hfile)).trans_le hpasses.after.onward.prevEnd
  have hkind : (initial (line ++ "\n" ++ rest)).advance.kind = .keyword k := congrArg Token.kind hword
  have hmoves := fileStatements_moves (by rw [hkind]; exact TokenKind.noConfusion)
    (by rw [hkind]; exact TokenKind.noConfusion)
  rw [run_statement_skipped hkind h.begins (congrArg Token.start hword) hskip] at hmoves
  intro hfollows
  have hskipped := hfollows.skipped
  rw [parse_eq fileName _ rfl] at hskipped
  obtain ⟨parent, hnode⟩ := hmoves.exists_get? (get?_skippedNode _)
  obtain ⟨parent, hnode⟩ := Arena.exists_get?_add hnode
  have hstop := congrArg (Option.map Node.stop) (hnode.symm.trans hskipped)
  exact absurd (Option.some.inj hstop) (Nat.ne_of_gt hlt)

/-- Behind a semicolon, any text is read as if it stood alone. -/
theorem follows_semicolon (h : SkippedLine k line ending) (hending : ending ≠ .block)
    (hrest : rest.toList.head? ≠ some '\uFEFF') :
    (Module.parse fileName (line ++ ";" ++ rest)).Follows (line ++ ";").utf8ByteSize
      (.behind (line ++ ";") rest (skippedNode (line ++ ";").utf8ByteSize)) (Module.parse fileName rest) := by
  have hafter : (";" ++ rest).toList = ';' :: rest.toList := by
    rw [String.toList_append]
    rfl
  obtain ⟨hword, hready, m, hm, hskip⟩ := h.run_skipStatementIn hafter (.inr (.inr rfl))
  have hends := Source.endsWith_append line (";" ++ rest)
  have hscan : Token.scanAt (initial (line ++ (";" ++ rest))).source line.utf8ByteSize =
      ({ start := line.utf8ByteSize, stop := line.utf8ByteSize + 1, kind := .punct .semicolon }, []) :=
    Piece.scanAt_eq (q := .double) (p := .mark .semicolon) (show Punct.semicolon ∈ Piece.marks by decide) trivial
      (rest_append line hafter)
  rw [← String.append_assoc] at hword hready hm hskip hends hscan
  have hsize : (line ++ ";").utf8ByteSize = line.utf8ByteSize + 1 := String.utf8ByteSize_append
  have htoken : ((initial (line ++ ";" ++ rest)).jump line.utf8ByteSize).token =
      { start := line.utf8ByteSize, stop := line.utf8ByteSize + 1, kind := .punct .semicolon } :=
    token_jump hends.le hscan
  have hnext : ((initial (line ++ ";" ++ rest)).jump line.utf8ByteSize).advance =
      (initial (line ++ ";" ++ rest)).jump (line ++ ";").utf8ByteSize := by
    rw [advance_eq_jump hready.token.stop.le, htoken, jump_jump hends.le hscan, hsize]
  rw [afterRow_semicolon hending (Nat.zero_lt_of_lt hm) (congrArg Token.kind htoken), hnext] at hskip
  have hpos : 0 < (line ++ ";").utf8ByteSize := hsize ▸ Nat.succ_pos _
  refine follows_of_skip hpos hpos h.begins hword (hnext ▸ hready.advance.1) hskip ?_
  rw [state_behind _ hrest]

theorem head?_else (e : String) : (" else " ++ e).toList.head? ≠ some '\uFEFF' := by
  rw [String.toList_append, List.head?_append_of_ne_nil _ (by decide)]
  decide

/-- An `else` behind a semicolon is a stray word. -/
theorem atStray_else (e : String) : AtStray (initial (" else " ++ e)).advance := by
  have hword : Token.scanAt (.ofString " else") 0 =
      ({ start := 1, stop := 5, kind := .keyword .elseWord, value := "else" }, []) := by
    decide +kernel
  have hblank : (" " ++ e).toList = ' ' :: e.toList := by
    rw [String.toList_append]
    rfl
  have htext : " else " ++ e = " else" ++ (" " ++ e) := by
    rw [← String.append_assoc]
    rfl
  have hscan : Token.scanAt (initial (" else " ++ e)).source 0 =
      ({ start := 1, stop := 5, kind := .keyword .elseWord, value := "else" }, []) := by
    rw [source_initial, htext, Token.scanAt_front (Source.extends_append hblank (by decide)) (.inl rfl)
      (by rw [hword]; nofun) (by rw [hword]), hword]
  refine ⟨.elseWord, by decide, ?_⟩
  rw [ParserState.kind, advance_initial (head?_else e), token_jump (Nat.zero_le _) hscan]

/-- A statement with a condition that is a row of tokens ends where its line does, exactly if no statement is
still to come behind the last token: then a text that begins with a declaration or a name on the next line is
read as if it stood alone. Behind a semicolon any text is, but an `else` there is an error. -/
theorem parse_conditioned (fileName : String) {condition body : String} (hk : k ∈ Token.conditionWords)
    (hcondition : Token.Balanced condition) (hbody : body ≠ "")
    (hrow : Token.Line (.ofString body) body.utf8ByteSize 0 true ending) :
    let line := Token.conditioned k condition body
    (∀ rest : String, rest.toList.head? ≠ some '\uFEFF' → BeginsStatement (initial rest).advance →
      ((Module.parse fileName (line ++ "\n" ++ rest)).Follows line.utf8ByteSize
          (.behind (line ++ "\n") rest (skippedNode line.utf8ByteSize)) (Module.parse fileName rest) ↔
        ending ≠ .owing)) ∧
    (ending ≠ .block → ∀ rest : String, rest.toList.head? ≠ some '\uFEFF' →
      (Module.parse fileName (line ++ ";" ++ rest)).Follows (line ++ ";").utf8ByteSize
        (.behind (line ++ ";") rest (skippedNode (line ++ ";").utf8ByteSize)) (Module.parse fileName rest)) ∧
    (ending ≠ .block → ∀ e : String, (Module.parse fileName (line ++ ";" ++ (" else " ++ e))).errors ≠ []) := by
  intro line
  have hline : SkippedLine k line ending := skippedLine_conditioned hk hcondition hbody hrow
  refine ⟨fun rest hrest hbegins => ⟨fun hfollows hending => ?_, fun hending => ?_⟩, fun hending rest hrest => ?_,
    fun hending e herrors => ?_⟩
  · subst hending
    exact not_follows_lineFeed hline hrest hbegins hfollows
  · exact follows_lineFeed hline hending hrest hbegins
  · exact follows_semicolon hline hending hrest
  · have hfollows : (Module.parse fileName (line ++ ";" ++ (" else " ++ e))).Follows _ _ (Module.parse fileName _) :=
      follows_semicolon hline hending (head?_else e)
    rw [hfollows.errors, List.map_eq_nil_iff] at herrors
    exact errors_ne_nil_of_stray fileName (atStray_else e) herrors

theorem parse_conditioned_export :
    Token.Balanced "c" ∧ Token.Line (.ofString "b") 1 0 true .plain ∧
      BeginsStatement (initial "export default A").advance ∧
      (Module.parse "a.js" (Token.conditioned .ifWord "c" "b" ++ "\n" ++ "export default A")).Follows 8
        (.behind (Token.conditioned .ifWord "c" "b" ++ "\n") "export default A" (skippedNode 8))
        (Module.parse "a.js" "export default A") := by
  have hcondition : Token.Balanced "c" := by decide +kernel
  have hscan : Token.scanAt (.ofString "b") 0 = ({ start := 0, stop := 1, kind := .identifier, value := "b" }, []) := by
    decide +kernel
  have hrow : Token.Line (.ofString "b") 1 0 true .plain := .token hscan ⟨rfl, by decide⟩ rfl .plain
  have hbegins : BeginsStatement (initial "export default A").advance := by
    rw [BeginsStatement]
    decide +kernel
  have h := (parse_conditioned "a.js" (k := .ifWord) (by decide) hcondition (by decide) hrow).1
  exact ⟨hcondition, hrow, hbegins, (h "export default A" (by decide +kernel) hbegins).mpr (by decide)⟩

/-- Behind a call the statement on the next line is stepped over too, and an `else` behind a semicolon is an
error. -/
theorem parse_conditioned_call :
    (Module.parse "a.js" "f()").errors = [] ∧ (Module.parse "a.js" "export default A").errors = [] ∧
      (Module.parse "a.js" "if (c) f()\nexport default A").statements = [0] ∧
      ((Module.parse "a.js" "if (c) f()\nexport default A").arena.get? 0).map (·.stop) = some 27 ∧
      (Module.parse "a.js" "b").errors = [] ∧ (Module.parse "a.js" "c").errors = [] ∧
      (Module.parse "a.js" "if (a) b; else c;").errors ≠ [] := by
  refine ⟨?_, ?_, ?_, ?_, ?_, ?_, ?_⟩ <;> decide +kernel

end Module

end PropContract
