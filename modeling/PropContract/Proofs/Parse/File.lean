import PropContract.Proofs.Parse.Runs.Statement

/-!
# Reading a file

Reading begins before the first token and goes on to the end of the text.
-/

namespace PropContract

open Text

namespace ParserState

/-- The state in which a text is read, before its first token. -/
def initial (text : String) : ParserState := { lexer := Lexer.ofString text }

variable (text : String)

theorem source_initial : (initial text).source = Source.ofString text := rfl

/-- Reading begins past a byte order mark. -/
theorem onBoundary_initial : (Source.ofString text).OnBoundary (initial text).token.stop := by
  change (Source.ofString text).OnBoundary (if text.toList.head? == some '\uFEFF' then 3 else 0)
  split
  · rename_i hmark
    obtain ⟨cs, hcs⟩ : ∃ cs, text.toList = '\uFEFF' :: cs := by
      cases hlist : text.toList with
      | nil =>
          rw [hlist] at hmark
          exact nomatch hmark
      | cons c cs =>
          rw [hlist] at hmark
          exact ⟨cs, congrArg (· :: cs) (Option.some.inj (eq_of_beq hmark))⟩
    have hrest : (Source.ofString text).Rest 0 (['\uFEFF'] ++ cs) := by
      rw [List.singleton_append, ← hcs]
      exact Source.rest_zero _
    exact ⟨cs, hrest.drop⟩
  · exact Source.onBoundary_zero _

/-- The first scan gives a token, with nothing read yet. -/
theorem ready_first : (initial text).advance.Ready (Source.ofString text) := by
  obtain ⟨hfits, hge, hspelled⟩ := Token.scanAt_fits (onBoundary_initial text)
  have hnumbered := Token.scanAt_numbered (onBoundary_initial text)
  exact ⟨rfl, hfits, onBoundary_initial text, hge, hnumbered, fun hnil => hspelled hnil, nofun⟩

/-- The first scan leaves nothing but its errors behind. -/
theorem placed_first : (initial text).advance.Placed (Source.ofString text) :=
  Placed.advance ⟨Arena.bounded_empty _, nofun, nofun⟩ rfl
    (onBoundary_initial text)

end ParserState

namespace Parser

open ParserState

variable {text : String} {s t : ParserState} {d : Displacement}

/-- Reading a file agrees in both places, from the first token on. -/
theorem fileStatements_runs (hs : s.Ready d.source) :
    Runs d s (budget >>= fileStatementsIn) (budget >>= fileStatementsIn) (List.map d.id) fun xs t =>
      Yields d.source false s (xs.map some) t ∧ t.kind = .endOfFile :=
  .budget hs fun _ _ hn hn' => fileStatementsIn_runs hs hn hn'

/-- What reading a file leaves behind: its statements, without a parent, and the parser at the end of the
text. -/
theorem fileStatements_yields (text : String) :
    Yields (Source.ofString text) false (initial text).advance
        ((fileStatements.run (initial text)).1.map some) (fileStatements.run (initial text)).2 ∧
      (fileStatements.run (initial text)).2.kind = .endOfFile :=
  (fileStatements_runs (d := .identity (.ofString text)) (ready_first text)).after

/-- What is done after a statement. -/
theorem fileStatement_moves {src : Source} (hs : s.Ready src) (hbrace : s.kind ≠ .punct .closeBrace) :
    (statement.run s).2.Moves (fileStatement.run s).2 := by
  obtain ⟨d, rfl⟩ : ∃ d : Displacement, d.source = src := ⟨.identity src, rfl⟩
  have hresync := (resync_passes (statement_runs hs).after.ready).after.moves
  have htail (t : ParserState) (x : Child) :
      t.Moves ((modify (fun t => { t with quiet := false, depth := 0 }) >>= fun _ => get >>= fun u =>
        if u.token.start == s.token.start && u.kind != .endOfFile then next >>= fun _ => Pure.pure x else Pure.pure x :
          Parser Child).run t).2 := by
    have hreset : t.Moves { t with quiet := false, depth := 0 } := .single (.reset t)
    rw [Stateful.run_bind, Stateful.run_modify, Stateful.run_bind, Stateful.run_get]
    simp only
    split
    · exact hreset.tail (.advance _)
    · exact hreset
  rw [fileStatement, Stateful.run_bind, Stateful.run_get]
  simp only [beq_false_of_ne hbrace]
  rw [if_neg Bool.false_ne_true, Stateful.run_bind, Stateful.run_bind, Stateful.run_get]
  simp only
  split
  · exact hresync.trans (htail _ _)
  · exact htail _ _

/-- What is done after the first statement of a file. -/
theorem fileStatements_moves {text : String} (hfile : (initial text).advance.kind ≠ .endOfFile)
    (hbrace : (initial text).advance.kind ≠ .punct .closeBrace) :
    (statement.run (initial text).advance).2.Moves (fileStatements.run (initial text)).2 := by
  have hs := ready_first text
  have hfirst := (fileStatement_runs (d := .identity (.ofString text)) hs hfile).after
  have hle : (initial text).advance.left (.ofString text) ≤ text.utf8ByteSize := Nat.sub_le _ _
  have hrest := (fileStatementsIn_runs (d := .identity (.ofString text)) (n := text.utf8ByteSize) hfirst.1.ready
    (hfirst.2.trans_le hle) (hfirst.2.trans_le hle)).after.1.moves
  have hrun : (fileStatements.run (initial text)).2 =
      ((fileStatementsIn text.utf8ByteSize).run (fileStatement.run (initial text).advance).2).2 := by
    change ((fileStatementsIn (text.utf8ByteSize + 1)).run (initial text).advance).2 = _
    rw [fileStatementsIn, Stateful.run_bind]
    change ((if (initial text).advance.kind == .endOfFile then _ else _ : Parser (List NodeId)).run _).2 = _
    rw [beq_false_of_ne hfile, if_neg Bool.false_ne_true]
    rfl
  rw [hrun]
  exact (fileStatement_moves hs hbrace).trans hrest

end Parser

namespace Module

open ParserState

variable (fileName text : String)

/-- A module from what reading its file leaves behind. -/
theorem parse_eq {statements : List NodeId} {s : ParserState}
    (h : Parser.fileStatements.run (initial text) = (statements, s)) :
    Module.parse fileName text =
      { source := s.source
        fileName
        arena := s.arena.add { start := 0, stop := s.source.size, form := .sourceFile statements fileName }
        root := s.arena.size
        errors := (s.errors.reverse ++ s.lexer.errors.map SyntaxError.ofLexical).mergeSort fun a b =>
          a.start ≤ b.start } := by
  unfold initial at h
  rw [Module.parse, h]

/-- Without errors in the module, the parser has ended without any. -/
theorem clean_of_errors {statements : List NodeId} {s : ParserState}
    (h : Parser.fileStatements.run (initial text) = (statements, s)) (herrors : (Module.parse fileName text).errors = []) :
    s.Clean := by
  rw [parse_eq fileName text h] at herrors
  have hperm := List.mergeSort_perm (s.errors.reverse ++ s.lexer.errors.map SyntaxError.ofLexical)
    fun a b => a.start ≤ b.start
  rw [show List.mergeSort _ _ = [] from herrors] at hperm
  obtain ⟨hparser, hlexer⟩ := List.append_eq_nil_iff.mp hperm.nil_eq.symm
  exact ⟨List.reverse_eq_nil_iff.mp hparser, List.map_eq_nil_iff.mp hlexer⟩

/-- The nodes and the errors of a module lie on whole characters, and the errors are about syntax. -/
theorem placed_parse : (Module.parse fileName text).arena.Bounded (.ofString text) ∧
    ∀ e ∈ (Module.parse fileName text).errors, e.message.LiesAt (.ofString text) e.start e.length := by
  obtain ⟨hyields, -⟩ := Parser.fileStatements_yields text
  cases hrun : Parser.fileStatements.run (initial text) with
  | mk statements s =>
      rw [hrun] at hyields
      have hplaced : s.Placed (.ofString text) := hyields.placed (placed_first text)
      have hsource : s.source = .ofString text := hyields.ready.source
      rw [parse_eq fileName text hrun, hsource]
      refine ⟨hplaced.nodes.add (Nat.zero_le _) (Source.onBoundary_zero _) (Source.onBoundary_size _),
        fun e he => ?_⟩
      rw [List.mem_mergeSort, List.mem_append, List.mem_reverse, List.mem_map] at he
      obtain he | ⟨e, he, rfl⟩ := he
      · exact hplaced.errors e he
      · exact hplaced.lexical e he

/-- The tree of a module is the work of the parser's steps, the last of which adds the root. -/
theorem exists_moves : ∃ (t : ParserState) (statements : List NodeId),
    (initial text).advance.Moves t ∧ (Module.parse fileName text).arena = t.arena ∧
      (Module.parse fileName text).root + 1 = t.arena.size ∧
      t.arena.form? (some (Module.parse fileName text).root) = some (.sourceFile statements fileName) ∧
      ((Module.parse fileName text).errors = [] → t.Clean) := by
  obtain ⟨hyields, hend⟩ := Parser.fileStatements_yields text
  cases hrun : Parser.fileStatements.run (initial text) with
  | mk statements s =>
      rw [hrun] at hyields hend
      dsimp only at hyields hend
      have hsize : s.source.size = s.token.start := by
        rw [hyields.ready.source]
        exact (hyields.ready.token.atEnd hend).symm
      have htakes : s.Takes { start := 0, stop := s.source.size, form := .sourceFile statements fileName } :=
        { parent := rfl
          le := Nat.zero_le _
          stop_le := hsize.le
          loose := fun id hid => (hyields.loose id hid).2
          nodup := hyields.nodup
          row := fun hclean => (hyields.tiles hclean).mono (fun _ n hn => ⟨n, hn, rfl, rfl⟩)
            (Nat.zero_le _) (hyields.ready.le.trans hsize.ge)
          spells := fun _ => trivial }
      rw [parse_eq fileName text hrun]
      refine ⟨_, statements, hyields.moves.tail (.add s htakes), rfl, (Arena.size_add _).symm, ?_,
        fun herrors => ?_⟩
      · change (s.arena.add _).form? (some s.arena.size) = _
        rw [Arena.form?]
        simp [Arena.get?_add]
      · have hclean : s.Clean := clean_of_errors fileName text hrun (by rw [parse_eq fileName text hrun]; exact herrors)
        exact hclean

theorem forest_arena : (Module.parse fileName text).arena.Forest := by
  obtain ⟨t, -, hmoves, harena, -⟩ := exists_moves fileName text
  exact harena ▸ hmoves.forest Arena.forest_empty

theorem exists_root : ∃ statements,
    (Module.parse fileName text).arena.form? (some (Module.parse fileName text).root) =
      some (.sourceFile statements fileName) := by
  obtain ⟨t, statements, -, harena, -, hform, -⟩ := exists_moves fileName text
  exact ⟨statements, harena ▸ hform⟩

theorem spanned_parse (h : (Module.parse fileName text).errors = []) :
    (Module.parse fileName text).arena.Spanned (.ofString text) := by
  obtain ⟨t, -, hmoves, harena, -, -, hclean⟩ := exists_moves fileName text
  rw [harena]
  exact hmoves.spanned (ready_first text) (hclean h) (Arena.spanned_empty _)

end Module

end PropContract
