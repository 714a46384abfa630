import PropContract.Parse.Module
import PropContract.Proofs.Parse.Expression

/-!
# Reading a module

A module that assigns an expression to a field of a name and exports the name is read without errors.
-/

namespace PropContract

open Text

namespace Parser

variable {q : Quote} {s s' : ParserState} {ts rest : List Piece}

/-! ## Assignments -/

def assignmentPieces (owner field : String) (value : Written) : List Piece :=
  (Written.member (.name owner) field).pieces ++ .equals :: value.pieces

def IsAssignment (owner field : String) (value : Written) (a : Arena) (id : NodeId) : Prop :=
  ∃ l r, a.form? (some id) = some (.binary (some l) (.assign .equals) (some r)) ∧
    (Written.member (.name owner) field).Holds a l ∧ value.Holds a r

theorem IsAssignment.mono {owner field : String} {value : Written} {a b : Arena} {id : NodeId}
    (hg : a.Grows b) (h : IsAssignment owner field value a id) :
    IsAssignment owner field value b id := by
  obtain ⟨l, r, hform, hl, hr⟩ := h
  exact ⟨l, r, hg id _ hform, hl.mono hg, hr.mono hg⟩

theorem assignmentPieces_reads {owner field : String} {value : Written} {n : Nat}
    (howner : Keyword.ofSpelling? owner = none) (hvalue : value.NamesFree)
    (hn : 4 * value.height ≤ n) :
    ReadsAs q (expressionIn (n + 5) .assignment) (assignmentPieces owner field value)
      (2 * value.height + 3) closers (IsNode (IsAssignment owner field value)) := by
  have htarget : LinksTo q (expressionIn (n + 1)) (Written.member (.name owner) field).pieces 0
      ((Written.member (.name owner) field).Holds ·) :=
    linksTo_pieces (.member (.name owner) field) (Nat.zero_le _) howner
  have hequals : ∀ r ∈ [Piece.equals], r ∈ Piece.equals :: closers := by
    intro r hr
    exact List.mem_singleton.mp hr ▸ List.mem_cons_self
  have hbegins : ∀ r ∈ [Piece.equals], ∀ rest,
      Written.Begins ((Written.member (.name owner) field).pieces ++ r :: rest) :=
    fun _ _ _ => ⟨howner, by decide⟩
  have hleft := conditional_reads hequals hbegins (leftHandSide_reads hequals hbegins htarget)
  have hright := assignment_of_linksTo hvalue (linksTo_pieces (q := q) value hn hvalue)
  change ReadsAs q _ _ (2 * value.height + 2 + 1) _ _
  apply nested_reads
  intro s r rest hat hr hdepth
  rw [assignmentPieces, List.append_assoc] at hat
  have harrow : s.arrowFunction? = none :=
    arrowFunction_begins hat (hbegins .equals (by decide) _)
  obtain ⟨_, t, hrunLeft, ht, hgoesLeft, l, rfl, hl⟩ :=
    hleft s .equals _ hat (by decide) (by omega)
  have hoperator : t.kind = .assign .equals := ht.kind
  obtain ⟨hnext, hgoesNext, -⟩ := ht.next
  have hgoes := hgoesLeft.trans hgoesNext
  obtain ⟨_, u, hrunRight, hu, hgoesRight, v, rfl, hv⟩ := hright t.advance r rest hnext hr (by
    rw [hgoes.depth]
    omega)
  refine ⟨some u.arena.size, u.addNode (.binary (some l) (.assign .equals) (some v)) s.token.start {},
    ?_, hu.addNode, (hgoes.trans hgoesRight).trans ParserState.goesTo_addNode, u.arena.size, rfl,
    l, v, ParserState.form?_addNode, ?_, hv.mono (Arena.grows_add _)⟩
  · have hassignment : (TokenKind.assign .equals).isAssignment = true := rfl
    simp -implicitDefEqProofs only [assignment, Stateful.run_bind, Stateful.run_get, harrow,
      run_pos, hrunLeft, run_kind, hoperator, hassignment, if_true, run_next, hrunRight,
      run_finishChild]
  · exact hl.mono ((hgoesNext.trans hgoesRight).grows.trans (Arena.grows_add _))

/-! ## Expressions with a budget -/

/-- An expression has more levels in hand than its text has pieces. -/
theorem run_expression (k : ExpressionKind) :
    (expression k).run s = (expressionIn (6 * (s.source.size + 1)) k).run s := by
  simp -implicitDefEqProofs only [expression, Stateful.run_bind, run_budget]

theorem commaExpression_reads {x : Child} (hat : s'.At q (.mark .semicolon :: rest))
    (h : (expression .assignment).run s = (x, s')) :
    (commaExpression expression).run s = (x, s') := by
  have hcomma : s'.kind ≠ .punct .comma := by
    rw [hat.kind]
    decide
  simp -implicitDefEqProofs only [commaExpression, Stateful.run_bind, run_pos, h, run_budget,
    commaRest, run_accept_ne hcomma, Bool.false_eq_true, if_false, Stateful.run_pure]

theorem run_expectSemicolon (h : s.kind = .punct .semicolon) :
    expectSemicolon.run s = (⟨⟩, s.advance) := by
  simp -implicitDefEqProofs only [expectSemicolon, Stateful.run_bind, run_accept_eq h, if_true,
    Stateful.run_pure]

/-! ## Statements -/

/-- Whether a statement is read from `ts`, with no error and with a node that has a property. -/
def StatementReads (q : Quote) (p : Parser Child) (ts : List Piece)
    (holds : Arena → NodeId → Prop) : Prop :=
  ∀ s rest, s.At q (ts ++ rest) → s.depth = 0 →
    ∃ id s', p.run s = (some id, s') ∧ s'.At q rest ∧ s.GoesTo s' ∧
      s.token.start < s'.token.start ∧ holds s'.arena id

def IsAssignmentStatement (owner field : String) (value : Written) (a : Arena) (id : NodeId) : Prop :=
  ∃ e, a.form? (some id) = some (.expressionStatement (some e)) ∧
    IsAssignment owner field value a e

def IsExport (owner : String) (a : Arena) (id : NodeId) : Prop :=
  ∃ e, a.form? (some id) = some (.exportAssignment (some e)) ∧
    a.form? (some e) = some (.identifier owner)

theorem IsAssignmentStatement.mono {owner field : String} {value : Written} {a b : Arena}
    {id : NodeId} (hg : a.Grows b) (h : IsAssignmentStatement owner field value a id) :
    IsAssignmentStatement owner field value b id := by
  obtain ⟨e, hform, he⟩ := h
  exact ⟨e, hg id _ hform, he.mono hg⟩

theorem IsExport.mono {owner : String} {a b : Arena} {id : NodeId} (hg : a.Grows b)
    (h : IsExport owner a id) : IsExport owner b id := by
  obtain ⟨e, hform, he⟩ := h
  exact ⟨e, hg id _ hform, hg e _ he⟩

theorem assignmentStatement_reads {owner field : String} {value : Written}
    (howner : Keyword.ofSpelling? owner = none) (hvalue : value.NamesFree)
    (hdepth : 2 * value.height + 3 ≤ maxExpressionDepth) :
    StatementReads q statement (assignmentPieces owner field value ++ [.mark .semicolon])
      (IsAssignmentStatement owner field value) := by
  intro s rest hat hzero
  rw [List.append_assoc] at hat
  have hkind : s.kind = .identifier := by
    rw [ParserState.At.kind (p := .word owner) hat, Piece.kind, howner]
  have hasync : s.isAsyncFunction = false :=
    ParserState.At.isAsyncFunction (p := .word owner) (m := .dot) hat
  have hlength := hat.length_le
  have hheight := value.height_lt_length
  simp only [assignmentPieces, List.length_append, List.length_cons] at hlength
  obtain ⟨n, hn, hle⟩ : ∃ n, 6 * (s.source.size + 1) = n + 5 ∧ 4 * value.height ≤ n :=
    ⟨6 * (s.source.size + 1) - 5, by omega, by omega⟩
  obtain ⟨_, t, hrun, ht, hgoes, e, rfl, he⟩ :=
    assignmentPieces_reads howner hvalue hle s (.mark .semicolon) rest hat (by decide) (by omega)
  rw [← hn, ← run_expression] at hrun
  have hsemicolon : t.kind = .punct .semicolon := ht.kind
  obtain ⟨hnext, hgoesNext, hlt⟩ := ht.next
  refine ⟨t.advance.arena.size,
    t.advance.addNode (.expressionStatement (some e)) s.token.start {}, ?_, hnext.addNode,
    (hgoes.trans hgoesNext).trans ParserState.goesTo_addNode, Nat.lt_of_le_of_lt hgoes.start hlt,
    e, ParserState.form?_addNode, he.mono (hgoesNext.grows.trans (Arena.grows_add _))⟩
  simp -implicitDefEqProofs only [statement, Stateful.run_bind, Stateful.run_get, hkind, hasync,
    Bool.false_eq_true, if_false, expressionStatement, run_pos, commaExpression_reads ht hrun,
    run_expectSemicolon hsemicolon, run_finishChild]

def exportPieces (owner : String) : List Piece :=
  [.word "export", .word "default", .word owner, .mark .semicolon]

theorem exportStatement_reads {owner : String} (howner : Keyword.ofSpelling? owner = none) :
    StatementReads q statement (exportPieces owner) (IsExport owner) := by
  intro s rest hat hzero
  have hexport : s.kind = .keyword .exportWord :=
    (ParserState.At.kind (p := .word "export") hat).trans (by decide +kernel)
  obtain ⟨hdefaultAt, hgoesExport, hlt⟩ := ParserState.At.next hat
  have hdefault : s.advance.kind = .keyword .defaultWord :=
    (ParserState.At.kind (p := .word "default") hdefaultAt).trans (by decide +kernel)
  obtain ⟨hname, hgoesDefault, -⟩ := hdefaultAt.next
  have hkind : s.advance.advance.kind = .identifier := by
    rw [ParserState.At.kind (p := .word owner) hname, Piece.kind, howner]
  have hasync : s.advance.advance.isAsyncFunction = false :=
    ParserState.At.isAsyncFunction (p := .word owner) (m := .semicolon) hname
  have hgoes := hgoesExport.trans hgoesDefault
  obtain ⟨n, hn⟩ : ∃ n, 6 * (s.advance.advance.source.size + 1) = n + 4 :=
    ⟨6 * (s.advance.advance.source.size + 1) - 4, by omega⟩
  have hread := assignment_of_linksTo (e := .name owner) howner
    (linksTo_pieces (q := q) (.name owner) (Nat.zero_le n) howner)
  obtain ⟨_, t, hrun, ht, hgoesName, e, rfl, he⟩ :=
    hread s.advance.advance (.mark .semicolon) rest hname (by decide) (by
      rw [hgoes.depth, hzero, Written.height]
      decide)
  rw [← hn, ← run_expression] at hrun
  have hsemicolon : t.kind = .punct .semicolon := ht.kind
  obtain ⟨hnext, hgoesNext, -⟩ := ht.next
  have hgoesAll := (hgoes.trans hgoesName).trans hgoesNext
  refine ⟨t.advance.arena.size,
    t.advance.addNode (.exportAssignment (some e)) s.token.start {}, ?_, hnext.addNode,
    hgoesAll.trans ParserState.goesTo_addNode, ?_, e, ParserState.form?_addNode, ?_⟩
  · have hclass : (TokenKind.identifier == .keyword .classWord) = false := rfl
    have hfunction : (TokenKind.identifier == .keyword .functionWord) = false := rfl
    simp -implicitDefEqProofs only [statement, Stateful.run_bind, Stateful.run_get, hexport,
      exportDeclaration, run_pos, run_next, run_accept_eq hdefault, if_true, exportDefault, hkind,
      hclass, hfunction, hasync, Bool.or_self, Bool.false_eq_true, if_false, hrun,
      run_expectSemicolon hsemicolon, run_finishChild]
  · exact Nat.lt_of_lt_of_le hlt ((hgoesDefault.trans hgoesName).trans hgoesNext).start
  · exact Arena.grows_add _ e _ (hgoesNext.grows e _ he)

/-! ## Files -/

/-- A statement without errors is followed by nothing that is skipped. -/
theorem fileStatement_reads {holds : Arena → NodeId → Prop}
    (hbegins : ∃ p ps, ts = p :: ps ∧ p.kind ≠ .punct .closeBrace)
    (h : StatementReads q statement ts holds) (hdepth : s.depth = 0) (hquiet : s.quiet = false)
    (hat : s.At q (ts ++ rest)) :
    ∃ id s', fileStatement.run s = (some id, s') ∧ s'.At q rest ∧ s.GoesTo s' ∧
      holds s'.arena id := by
  obtain ⟨id, t, hrun, ht, hgoes, hlt, hid⟩ := h s rest hat hdepth
  have hbrace : (s.kind == .punct .closeBrace) = false := by
    obtain ⟨p, ps, rfl, hp⟩ := hbegins
    rw [ParserState.At.kind hat]
    exact beq_false_of_ne hp
  have herrors : ¬ s.errors.length < t.errors.length := by
    rw [hgoes.errors]
    exact Nat.lt_irrefl _
  have hstart : (t.token.start == s.token.start) = false := beq_false_of_ne (Nat.ne_of_gt hlt)
  refine ⟨id, { t with quiet := false, depth := 0 }, ?_, ?_, ?_, hid⟩
  · have htoken : ({ t with quiet := false, depth := 0 } : ParserState).token = t.token := rfl
    simp -implicitDefEqProofs only [fileStatement, Stateful.run_bind, Stateful.run_get, hbrace,
      Bool.false_eq_true, if_false, hrun, herrors, Stateful.run_pure, Stateful.run_modify, htoken,
      hstart, Bool.false_and]
  · cases rest <;> exact ht
  · exact ⟨hgoes.source, hgoes.errors, hgoes.lexicalErrors, hdepth.symm, hquiet.symm, hgoes.grows,
      hgoes.start⟩

theorem kind_ne_endOfFile (p : Piece) : p.kind ≠ .endOfFile := by
  cases p with
  | word text =>
      rw [Piece.kind]
      split <;> exact TokenKind.noConfusion
  | _ => exact TokenKind.noConfusion

/-- What is known of a statement that is to be read. -/
structure Statement (q : Quote) (row : List Piece × (Arena → NodeId → Prop)) : Prop where
  begins : ∃ p ps, row.1 = p :: ps ∧ p.kind ≠ .punct .closeBrace
  reads : StatementReads q statement row.1 row.2
  mono : ∀ a b id, a.Grows b → row.2 a id → row.2 b id

/-- Statements are read one after the other up to the end of the file. -/
theorem fileStatementsIn_reads {rows : List (List Piece × (Arena → NodeId → Prop))} {n : Nat}
    (h : ∀ row ∈ rows, Statement q row) (hn : rows.length < n) (hdepth : s.depth = 0)
    (hquiet : s.quiet = false) (hat : s.At q (rows.flatMap Prod.fst)) :
    ∃ ids s', (fileStatementsIn n).run s = (ids, s') ∧ s.GoesTo s' ∧
      List.Forall₂ (fun row id => row.2 s'.arena id) rows ids := by
  induction rows generalizing n s with
  | nil =>
      obtain ⟨n, rfl⟩ := Nat.exists_eq_succ_of_ne_zero (Nat.ne_of_gt hn)
      have hkind : s.kind = .endOfFile := hat
      refine ⟨[], s, ?_, .refl s, .nil⟩
      simp -implicitDefEqProofs only [fileStatementsIn, Stateful.run_bind, run_kind, hkind,
        beq_self_eq_true, if_true, Stateful.run_pure]
  | cons row rows ih =>
      obtain ⟨n, rfl⟩ := Nat.exists_eq_succ_of_ne_zero (Nat.ne_of_gt (Nat.zero_lt_of_lt hn))
      have hrow := h row List.mem_cons_self
      have hkind : (s.kind == .endOfFile) = false := by
        obtain ⟨p, ps, hp, -⟩ := hrow.begins
        rw [List.flatMap_cons, hp] at hat
        rw [ParserState.At.kind hat]
        exact beq_false_of_ne (kind_ne_endOfFile p)
      obtain ⟨id, t, hrun, ht, hgoes, hid⟩ :=
        fileStatement_reads hrow.begins hrow.reads hdepth hquiet hat
      obtain ⟨ids, u, hrunRest, hgoesRest, hids⟩ :=
        ih (fun row hrow => h row (List.mem_cons_of_mem _ hrow)) (Nat.lt_of_succ_lt_succ hn)
          (hgoes.depth.trans hdepth) (hgoes.quiet.trans hquiet) ht
      refine ⟨id :: ids, u, ?_, hgoes.trans hgoesRest,
        .cons (hrow.mono _ _ id hgoesRest.grows hid) hids⟩
      simp -implicitDefEqProofs only [fileStatementsIn, Stateful.run_bind, run_kind, hkind,
        Bool.false_eq_true, if_false, hrun, hrunRest, Stateful.run_pure]
      rfl

theorem length_le_flatMap {rows : List (List Piece × (Arena → NodeId → Prop))}
    (h : ∀ row ∈ rows, Statement q row) : rows.length ≤ (rows.flatMap Prod.fst).length := by
  induction rows with
  | nil => exact Nat.le_refl 0
  | cons row rows ih =>
      obtain ⟨p, ps, hp, -⟩ := (h row List.mem_cons_self).begins
      have hle := ih fun row hrow => h row (List.mem_cons_of_mem _ hrow)
      rw [List.flatMap_cons, hp]
      simp only [List.length_cons, List.length_append]
      omega

theorem statements_mono {a b : Arena} {rows : List (List Piece × (Arena → NodeId → Prop))}
    {ids : List NodeId} (h : ∀ row ∈ rows, Statement q row) (hg : a.Grows b)
    (hids : List.Forall₂ (fun row id => row.2 a id) rows ids) :
    List.Forall₂ (fun row id => row.2 b id) rows ids := by
  induction hids with
  | nil => exact .nil
  | cons hid _ ih =>
      exact .cons ((h _ List.mem_cons_self).mono a b _ hg hid)
        (ih fun row hrow => h row (List.mem_cons_of_mem _ hrow))

/-- A text of statements is read from its beginning to its end. -/
theorem fileStatements_reads {text : String} {rows : List (List Piece × (Arena → NodeId → Prop))}
    (h : ∀ row ∈ rows, Statement q row) (hmark : text.toList.head? ≠ some '\uFEFF')
    (hl : Lexes q text.toList (rows.flatMap Prod.fst)) :
    ∃ ids s', fileStatements.run { lexer := Lexer.ofString text } = (ids, s') ∧ s'.errors = [] ∧
      s'.lexer.errors = [] ∧ List.Forall₂ (fun row id => row.2 s'.arena id) rows ids := by
  have hlexer : Lexer.ofString text =
      { source := .ofString text, token := { start := 0, stop := 0, kind := .unknown } } := by
    have hfirst : (text.toList.head? == some '\uFEFF') = false := beq_false_of_ne hmark
    simp only [Lexer.ofString, hfirst, Bool.false_eq_true, if_false]
  have hrest : (Source.ofString text).Rest 0 text.toList := by
    have hlist := Source.rest_ofString text.toList
    rwa [String.ofList_toList] at hlist
  rw [hlexer]
  obtain ⟨hat, -, hsource, herrors⟩ := ParserState.advance_at
    (s := { lexer := ⟨.ofString text, { start := 0, stop := 0, kind := .unknown }, []⟩ }) hl hrest
  have hlength := hat.length_le
  have hrows := length_le_flatMap h
  obtain ⟨ids, t, hrun, hgoes, hids⟩ :=
    fileStatementsIn_reads h (Nat.lt_succ_of_le (Nat.le_trans hrows hlength)) rfl rfl hat
  refine ⟨ids, t, ?_, hgoes.errors, hgoes.lexicalErrors.trans herrors, hids⟩
  simp -implicitDefEqProofs only [fileStatements, Stateful.run_bind, run_next, run_budget]
  exact hrun

end Parser

namespace Module

variable {q : Quote} {text : String}

/-- A file of statements that can be read has these statements and no errors. -/
theorem parse_reads (fileName : String) {rows : List (List Piece × (Arena → NodeId → Prop))}
    (h : ∀ row ∈ rows, Parser.Statement q row) (hmark : text.toList.head? ≠ some '\uFEFF')
    (hl : Lexes q text.toList (rows.flatMap Prod.fst)) :
    (parse fileName text).errors = [] ∧
      List.Forall₂ (fun row id => row.2 (parse fileName text).arena id) rows
        (parse fileName text).statements := by
  obtain ⟨ids, s, hrun, herrors, hlexical, hids⟩ := Parser.fileStatements_reads h hmark hl
  have hroot : (parse fileName text).arena.form? (some (parse fileName text).root) =
      some (.sourceFile ids fileName) := by
    simp only [parse, hrun, Arena.form?_add, if_true]
  refine ⟨?_, ?_⟩
  · simp only [parse, hrun, herrors, hlexical, List.reverse_nil, List.map_nil, List.append_nil,
      List.mergeSort_nil]
  · have hgrows : s.arena.Grows (parse fileName text).arena := by
      simp only [parse, hrun]
      exact Arena.grows_add _
    rw [statements, Arena.statements, hroot]
    exact Parser.statements_mono h hgrows hids

end Module

end PropContract
