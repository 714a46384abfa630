import PropContract.Proofs.Parse.File

/-!
# Complete trees

Whatever cannot be read leaves an error behind. Errors are dropped only where there is one already, so
that a tree without errors has all its parts.
-/

namespace PropContract

open Text

namespace Arena

variable {a : Arena} {src : Source} {lo hi : Nat} {row : List Child}

/-- Whether every place that ought not to be empty has a node, and only static blocks are methods without
a name. -/
structure Complete (a : Arena) : Prop where
  filled : ∀ id n, a.get? id = some n → ∀ c ∈ n.form.row, ∃ form, a.form? c = some form
  named : ∀ id n body, a.get? id = some n → n.form = .methodDeclaration none body →
    n.modifiers = { isStatic := true }

theorem form?_of_get? {id : NodeId} {n : Node} (h : a.get? id = some n) :
    a.form? (some id) = some n.form := by
  simp [form?, h]

theorem Row.form? (h : a.Row lo row hi) : ∀ c ∈ row, ∃ form, a.form? c = some form := by
  induction row generalizing lo with
  | nil => simp
  | cons x xs ih =>
      obtain ⟨id, n, rfl, hn, -, -, -, hrest⟩ := h
      intro c hc
      rcases List.mem_cons.mp hc with rfl | hc
      · exact ⟨n.form, form?_of_get? hn⟩
      · exact ih hrest c hc

/-- What stands in a place that ought not to be empty. -/
theorem Complete.child (h : a.Complete) {parent : Child} {form : Form} (hform : a.form? parent = some form)
    {c : Child} (hc : c ∈ form.row) : ∃ form, a.form? c = some form := by
  cases parent with
  | none => cases hform
  | some id =>
      obtain ⟨n, hn, rfl⟩ := exists_get?_of_form? hform
      exact h.filled id n hn c hc

theorem Spanned.complete (h : a.Spanned src) (hlawful : a.Lawful) : a.Complete where
  filled id n hn := (h id n hn).2.2.1.form?
  named id n body hn hform := by
    have hname := hlawful id n hn
    rw [hform] at hname
    exact hname

end Arena

namespace ParserState

variable {src : Source} {s t : ParserState}

/-- Whether there is an error in the text so far. -/
structure Spoiled (src : Source) (s : ParserState) : Prop where
  ready : s.Ready src
  dirty : ¬ s.Clean

/-- No step takes an error back. -/
theorem Spoiled.moves (h : s.Spoiled src) (hmoves : s.Moves t) : t.Spoiled src := by
  obtain ⟨hready, honward⟩ := hmoves.ready h.ready
  exact ⟨hready, fun hclean => h.dirty (honward.clean hclean)⟩

/-- A report spoils the text also where it is dropped. -/
theorem Ready.spoiled (h : s.Ready src) (message : Message) (args : List String) :
    (s.reportHere message args).Spoiled src :=
  ⟨((Step.report s message args).ready h).1,
    fun hclean => (errors_reportHere message args h.quiet).1 hclean.1⟩

end ParserState

namespace Parser

open ParserState

variable {d : Displacement} {s : ParserState}

/-- Where a child cannot be read, there is an error. -/
theorem Runs.spoiled {p p' : Parser Child} (h : Reads d s p p') (hnone : (p.run s).1 = none) :
    (p.run s).2.Spoiled d.source := by
  refine ⟨h.after.ready, fun hclean => ?_⟩
  have hrow := h.after.tiles hclean
  rw [hnone] at hrow
  obtain ⟨id, n, hid, -⟩ := hrow
  cases hid

/-- A statement of the file is what is read as a statement there. -/
theorem fileStatement_child (hbrace : s.kind ≠ .punct .closeBrace) :
    (fileStatement.run s).1 = (statement.run s).1 := by
  have htail (t : ParserState) (x : Child) :
      ((modify (fun t => { t with quiet := false, depth := 0 }) >>= fun _ => get >>= fun u =>
        if u.token.start == s.token.start && u.kind != .endOfFile then next >>= fun _ => pure x else pure x :
          Parser Child).run t).1 = x := by
    rw [Stateful.run_bind, Stateful.run_modify, Stateful.run_bind, Stateful.run_get]
    simp only
    split <;> rfl
  rw [fileStatement, Stateful.run_bind, Stateful.run_get]
  simp only [beq_false_of_ne hbrace]
  rw [if_neg Bool.false_ne_true, Stateful.run_bind, Stateful.run_bind, Stateful.run_get]
  simp only
  split
  · exact htail _ _
  · exact htail _ _

/-- A statement of the file that is left out leaves an error behind. -/
theorem fileStatement_spoiled (hs : s.Ready d.source) (hnone : (fileStatement.run s).1 = none) :
    (fileStatement.run s).2.Spoiled d.source := by
  by_cases hbrace : s.kind = .punct .closeBrace
  · have hrun : (fileStatement.run s).2 = (s.reportHere .statementExpected []).advance := by
      rw [fileStatement, Stateful.run_bind, Stateful.run_get, hbrace]
      rfl
    rw [hrun]
    exact (hs.spoiled _ _).moves (.single (.advance _))
  · rw [fileStatement_child hbrace] at hnone
    exact ((statement_runs hs).spoiled hnone).moves (fileStatement_moves hs hbrace)

/-- The productions whose result is left out of the tree where they have none. -/
def droppable : List (Parser Child) :=
  [fileStatement, objectElement expression, classMember expression]

theorem droppable_spoiled (hs : s.Ready d.source) {p : Parser Child} (hp : p ∈ droppable)
    (hnone : (p.run s).1 = none) : (p.run s).2.Spoiled d.source := by
  simp only [droppable, List.mem_cons, List.not_mem_nil, or_false] at hp
  rcases hp with rfl | rfl | rfl
  · exact fileStatement_spoiled hs hnone
  · exact (objectElement_runs (expression_parses d _) hs (le_refl _)).spoiled hnone
  · exact (classMember_runs (expression_parses d _) hs (le_refl _)).spoiled hnone

end Parser

namespace Module

open ParserState

variable (fileName text : String)

theorem lawful_parse : (Module.parse fileName text).arena.Lawful := by
  obtain ⟨hyields, -⟩ := Parser.fileStatements_yields text
  rw [parse_eq fileName text rfl]
  exact (hyields.lawful Arena.lawful_empty).add trivial

/-- An error on the way to the end of the file is not forgotten. -/
theorem errors_of_spoiled {s : ParserState} (hs : s.Spoiled (.ofString text))
    (hmoves : s.Moves (Parser.fileStatements.run (initial text)).2) :
    (Module.parse fileName text).errors ≠ [] :=
  fun herrors => (hs.moves hmoves).dirty (clean_of_errors fileName text rfl herrors)

/-- A tree without errors is complete. Wherever the parser reports something on its way, also where the
report is dropped, and wherever it leaves out a statement, a property or a member, the module has errors. -/
theorem complete_parse :
    ((Module.parse fileName text).errors = [] → (Module.parse fileName text).arena.Complete) ∧
    ∀ s, (initial text).advance.Moves s →
      (∀ message args, (s.reportHere message args).Moves (Parser.fileStatements.run (initial text)).2 →
        (Module.parse fileName text).errors ≠ []) ∧
      ∀ p ∈ Parser.droppable, (p.run s).1 = none →
        (p.run s).2.Moves (Parser.fileStatements.run (initial text)).2 →
        (Module.parse fileName text).errors ≠ [] := by
  refine ⟨fun h => (spanned_parse fileName text h).complete (lawful_parse fileName text), ?_⟩
  intro s hs
  have hready := (hs.ready (ready_first text)).1
  constructor
  · intro message args hmoves
    exact errors_of_spoiled fileName text (hready.spoiled message args) hmoves
  · intro p hp hnone hmoves
    exact errors_of_spoiled fileName text
      (Parser.droppable_spoiled (d := .identity (.ofString text)) hready hp hnone) hmoves

theorem complete_parse_class :
    (Module.parse "a.js" "class A \x7b static \x7b\x7d x; y() \x7b\x7d \x7d").errors = [] ∧
      (Module.parse "a.js" "class A \x7b static \x7b\x7d x; y() \x7b\x7d \x7d").arena.Complete ∧
      (Module.parse "a.js" "\x7d").errors ≠ [] := by
  have herrors : (Module.parse "a.js" "class A \x7b static \x7b\x7d x; y() \x7b\x7d \x7d").errors = [] := by
    decide +kernel
  -- A brace alone is left out.
  obtain ⟨-, hdrops⟩ := (complete_parse "a.js" "\x7d").2 (initial "\x7d").advance .refl
  exact ⟨herrors, (complete_parse _ _).1 herrors,
    hdrops Parser.fileStatement (List.mem_cons_self ..) rfl .refl⟩

end Module

end PropContract
