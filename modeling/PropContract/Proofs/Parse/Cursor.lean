import PropContract.Proofs.Parse.File

/-!
# The cursor only moves forward

Whatever step the parser takes, its current token does not move back and stays behind what has been
consumed. A new error therefore comes at or behind the last one, and comparing it with that one alone keeps
all errors at places of their own.
-/

namespace PropContract

open Text

namespace ParserState

/-- Whether the errors so far, the newest first, are at places further and further back, none of them ahead
of the current token. -/
structure Descending (s : ParserState) : Prop where
  pairwise : s.errors.Pairwise fun later earlier => earlier.start < later.start
  behind : ∀ e ∈ s.errors, e.start ≤ s.token.start

variable {src : Source} {s t : ParserState}

/-- The same errors are still behind a later token. -/
theorem Descending.onward (h : s.Descending) (herrors : t.errors = s.errors)
    (hle : s.token.start ≤ t.token.start) : t.Descending where
  pairwise := herrors ▸ h.pairwise
  behind e he := (h.behind e (herrors ▸ he)).trans hle

/-- The last error is the one furthest on, so if any error is at the current token, it is. -/
theorem Descending.head?_any (h : s.Descending) :
    s.errors.head?.any (·.start == s.token.start) = s.errors.any (·.start == s.token.start) := by
  obtain ⟨hpairwise, hbehind⟩ := h
  cases herrors : s.errors with
  | nil => rfl
  | cons last earlier =>
      rw [herrors] at hpairwise hbehind
      have hlast : last.start ≤ s.token.start := hbehind last List.mem_cons_self
      have hearlier : earlier.any (·.start == s.token.start) = false := by
        refine List.any_eq_false.mpr fun e he heq => ?_
        have hlt := List.rel_of_pairwise_cons hpairwise he
        rw [beq_iff_eq] at heq
        omega
      rw [List.head?_cons, Option.any_some, List.any_cons, hearlier, Bool.or_false]

/-- An error at the current token that is not dropped is further on than all others. -/
theorem Descending.reportHere (h : s.Descending) (message : Message) (args : List String) :
    (s.reportHere message args).Descending := by
  rw [ParserState.reportHere, ParserState.report]
  split
  · exact h
  · rename_i hkept
    have hfree : s.errors.any (·.start == s.token.start) = false := by
      rw [← h.head?_any]
      exact (Bool.or_eq_false_iff.mp (Bool.eq_false_iff.mpr hkept)).2
    constructor
    · refine .cons (fun e he => ?_) h.pairwise
      have hne : e.start ≠ s.token.start := by simpa using List.any_eq_false.mp hfree e he
      exact lt_of_le_of_ne (h.behind e he) hne
    · exact List.forall_mem_cons.mpr ⟨le_refl _, h.behind⟩

/-- Every step keeps the errors in their order: it reports at the current token, or moves on. -/
theorem Step.descending (h : Step s t) (hs : s.Ready src) (herrors : s.Descending) : t.Descending := by
  have honward : s.token.start ≤ t.token.start := (h.ready hs).2.start
  cases h with
  | report message args => exact herrors.reportHere message args
  | _ => exact herrors.onward rfl honward

theorem Moves.descending (h : s.Moves t) (hs : s.Ready src) (herrors : s.Descending) : t.Descending := by
  induction h with
  | refl => exact herrors
  | tail hmoves hstep ih => exact hstep.descending (Moves.ready hmoves hs).1 ih

/-- Whether the parser is where it should be at a state: behind what it has consumed, with no way back. Its
errors, the oldest first, are further and further on, and a report there is dropped exactly where errors are
not wanted or there is one already. -/
structure Forward (s : ParserState) : Prop where
  consumed : s.prevEnd ≤ s.token.start
  onward : ∀ t, s.Moves t → s.token.start ≤ t.token.start ∧ s.prevEnd ≤ t.prevEnd
  errors : (s.errors.reverse.map (·.start)).Pairwise (· < ·)
  dropped : ∀ message args, (s.reportHere message args).errors = s.errors ↔
    s.quiet = true ∨ ∃ e ∈ s.errors, e.start = s.token.start

theorem Descending.dropped_iff (h : s.Descending) (message : Message) (args : List String) :
    (s.reportHere message args).errors = s.errors ↔
      s.quiet = true ∨ ∃ e ∈ s.errors, e.start = s.token.start := by
  have hcondition : (s.quiet || s.errors.head?.any (·.start == s.token.start)) = true ↔
      s.quiet = true ∨ ∃ e ∈ s.errors, e.start = s.token.start := by
    rw [h.head?_any, Bool.or_eq_true_iff, List.any_eq_true]
    simp only [beq_iff_eq]
  rw [ParserState.reportHere, ParserState.report, ← hcondition]
  split
  · rename_i hdropped
    exact iff_of_true rfl hdropped
  · rename_i hkept
    exact iff_of_false (List.cons_ne_self _ _) hkept

theorem Ready.forward (hs : s.Ready src) (h : s.Descending) : s.Forward where
  consumed := hs.le
  onward _ hmoves := ⟨(hmoves.ready hs).2.start, (hmoves.ready hs).2.prevEnd⟩
  errors := by
    rw [List.pairwise_map, List.pairwise_reverse]
    exact h.pairwise
  dropped := h.dropped_iff

end ParserState

namespace Parser

open ParserState

/-- Whether whatever is read from a state on is read in steps. -/
structure ReadsInSteps (s : ParserState) : Prop where
  file : s.kind ≠ .endOfFile → s.Moves (fileStatement.run s).2
  statement : s.Moves (statement.run s).2
  expression : ∀ k, k ≠ .new → s.Moves ((expression k).run s).2
  recovery : s.Moves (resync.run s).2

theorem readsInSteps {src : Source} {s : ParserState} (hs : s.Ready src) : ReadsInSteps s := by
  obtain ⟨d, rfl⟩ : ∃ d : Displacement, d.source = src := ⟨.identity src, rfl⟩
  exact
  { file := fun hkind => (fileStatement_runs hs hkind).after.1.moves
    statement := (statement_runs hs).after.moves
    expression := fun k hk =>
      (expression_parses d _ k s hs (Nat.lt_succ_self _) fun hnew => absurd hnew hk).after.moves
    recovery := (resync_passes hs).after.moves }

/-- The parser moves forward from before the first token to the end of the text, through every state that
its steps lead to, and it does nothing but take such steps. -/
theorem fileStatements_forward (text : String) :
    (initial text).Step (initial text).advance ∧
      (initial text).prevEnd ≤ (initial text).token.start ∧
      (initial text).token.start ≤ (initial text).advance.token.start ∧
      (initial text).advance.Moves (fileStatements.run (initial text)).2 ∧
      ∀ s, (initial text).advance.Moves s → s.Forward ∧ ReadsInSteps s := by
  have hfirst := ready_first text
  refine ⟨.advance _, Nat.zero_le _, ?_, (fileStatements_yields text).1.moves, fun s hs => ?_⟩
  · exact hfirst.le
  · obtain ⟨hready, -⟩ := hs.ready hfirst
    exact ⟨hready.forward (hs.descending hfirst ⟨.nil, nofun⟩), readsInSteps hready⟩

/-- Past a missing semicolon, past a bracket that closes nothing, and past one that is never closed. -/
theorem fileStatements_forward_recovery :
    ((fileStatements.run (initial "a b\n) c\nif (x")).2.errors.reverse.map (·.start)) = [2, 4, 11] ∧
      ((fileStatements.run (initial "a b\n) c\nif (x")).2.errors.reverse.map (·.start)).Pairwise (· < ·) := by
  obtain ⟨-, -, -, hmoves, hforward⟩ := fileStatements_forward "a b\n) c\nif (x"
  exact ⟨by decide +kernel, (hforward _ hmoves).1.errors⟩

end Parser

end PropContract
