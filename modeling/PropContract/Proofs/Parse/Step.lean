import Mathlib.Data.Nat.Basic
import Mathlib.Logic.Relation
import Mathlib.Order.Basic
import PropContract.Parse.Module
import PropContract.Proofs.Token.Errors
import PropContract.Proofs.Token.Numeral
import PropContract.Proofs.Tree.Spans

/-!
# Steps of the parser

Whatever the parser does, it does in steps of a few kinds: it moves on by a token or to a place it has
looked up, reads a slash anew, reports, adds a node, or counts levels. What a step may change is said
here once.
-/

namespace PropContract

open Text

namespace ParserState

/-- Whether nothing is wrong with the text so far. -/
def Clean (s : ParserState) : Prop :=
  s.errors = [] ∧ s.lexer.errors = []

/-- Whether the state is fit for a new node: it has no parent, ends before the current token, and its
children are nodes without a parent. In a text without errors they stand in it in a row. -/
structure Takes (s : ParserState) (n : Node) : Prop where
  parent : n.parent = none
  le : n.start ≤ n.stop
  stop_le : n.stop ≤ s.token.start
  loose : ∀ id, some id ∈ n.form.row → ∃ m, s.arena.get? id = some m ∧ m.parent = none
  nodup : n.form.row.reduceOption.Nodup
  row : s.Clean → s.arena.Row n.start n.form.row n.stop
  spells : s.Clean → n.form.Spells s.source n.start n.stop

/-- The places to which the parser jumps: the end of the group, markup or arrow function head that
begins at the current token, and the end of the text. -/
inductive Lands (s : ParserState) (pos : Nat) : Prop
  | group (h : Token.groupEnd s.source s.token.start = some pos)
  | markup (h : Token.markupEnd s.source s.token.start = some pos)
  | arrow (isAsync : Bool) (h : s.arrowFunction? = some (pos, isAsync))
  | ending (h : pos = s.source.size)

inductive Step : ParserState → ParserState → Prop
  | advance (s) : Step s s.advance
  | jump (s) {pos : Nat} (h : s.Lands pos) : Step s (s.jump pos)
  | rescan (s) : Step s { s with lexer := s.lexer.rescanSlash }
  | report (s) (message : Message) (args : List String) : Step s (s.reportHere message args)
  | add (s) {n : Node} (h : s.Takes n) : Step s { s with arena := s.arena.add n }
  | nest (s) (depth : Nat) : Step s { s with depth }
  | hush (s) (h : s.errors ≠ []) : Step s { s with quiet := true }
  | reset (s) : Step s { s with quiet := false, depth := 0 }

/-- Whether steps lead from one state to another. -/
def Moves : ParserState → ParserState → Prop :=
  Relation.ReflTransGen Step

/-- What holds whenever the parser has a current token: it fits the text and comes after what has been
consumed. Errors are dropped only where there is one already. -/
structure Ready (src : Source) (s : ParserState) : Prop where
  source : s.source = src
  token : s.token.Fits src
  prev : src.OnBoundary s.prevEnd
  le : s.prevEnd ≤ s.token.start
  numbered : s.token.Numbered
  spelled : s.lexer.errors = [] → s.token.Spelled src
  quiet : s.quiet = true → s.errors ≠ []

/-- Whether all that has been left behind lies on whole characters: the nodes, and the errors, which are
about syntax. -/
structure Placed (src : Source) (s : ParserState) : Prop where
  nodes : s.arena.Bounded src
  errors : ∀ e ∈ s.errors, e.message.LiesAt src e.start e.length
  lexical : ∀ e ∈ s.lexer.errors, e.LiesIn src

/-- What no step takes back. -/
structure Onward (s t : ParserState) : Prop where
  start : s.token.start ≤ t.token.start
  prevEnd : s.prevEnd ≤ t.prevEnd
  clean : t.Clean → s.Clean
  size : s.arena.size ≤ t.arena.size

variable {src : Source} {s t u : ParserState} {pos : Nat}

theorem Onward.refl (s : ParserState) : s.Onward s :=
  ⟨Nat.le_refl _, Nat.le_refl _, id, Nat.le_refl _⟩

theorem Onward.trans (h : s.Onward t) (h' : t.Onward u) : s.Onward u :=
  ⟨h.start.trans h'.start, h.prevEnd.trans h'.prevEnd, fun hu => h.clean (h'.clean hu),
    h.size.trans h'.size⟩

/-! ## Places to jump to -/

theorem arrowEnd?_ends (h : src.OnBoundary pos) : Token.EndsAfter src pos (arrowEnd? src pos) := by
  have arrow {stop : Nat} (hlt : pos < stop) (hstop : src.OnBoundary stop) :
      Token.EndsAfter src pos (if src.startsWithAt (Token.skipTrivia src stop) "=>" then
        some (Token.skipTrivia src stop + 2) else none) := by
    obtain ⟨hle, hbound⟩ := Token.skipTriviaIn_spec (n := src.size - stop) hstop
    split
    · rename_i hholds
      rintro r ⟨⟩
      have hbytes : "=>".toUTF8.data.toList.all (fun b => decide (0 < b.toNat ∧ b.toNat < 0x80)) := by decide
      exact ⟨by change pos < Token.skipTriviaIn src (src.size - stop) stop + 2; omega,
        Token.onBoundary_of_holdsAt hbound
          (fun b hb => of_decide_eq_true (List.all_eq_true.mp hbytes b hb)) hholds⟩
    · exact Token.endsAfter_none
  rw [arrowEnd?]
  split
  · intro r hr
    obtain ⟨stop, hstop, hr⟩ := Option.bind_eq_some_iff.mp hr
    obtain ⟨hlt, hbound⟩ := Token.opaqueEnd_ends src _ .group pos stop hstop
    exact arrow hlt hbound r hr
  · split
    · rename_i hstart
      have hlt : pos < src.size := Source.lt_size_of_charAt fun hzero => by
        rw [hzero] at hstart
        exact absurd hstart (by decide)
      exact arrow (Token.lt_identifierEnd hlt hstart)
        (Source.onBoundary_skipWhile_of_wide (fun _ => Source.isIdentifierPart_of_le) h.le)
    · exact Token.endsAfter_none

theorem peekPos_spec (h : s.token.Fits s.source) :
    s.token.stop ≤ s.peekPos ∧ s.source.OnBoundary s.peekPos :=
  Token.skipTriviaIn_spec h.stop

theorem arrowFunction?_ends {isAsync : Bool} (h : s.token.Fits s.source)
    (harrow : s.arrowFunction? = some (pos, isAsync)) :
    s.token.start < pos ∧ s.source.OnBoundary pos := by
  have plain {found : Nat × Bool}
      (hfound : (arrowEnd? s.source s.token.start).map (·, false) = some found) :
      s.token.start < found.1 ∧ s.source.OnBoundary found.1 := by
    obtain ⟨r, hr, rfl⟩ := Option.map_eq_some_iff.mp hfound
    exact arrowEnd?_ends h.start r hr
  rw [arrowFunction?] at harrow
  split at harrow
  · rcases Option.or_eq_some_iff.mp harrow with harrow | ⟨-, harrow⟩
    · obtain ⟨r, hr, heq⟩ := Option.map_eq_some_iff.mp harrow
      obtain ⟨rfl, -⟩ := Prod.mk.inj heq
      obtain ⟨hpeek, hbound⟩ := peekPos_spec h
      obtain ⟨hlt, hr⟩ := arrowEnd?_ends hbound r hr
      have hle := h.le
      exact ⟨by omega, hr⟩
    · exact plain harrow
  · split at harrow
    · exact plain harrow
    · exact nomatch harrow

theorem Lands.spec (h : s.Lands pos) (hs : s.token.Fits s.source) :
    s.token.start ≤ pos ∧ s.source.OnBoundary pos := by
  cases h with
  | group h =>
      obtain ⟨hlt, hbound⟩ := Token.opaqueEnd_ends s.source _ _ _ pos h
      exact ⟨hlt.le, hbound⟩
  | markup h =>
      obtain ⟨hlt, hbound⟩ := Token.opaqueEnd_ends s.source _ _ _ pos h
      exact ⟨hlt.le, hbound⟩
  | arrow isAsync h =>
      obtain ⟨hlt, hbound⟩ := arrowFunction?_ends hs h
      exact ⟨hlt.le, hbound⟩
  | ending h => exact h ▸ ⟨hs.start.le, s.source.onBoundary_size⟩

/-! ## What a step keeps -/

theorem errors_reportHere (message : Message) (args : List String) (h : s.quiet = true → s.errors ≠ []) :
    (s.reportHere message args).errors ≠ [] ∧
      (s.reportHere message args).lexer = s.lexer ∧
      (s.reportHere message args).arena = s.arena ∧
      (s.reportHere message args).prevEnd = s.prevEnd := by
  rw [reportHere, report]
  split
  · rename_i hdrop
    refine ⟨?_, rfl, rfl, rfl⟩
    rcases Bool.or_eq_true_iff.mp hdrop with hquiet | hhead
    · exact h hquiet
    · intro hnil
      rw [hnil] at hhead
      exact nomatch hhead
  · exact ⟨List.cons_ne_nil _ _, rfl, rfl, rfl⟩

/-- Scanning on from a boundary past the current token. -/
theorem Ready.scan {l : Lexer} (h : s.Ready src) (hsource : l.source = src)
    (herrors : l.errors = s.lexer.errors) (hstop : src.OnBoundary l.token.stop)
    (hle : s.token.start ≤ l.token.stop) :
    Ready src { s with prevEnd := l.token.stop, lexer := l.scan } ∧
      Onward s { s with prevEnd := l.token.stop, lexer := l.scan } := by
  obtain ⟨hfits, hge, hspelled⟩ := Token.scanAt_fits hstop
  have hclean (hnil : l.scan.errors = []) :
      s.lexer.errors = [] ∧ (Token.scanAt src l.token.stop).2 = [] := by
    rwa [Lexer.scan, hsource, herrors, List.append_eq_nil_iff] at hnil
  have hnumbered := Token.scanAt_numbered hstop
  have htoken : l.scan.token = (Token.scanAt src l.token.stop).1 := by rw [Lexer.scan, hsource]
  rw [← htoken] at hfits hge hspelled hnumbered
  exact ⟨⟨hsource, hfits, hstop, hge, hnumbered, fun hnil => hspelled (hclean hnil).2, h.quiet⟩,
    ⟨hle.trans hge, h.le.trans hle, fun hnil => ⟨hnil.1, (hclean hnil.2).1⟩, le_refl _⟩⟩

theorem Ready.advance (h : s.Ready src) : s.advance.Ready src ∧ s.Onward s.advance :=
  h.scan h.source rfl h.token.stop h.token.le

theorem Ready.jump (h : s.Ready src) (hbound : src.OnBoundary pos) (hle : s.token.start ≤ pos) :
    (s.jump pos).Ready src ∧ s.Onward (s.jump pos) := by
  have hsource : s.lexer.source = src := h.source
  have hmin : min pos s.lexer.source.size = pos := by
    rw [hsource]
    exact min_eq_left hbound.le
  have hstop : (s.lexer.resetTo pos).token.stop = pos := hmin
  have hscan := h.scan (l := s.lexer.resetTo pos) hsource rfl (by rwa [hstop]) (by rwa [hstop])
  rwa [hstop] at hscan

theorem Step.ready (h : Step s t) (hs : s.Ready src) : t.Ready src ∧ s.Onward t := by
  cases h with
  | advance => exact hs.advance
  | jump h =>
      obtain ⟨hle, hbound⟩ := h.spec (hs.source.symm ▸ hs.token)
      exact hs.jump (hs.source ▸ hbound) hle
  | rescan =>
      obtain ⟨hfits, hstart, hspelled⟩ := Token.asRegex_fits hs.token
      have hsource : s.lexer.source = src := hs.source
      refine ⟨⟨hsource, ?_, hs.prev, ?_, hs.numbered.asRegex, fun hclean => ?_, hs.quiet⟩,
        ⟨?_, le_refl _, ?_, le_refl _⟩⟩
      · change (s.lexer.token.asRegex s.lexer.source).1.Fits src
        exact hsource.symm ▸ hfits
      · change s.prevEnd ≤ (s.lexer.token.asRegex s.lexer.source).1.start
        rw [hsource]
        exact hs.le.trans hstart.ge
      · change s.lexer.errors ++ (s.lexer.token.asRegex s.lexer.source).2 = [] at hclean
        change (s.lexer.token.asRegex s.lexer.source).1.Spelled src
        rw [hsource, List.append_eq_nil_iff] at hclean
        rw [hsource]
        exact hspelled hclean.2 (hs.spelled hclean.1)
      · change s.token.start ≤ (s.lexer.token.asRegex s.lexer.source).1.start
        rw [hsource]
        exact hstart.ge
      · rintro ⟨hparser, hlexer⟩
        change s.lexer.errors ++ (s.lexer.token.asRegex s.lexer.source).2 = [] at hlexer
        exact ⟨hparser, (List.append_eq_nil_iff.mp hlexer).1⟩
  | report message args =>
      obtain ⟨hne, hlexer, harena, hprev⟩ := errors_reportHere message args hs.quiet
      have htoken : (s.reportHere message args).token = s.token := congrArg Lexer.token hlexer
      refine ⟨⟨?_, ?_, ?_, ?_, ?_, ?_, fun _ => hne⟩, ⟨?_, ?_, fun hclean => absurd hclean.1 hne, ?_⟩⟩
      · exact (congrArg Lexer.source hlexer).trans hs.source
      · exact htoken ▸ hs.token
      · exact hprev ▸ hs.prev
      · rw [hprev, htoken]
        exact hs.le
      · exact htoken ▸ hs.numbered
      · rw [hlexer, htoken]
        exact hs.spelled
      · exact htoken ▸ le_refl _
      · exact hprev ▸ le_refl _
      · exact harena ▸ le_refl _
  | add h =>
      refine ⟨⟨hs.source, hs.token, hs.prev, hs.le, hs.numbered, hs.spelled, hs.quiet⟩,
        ⟨le_refl _, le_refl _, id, ?_⟩⟩
      exact (Arena.size_add _).symm ▸ Nat.le_succ _
  | nest => exact ⟨⟨hs.source, hs.token, hs.prev, hs.le, hs.numbered, hs.spelled, hs.quiet⟩,
      ⟨le_refl _, le_refl _, id, le_refl _⟩⟩
  | hush h => exact ⟨⟨hs.source, hs.token, hs.prev, hs.le, hs.numbered, hs.spelled, fun _ => h⟩,
      ⟨le_refl _, le_refl _, id, le_refl _⟩⟩
  | reset => exact ⟨⟨hs.source, hs.token, hs.prev, hs.le, hs.numbered, hs.spelled, (nomatch ·)⟩,
      ⟨le_refl _, le_refl _, id, le_refl _⟩⟩

theorem Moves.ready (h : s.Moves t) (hs : s.Ready src) : t.Ready src ∧ s.Onward t := by
  induction h with
  | refl => exact ⟨hs, .refl s⟩
  | tail _ hstep ih =>
      obtain ⟨ht, honward⟩ := ih
      obtain ⟨hu, honward'⟩ := hstep.ready ht
      exact ⟨hu, honward.trans honward'⟩

/-- What is scanned, or read anew, adds errors on whole characters. -/
theorem Placed.scanned {l : Lexer} (prevEnd : Nat) {errors : List LexicalError} (h : s.Placed src)
    (herrors : l.errors = s.lexer.errors ++ errors) (hnew : ∀ e ∈ errors, e.LiesIn src) :
    Placed src { s with prevEnd, lexer := l } where
  nodes := h.nodes
  errors := h.errors
  lexical e he := by
    rw [herrors] at he
    exact (List.mem_append.mp he).elim (h.lexical e) (hnew e)

theorem Placed.advance (h : s.Placed src) (hsource : s.source = src)
    (hstop : src.OnBoundary s.token.stop) : s.advance.Placed src := by
  refine h.scanned _ (by rw [Lexer.scan]) ?_
  rw [show s.lexer.source = src from hsource]
  exact Token.scanAt_liesIn hstop

theorem Placed.jump (h : s.Placed src) (hs : s.Ready src) (hbound : src.OnBoundary pos) :
    (s.jump pos).Placed src := by
  have hsource : s.lexer.source = src := hs.source
  have hstop : (s.lexer.resetTo pos).token.stop = pos := by
    change min pos s.lexer.source.size = pos
    rw [hsource]
    exact min_eq_left hbound.le
  refine h.scanned _ (by rw [Lexer.scan]; rfl) ?_
  rw [hstop, show (s.lexer.resetTo pos).source = src from hsource]
  exact Token.scanAt_liesIn hbound

theorem Placed.rescan (h : s.Placed src) (hs : s.Ready src) :
    Placed src { s with lexer := s.lexer.rescanSlash } := by
  refine h.scanned s.prevEnd (by rw [Lexer.rescanSlash]) ?_
  rw [show s.lexer.source = src from hs.source]
  exact Token.asRegex_liesIn hs.token

/-- An error at the current token covers it. -/
theorem Placed.reportHere {message : Message} (args : List String) (h : s.Placed src) (hs : s.Ready src)
    (hmessage : message.isSyntax) : (s.reportHere message args).Placed src := by
  rw [ParserState.reportHere, ParserState.report]
  split
  · exact h
  · refine ⟨h.nodes, List.forall_mem_cons.mpr ⟨?_, h.errors⟩, h.lexical⟩
    exact .between hmessage hs.token.start hs.token.stop hs.token.le

theorem Placed.add {n : Node} (h : s.Placed src) (hle : n.start ≤ n.stop)
    (hstart : src.OnBoundary n.start) (hstop : src.OnBoundary n.stop) :
    Placed src { s with arena := s.arena.add n } :=
  ⟨h.nodes.add hle hstart hstop, h.errors, h.lexical⟩

/-- Every step keeps the nodes a forest. -/
theorem Step.forest (h : Step s t) (hs : s.arena.Forest) : t.arena.Forest := by
  cases h with
  | add h =>
      refine hs.add h.parent (fun id hid => h.loose id (Form.mem_row_iff.mpr hid)) ?_
      rw [← Form.reduceOption_row]
      exact h.nodup
  | report message args =>
      rw [reportHere, ParserState.report]
      split <;> exact hs
  | _ => exact hs

theorem Moves.forest (h : s.Moves t) (hs : s.arena.Forest) : t.arena.Forest := by
  induction h with
  | refl => exact hs
  | tail _ hstep ih => exact hstep.forest ih

/-- No step changes a node, apart from its parent. -/
theorem Step.exists_get? (h : Step s t) {id : NodeId} {n : Node} (hn : s.arena.get? id = some n) :
    ∃ parent, t.arena.get? id = some { n with parent } := by
  cases h with
  | add => exact Arena.exists_get?_add hn
  | report message args =>
      rw [reportHere, ParserState.report]
      split <;> exact ⟨n.parent, hn⟩
  | _ => exact ⟨n.parent, hn⟩

theorem Moves.exists_get? (h : s.Moves t) {id : NodeId} {n : Node} (hn : s.arena.get? id = some n) :
    ∃ parent, t.arena.get? id = some { n with parent } := by
  induction h with
  | refl => exact ⟨n.parent, hn⟩
  | tail _ hstep ih =>
      obtain ⟨parent, hm⟩ := ih
      obtain ⟨parent, hm⟩ := hstep.exists_get? hm
      exact ⟨parent, hm⟩

/-- Every step keeps the nodes of a text without errors in rows. -/
theorem Step.spanned (h : Step s t) (hs : s.Ready src) (ht : t.Clean)
    (hspanned : s.arena.Spanned src) : t.arena.Spanned src := by
  cases h with
  | add h =>
      refine hspanned.add h.le (h.stop_le.trans hs.token.start.le) (h.row ht) ?_
      exact hs.source ▸ h.spells ht
  | report message args =>
      rw [reportHere, ParserState.report]
      split <;> exact hspanned
  | _ => exact hspanned

theorem Moves.spanned (h : s.Moves t) (hs : s.Ready src) (ht : t.Clean)
    (hspanned : s.arena.Spanned src) : t.arena.Spanned src := by
  induction h with
  | refl => exact hspanned
  | tail hmoves hstep ih =>
      have hready := (Moves.ready hmoves hs).1
      exact hstep.spanned hready ht (ih ((hstep.ready hready).2.clean ht))

end ParserState

end PropContract
