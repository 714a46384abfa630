import PropContract.Proofs.Parse.Displacement
import PropContract.Proofs.Parse.Yields
import PropContract.Proofs.Stateful

/-!
# Runs in two places

Two runs of the parser are compared: one over a text, one over the same text at the end of a larger one,
where loops may have other budgets. They do the same, and what the first one leaves behind is known. There
is one rule for each way to put programs together, and one lemma for each thing the parser does between
the constructs of the language.
-/

namespace PropContract

open Text ParserState Displacement

namespace Parser

/-- Whether `p` at `s` and `p'` at the same state in another place do the same, with results that
correspond by `move`, and what holds after `p`. -/
structure Runs {α : Type} (d : Displacement) (s : ParserState) (p p' : Parser α) (move : α → α)
    (post : α → ParserState → Prop) : Prop where
  after : post (p.run s).1 (p.run s).2
  same : p'.run (d.state s) = (move (p.run s).1, d.state (p.run s).2)

/-- Reading that leaves no child behind. -/
abbrev Passes {α : Type} (d : Displacement) (took : Bool) (s : ParserState) (p p' : Parser α) : Prop :=
  Runs d s p p' id fun _ t => Yields d.source took s [] t

/-- Reading a child that ought to be there. -/
abbrev Reads (d : Displacement) (s : ParserState) (p p' : Parser Child) : Prop :=
  Runs d s p p' d.child fun x t => Yields d.source false s [x] t

/-- Reading a child that may be left out. -/
abbrev ReadsMaybe (d : Displacement) (s : ParserState) (p p' : Parser Child) : Prop :=
  Runs d s p p' d.child fun x t => Yields d.source false s (Form.optional x) t

/-- Reading a child that is never missing. -/
abbrev ReadsNode (d : Displacement) (s : ParserState) (p p' : Parser NodeId) : Prop :=
  Runs d s p p' d.id fun x t => Yields d.source false s [some x] t

variable {α β : Type} {d : Displacement} {s t u : ParserState} {b b' : Bool} {row row' : List Child}
variable {p p' : Parser α} {move : α → α} {post : α → ParserState → Prop}
variable {move' : β → β} {post' : β → ParserState → Prop}

/-! ## Putting programs together -/

theorem Runs.mono {post' : α → ParserState → Prop} (h : Runs d s p p' move post)
    (hpost : ∀ x t, post x t → post' x t) : Runs d s p p' move post' :=
  ⟨hpost _ _ h.after, h.same⟩

/-- Other programs that run the same. -/
theorem Runs.congr {q q' : Parser α} (h : Runs d s p p' move post) (hq : q.run s = p.run s)
    (hq' : q'.run (d.state s) = p'.run (d.state s)) : Runs d s q q' move post :=
  ⟨hq ▸ h.after, hq'.trans (hq ▸ h.same)⟩

theorem Runs.pure {x y : α} (h : post x s) (hy : move x = y) :
    Runs d s (Pure.pure x) (Pure.pure y) move post :=
  ⟨h, by rw [← hy]; rfl⟩

theorem Runs.bind {k k' : α → Parser β} (h : Runs d s p p' move post)
    (hk : ∀ x t, post x t → Runs d t (k x) (k' (move x)) move' post') :
    Runs d s (p >>= k) (p' >>= k') move' post' := by
  obtain ⟨hafter, hsame⟩ := hk _ _ h.after
  refine ⟨hafter, ?_⟩
  rw [Stateful.run_bind, h.same, hsame]
  rfl

/-- Reading on behind what has been read since `s`. -/
theorem Runs.after_row {view : α → List Child} {k k' : α → Parser β} (ht : Yields d.source b s row t)
    (h : Runs d t p p' move fun x u => Yields d.source b' t (view x) u)
    (hk : ∀ x u, Yields d.source (b || b') s (row ++ view x) u →
      Runs d u (k x) (k' (move x)) move' post') :
    Runs d t (p >>= k) (p' >>= k') move' post' :=
  h.bind fun x u hu => hk x u (ht.trans hu)

/-- Passing over something behind what has been read since `s`. -/
theorem Runs.past {k k' : α → Parser β} (ht : Yields d.source b s row t) (h : Passes d b' t p p')
    (hk : ∀ x u, Yields d.source (b || b') s row u → Runs d u (k x) (k' x) move' post') :
    Runs d t (p >>= k) (p' >>= k') move' post' :=
  h.bind fun x u hu => hk x u (ht.on hu)

theorem Runs.ite {c : Prop} [Decidable c] {q q' : Parser α} (h : c → Runs d s p p' move post)
    (h' : ¬ c → Runs d s q q' move post) :
    Runs d s (if c then p else q) (if c then p' else q') move post := by
  split
  · exact h ‹_›
  · exact h' ‹_›

/-- Passing over something only under a condition, behind what has been read since `s`. -/
theorem Runs.when {c : Prop} [Decidable c] {q q' : Parser Unit} {k k' : Unit → Parser α}
    (ht : Yields d.source b s row t) (h : c → Passes d b' t q q')
    (hk : ∀ u, Yields d.source b s row u → Runs d u (k ⟨⟩) (k' ⟨⟩) move post) :
    Runs d t (if c then q >>= k else k ⟨⟩) (if c then q' >>= k' else k' ⟨⟩) move post := by
  refine .ite (fun hc => .past ht (h hc) fun _ u hu => hk u ?_) fun _ => hk t ht
  cases b with
  | false => exact hu.weaken
  | true => exact hu

/-- Going on from one of two ways. -/
theorem Runs.either {c : Prop} [Decidable c] {q q' : Parser α} {k k' : α → Parser β}
    (h : c → Runs d t p p' move post) (h' : ¬ c → Runs d t q q' move post)
    (hk : ∀ x u, post x u → Runs d u (k x) (k' (move x)) move' post') :
    Runs d t (if c then p >>= k else q >>= k) (if c then p' >>= k' else q' >>= k') move' post' :=
  .ite (fun hc => (h hc).bind hk) fun hc => (h' hc).bind hk

/-- Reading on in one of two ways behind what has been read since `s`. -/
theorem Runs.branch {c : Prop} [Decidable c] {q q' : Parser α} {view : α → List Child}
    {k k' : α → Parser β} (ht : Yields d.source b s row t)
    (h : c → Runs d t p p' move fun x u => Yields d.source b' t (view x) u)
    (h' : ¬ c → Runs d t q q' move fun x u => Yields d.source b' t (view x) u)
    (hk : ∀ x u, Yields d.source (b || b') s (row ++ view x) u →
      Runs d u (k x) (k' (move x)) move' post') :
    Runs d t (if c then p >>= k else q >>= k) (if c then p' >>= k' else q' >>= k') move' post' :=
  .either h h' fun x u hu => hk x u (ht.trans hu)

theorem Runs.map {f f' : α → β} (h : Runs d s p p' move post)
    (hf : ∀ x, f' (move x) = move' (f x)) (hpost : ∀ x t, post x t → post' (f x) t) :
    Runs d s (f <$> p) (f' <$> p') move' post' := by
  refine ⟨hpost _ _ h.after, ?_⟩
  rw [Stateful.run_map, h.same, hf]
  rfl

theorem Runs.get {k k' : ParserState → Parser α} (h : Runs d s (k s) (k' (d.state s)) move post) :
    Runs d s (MonadState.get >>= k) (MonadState.get >>= k') move post :=
  ⟨h.after, h.same⟩

theorem Runs.modify {f f' : ParserState → ParserState} {post : PUnit → ParserState → Prop}
    (h : post ⟨⟩ (f s)) (hf : f' (d.state s) = d.state (f s)) :
    Runs d s (modify f) (modify f') id post :=
  ⟨h, congrArg (Prod.mk PUnit.unit) hf⟩

theorem Runs.kind {k k' : TokenKind → Parser α} (h : Runs d s (k s.kind) (k' s.kind) move post) :
    Runs d s (kind >>= k) (kind >>= k') move post :=
  ⟨h.after, h.same⟩

theorem Runs.pos {k k' : Nat → Parser α}
    (h : Runs d s (k s.token.start) (k' (d.offset + s.token.start)) move post) :
    Runs d s (pos >>= k) (pos >>= k') move post :=
  ⟨h.after, h.same⟩

/-- A loop may run as often as the text has bytes left, and once more. -/
theorem Runs.budget {k k' : Nat → Parser α} (hs : s.Ready d.source)
    (h : ∀ n n', s.left d.source < n → s.left d.source < n' → Runs d s (k n) (k' n') move post) :
    Runs d s (budget >>= k) (budget >>= k') move post := by
  have hle : s.left d.source ≤ d.source.size := Nat.sub_le _ _
  have hsize : s.source.size = d.source.size := congrArg Source.size hs.source
  have htarget : d.target.size = d.offset + d.source.size := d.suffix.size
  exact ⟨(h _ _ (by omega) (by omega : _ < d.target.size + 1)).after,
    (h _ _ (by omega) (by omega : _ < d.target.size + 1)).same⟩

/-! ## Moving on -/

theorem next_passes (hs : s.Ready d.source) (hkind : s.kind ≠ .endOfFile) : Passes d true s next next :=
  .modify (hs.next_took hkind) (state_advance hs.source)

theorem jumpTo_passes {pos : Nat} (hs : s.Ready d.source) (hlands : s.Lands pos) (hlt : s.token.start < pos) :
    Passes d true s (jumpTo pos) (jumpTo (d.offset + pos)) :=
  .modify (hs.jump_took hlands hlt) (state_jump hs.source)

theorem errorHere_runs (hs : s.Ready d.source) (message : Message) (args : List String)
    (hmessage : message.isSyntax) :
    Runs d s (errorHere message args) (errorHere message args) id fun _ t =>
      Yields d.source false s [] t ∧ t.errors ≠ [] ∧ t.lexer = s.lexer :=
  .modify (hs.report message args hmessage) (state_reportHere message args)

theorem errorHere_passes (hs : s.Ready d.source) (message : Message) (args : List String)
    (hmessage : message.isSyntax) :
    Passes d false s (errorHere message args) (errorHere message args) :=
  (errorHere_runs hs message args hmessage).mono fun _ _ h => h.1

/-- A child that cannot be read is missing, and so is what has been read of it. -/
theorem failure_runs (ht : Yields d.source b s row t) (message : Message) (args : List String)
    (hmessage : message.isSyntax) :
    Runs d t (errorHere message args >>= fun _ => pure none)
      (errorHere message args >>= fun _ => pure none) d.child
      fun x u => Yields d.source b s [x] u :=
  (errorHere_runs ht.ready message args hmessage).bind fun _ u hu => by
    have hrow := (ht.on hu.1).missing fun hclean => hu.2.1 hclean.1
    rw [Bool.or_false] at hrow
    exact .pure hrow rfl

theorem accept_runs (hs : s.Ready d.source) {k : TokenKind} (hk : k ≠ .endOfFile) :
    Runs d s (accept k) (accept k) id fun found t =>
      Yields d.source found s [] t ∧ (found = true ↔ s.kind = k) ∧ (found = false → t = s) := by
  refine .kind (.ite (fun hkind => ?_) fun hkind => ?_)
  · have hkind : s.kind = k := eq_of_beq hkind
    refine (next_passes hs (hkind ▸ hk)).bind fun _ t ht => .pure ?_ rfl
    exact ⟨ht, iff_of_true rfl hkind, nofun⟩
  · exact .pure ⟨.refl hs, iff_of_false nofun (hkind ∘ beq_iff_eq.mpr), fun _ => rfl⟩ rfl

theorem accept_passes (hs : s.Ready d.source) {k : TokenKind} (hk : k ≠ .endOfFile) :
    Passes d false s (accept k) (accept k) :=
  (accept_runs hs hk).mono fun _ _ ht => ht.1.weaken

/-- Reading on behind what has been read since `s` in one of two ways, by whether a token is there. -/
theorem Runs.accept {k : TokenKind} {q q' : Parser α} (hk : k ≠ .endOfFile)
    (ht : Yields d.source b s row t) (h : ∀ u, Yields d.source true s row u →
      Yields d.source true t [] u → Runs d u p p' move post)
    (h' : t.kind ≠ k → Runs d t q q' move post) :
    Runs d t (accept k >>= fun found => if found = true then p else q)
      (accept k >>= fun found => if found = true then p' else q') move post := by
  refine (accept_runs ht.ready hk).bind fun found u ⟨hu, hkind, heq⟩ => ?_
  cases found with
  | true =>
      have hon := ht.on hu
      rw [Bool.or_true] at hon
      exact h u hon hu
  | false =>
      have hne : t.kind ≠ k := fun h => Bool.false_ne_true (hkind.mpr h)
      exact heq rfl ▸ h' hne

theorem expect_passes (hs : s.Ready d.source) {k : TokenKind} (hk : k ≠ .endOfFile) :
    Passes d false s (expect k) (expect k) :=
  .accept hk (.refl hs) (fun _ ht _ => .pure ht.weaken rfl) fun _ => errorHere_passes hs _ _ rfl

theorem expect_takes (hs : s.Ready d.source) {k : TokenKind} (hk : k ≠ .endOfFile) (hkind : s.kind = k) :
    Passes d true s (expect k) (expect k) :=
  .accept hk (.refl hs) (fun _ ht _ => .pure ht rfl) fun hne => absurd hkind hne

theorem expectWord_passes (hs : s.Ready d.source) (text : String) :
    Passes d false s (expectWord text) (expectWord text) := by
  refine .get (.ite (fun hword => ?_) fun _ => errorHere_passes hs _ _ rfl)
  have hkind : s.kind = .identifier := eq_of_beq (Bool.and_eq_true_iff.mp hword).1
  exact (next_passes hs (by rw [hkind]; decide)).mono fun _ _ ht => ht.weaken

theorem expectSemicolon_passes (hs : s.Ready d.source) :
    Passes d false s expectSemicolon expectSemicolon :=
  .accept (by decide) (.refl hs) (fun _ ht _ => .pure ht.weaken rfl)
    fun _ => .get (.ite (fun _ => .pure (.refl hs) rfl) fun _ => errorHere_passes hs _ _ rfl)

/-! ## Nodes -/

/-- A node over what has been read since `s`. -/
theorem finish_runs {form form' : Form} {modifiers : Modifiers} (ht : Yields d.source b s row t)
    (hrow : form.row = row) (hform : d.form form = form') (htook : b = true ∨ row ≠ [])
    (hlawful : form.Lawful t.arena modifiers)
    (hspells : t.Clean → form.Spells d.source s.token.start t.prevEnd) :
    Runs d t (finish form s.token.start modifiers)
      (finish form' (d.offset + s.token.start) modifiers) d.id
      fun x u => Yields d.source b s [some x] u ∧ u.left d.source = t.left d.source :=
  ⟨⟨ht.addNode hrow htook hlawful hspells, rfl⟩,
    congrArg₂ Prod.mk (size_arena d t.arena) (hform ▸ state_addNode form modifiers)⟩

theorem finishNode_runs {form form' : Form} {modifiers : Modifiers} (ht : Yields d.source b s row t)
    (hrow : form.row = row) (hform : d.form form = form') (htook : b = true ∨ row ≠ [])
    (hlawful : form.Lawful t.arena modifiers)
    (hspells : t.Clean → form.Spells d.source s.token.start t.prevEnd) :
    Runs d t (finish form s.token.start modifiers)
      (finish form' (d.offset + s.token.start) modifiers) d.id
      fun x u => Yields d.source false s [some x] u :=
  (finish_runs ht hrow hform htook hlawful hspells).mono fun _ _ hu => hu.1.weaken

theorem finishChild_runs {form form' : Form} {modifiers : Modifiers} (ht : Yields d.source b s row t)
    (hrow : form.row = row) (hform : d.form form = form') (htook : b = true ∨ row ≠ [])
    (hlawful : form.Lawful t.arena modifiers)
    (hspells : t.Clean → form.Spells d.source s.token.start t.prevEnd) :
    Runs d t (finishChild form s.token.start modifiers)
      (finishChild form' (d.offset + s.token.start) modifiers) d.child
      fun x u => Yields d.source b s [x] u ∧ u.left d.source = t.left d.source :=
  (finish_runs ht hrow hform htook hlawful hspells).map (fun _ => rfl) fun _ _ hu => hu

theorem finishLast_runs {form form' : Form} {modifiers : Modifiers} (ht : Yields d.source b s row t)
    (hrow : form.row = row) (hform : d.form form = form') (htook : b = true ∨ row ≠ [])
    (hlawful : form.Lawful t.arena modifiers)
    (hspells : t.Clean → form.Spells d.source s.token.start t.prevEnd) :
    Runs d t (finishChild form s.token.start modifiers)
      (finishChild form' (d.offset + s.token.start) modifiers) d.child
      fun x u => Yields d.source false s [x] u :=
  (finishChild_runs ht hrow hform htook hlawful hspells).mono fun _ _ hu => hu.1.weaken

/-- The node that is added has its form. -/
theorem Runs.formed {form : Form} {pos : Nat} {modifiers : Modifiers} {p' : Parser NodeId}
    {move : NodeId → NodeId} {post : NodeId → ParserState → Prop}
    (h : Runs d t (finish form pos modifiers) p' move post) :
    Runs d t (finish form pos modifiers) p' move
      fun x u => post x u ∧ u.arena.form? (some x) = some form :=
  ⟨⟨h.after, (Arena.form?_add _ _).trans (if_pos rfl)⟩, h.same⟩

/-- A hole stands before its comma, which is consumed first. -/
theorem finishHole_runs (ht : Yields d.source true s [] t) :
    Runs d t (finishHole s.token.start) (finishHole (d.offset + s.token.start)) d.id
      fun x u => Yields d.source true s [some x] u :=
  ⟨ht.add rfl rfl (le_refl _) (le_refl _) ht.onward.start ⟨ht.begins, ht.begins⟩ trivial
      fun _ => ⟨(ht.took rfl).le, trivial, trivial⟩,
    congrArg₂ Prod.mk (size_arena d t.arena)
      (state_add (d := d) { start := s.token.start, stop := s.token.start, form := .omitted })⟩

/-! ## Groups -/

theorem giveUp_runs (hs : s.Ready d.source) (hkind : s.kind ≠ .endOfFile) (opener : String) :
    Runs d s (giveUp opener) (giveUp opener) id fun _ t =>
      Yields d.source true s [] t ∧ ¬ t.Clean := by
  refine (errorHere_runs hs _ _ rfl).bind fun _ t ⟨ht, hne, hlexer⟩ => .get ?_
  have hlt : t.token.start < t.source.size := by
    rw [ht.ready.source]
    exact ht.ready.lt_size ((congrArg (·.token.kind) hlexer).trans_ne hkind)
  have htarget : (d.state t).source.size = d.offset + t.source.size := by
    rw [ht.ready.source]
    exact d.suffix.size
  rw [htarget]
  exact (jumpTo_passes ht.ready (.ending rfl) hlt).mono fun _ u hu =>
    ⟨ht.trans hu, fun hclean => hne (hu.onward.clean hclean).1⟩

/-- Stepping over a group consumes something, also where the group is never closed. -/
theorem skipGroup_passes (hs : s.Ready d.source) (hopener : isOpener s.kind = true) :
    Passes d true s skipGroup skipGroup := by
  have hkind : s.kind ≠ .endOfFile := by
    intro hkind
    rw [hkind] at hopener
    exact absurd hopener (by decide)
  have hgroup : Token.groupEnd (d.state s).source (d.state s).token.start =
      (Token.groupEnd s.source s.token.start).map (d.offset + ·) := by
    rw [hs.source]
    exact Token.groupEnd_suffix d.suffix (hs.token.opener hopener)
  refine .get ?_
  rw [hgroup]
  cases hend : Token.groupEnd s.source s.token.start with
  | some stop =>
      have hlt : s.token.start < stop := (Token.opaqueEnd_ends s.source _ _ _ stop hend).1
      exact (jumpTo_passes hs (.group hend) hlt).bind fun _ t ht => .pure ht rfl
  | none => exact (giveUp_runs hs hkind _).bind fun _ t ht => .pure ht.1 rfl

theorem block_runs (hs : s.Ready d.source) : Reads d s block block := by
  refine .kind (.ite (fun hkind => ?_) fun _ => failure_runs (.refl hs) _ _ rfl)
  have hopener : isOpener s.kind = true := by
    rw [eq_of_beq hkind]
    rfl
  refine .pos (.past (.refl hs) (skipGroup_passes hs hopener) fun _ t ht => ?_)
  exact finishLast_runs ht rfl rfl (.inl rfl) trivial fun _ => trivial

/-! ## Errors -/

theorem resyncIn_passes {n n' : Nat} (hs : s.Ready d.source) (hn : s.left d.source < n)
    (hn' : s.left d.source < n') : Passes d false s (resyncIn n) (resyncIn n') := by
  induction n generalizing s n' with
  | zero => exact absurd hn (Nat.not_lt_zero _)
  | succ n ih =>
      obtain _ | n' := n'
      · exact absurd hn' (Nat.not_lt_zero _)
      have rest {t : ParserState} (ht : Yields d.source true s [] t) :
          Runs d t (resyncIn n) (resyncIn n') id fun _ u => Yields d.source false s [] u := by
        have hlt := ht.left_lt
        exact (ih ht.ready (by omega) (by omega)).mono fun _ _ hu => (ht.on hu).weaken
      refine .get (.ite (fun _ => .pure (.refl hs) rfl) fun hend => ?_)
      have hkind : s.kind ≠ .endOfFile := fun hkind => hend (beq_iff_eq.mpr hkind)
      refine .ite (fun _ => (next_passes hs hkind).mono fun _ _ ht => ht.weaken) fun _ =>
        .ite (fun _ => .pure (.refl hs) rfl) fun _ => .ite (fun hopener => ?_) fun _ => ?_
      · refine .past (.refl hs) (skipGroup_passes hs hopener) fun _ t ht => ?_
        exact .ite (fun _ => rest ht) fun _ => .pure ht.weaken rfl
      · exact .past (.refl hs) (next_passes hs hkind) fun _ t ht => rest ht

theorem resync_passes (hs : s.Ready d.source) : Passes d false s resync resync :=
  .budget hs fun _ _ hn hn' => resyncIn_passes hs hn hn'

/-- Counting levels changes nothing else. Past the limit there is an error already, or there is one then. -/
theorem nested_runs {p p' : Parser Child} (hs : s.Ready d.source)
    (hp : ∀ t, Yields d.source false s [] t → Reads d t p p') : Reads d s (nested p) (nested p') := by
  refine .get (.ite (fun _ => .ite (fun hquiet => ?_) fun _ => ?_) fun _ => ?_)
  · exact .pure ((Yields.refl hs).missing fun hclean => hs.quiet hquiet hclean.1) rfl
  · refine (errorHere_runs hs _ _ rfl).bind fun _ t ⟨ht, hne, _⟩ => ?_
    have hhush : Yields d.source false t [] { t with quiet := true } :=
      .of_step ht.ready (.hush t hne) rfl fun h => ⟨h.nodes, h.errors, h.lexical⟩
    refine .past (.refl ht.ready) (.modify hhush rfl) fun _ u hu => ?_
    refine .past hu (resync_passes hu.ready) fun _ v hv => .pure ?_ rfl
    exact (ht.on hv).missing fun hclean => hne (hv.onward.clean hclean).1
  · have hnest : Yields d.source false s [] { s with depth := s.depth + 1 } :=
      .of_step hs (.nest s _) rfl fun h => ⟨h.nodes, h.errors, h.lexical⟩
    refine .past (.refl hs) (.modify hnest rfl) fun _ t ht => ?_
    refine .after_row ht (hp t ht) fun x u hu => ?_
    have hnest : Yields d.source false u [] { u with depth := u.depth - 1 } :=
      .of_step hu.ready (.nest u _) rfl fun h => ⟨h.nodes, h.errors, h.lexical⟩
    exact .past hu (.modify hnest rfl) fun _ v hv => .pure hv rfl

/-! ## Lists -/

/-- What stands before the end of a list, and what is read there. -/
theorem Runs.atListEnd {close : Punct} {q q' : Parser α} (h : Runs d s p p' move post)
    (h' : s.kind ≠ .endOfFile → s.kind ≠ .punct close → Runs d s q q' move post) :
    Runs d s (atListEnd close >>= fun atEnd => if atEnd = true then p else q)
      (atListEnd close >>= fun atEnd => if atEnd = true then p' else q') move post := by
  have hrun : Runs d s (Parser.atListEnd close) (Parser.atListEnd close) id fun atEnd t =>
      atEnd = (s.kind == .punct close || s.kind == .endOfFile) ∧ t = s := ⟨⟨rfl, rfl⟩, rfl⟩
  refine hrun.bind fun atEnd t ⟨hend, ht⟩ => ?_
  rw [hend, ht]
  refine .ite (fun _ => h) fun hend => h' (fun hkind => hend ?_) fun hkind => hend ?_
  · rw [hkind]
    exact Bool.or_true _
  · rw [hkind]
    exact Bool.or_eq_true_iff.mpr (.inl (beq_self_eq_true _))

section

variable {view : α → List Child} {item item' : Parser α} {m n n' : Nat}
variable {holds : Arena → α → Prop}

variable (view) in
/-- A list of items. What holds of an item when it has been read still holds when the list has been. -/
theorem commaListIn_runs (close : Punct)
    (hgrows : ∀ a b x, a.Grows b → holds a x → holds b x)
    (hitem : ∀ t, t.Ready d.source → t.left d.source ≤ m →
      Runs d t item item' move fun x u => Yields d.source false t (view x) u ∧ holds u.arena x)
    (hs : s.Ready d.source) (hm : s.left d.source ≤ m) (hn : s.left d.source < n)
    (hn' : s.left d.source < n') :
    Runs d s (commaListIn close item n) (commaListIn close item' n') (List.map move)
      fun xs t => Yields d.source false s (xs.flatMap view) t ∧ ∀ x ∈ xs, holds t.arena x := by
  induction n generalizing s n' with
  | zero => exact absurd hn (Nat.not_lt_zero _)
  | succ n ih =>
      obtain _ | n' := n'
      · exact absurd hn' (Nat.not_lt_zero _)
      refine .atListEnd (.pure ⟨.refl hs, nofun⟩ rfl) fun _ _ => ?_
      refine (hitem s hs hm).bind fun x t ⟨ht, hx⟩ => .accept (by decide) ht (fun u hu htu => ?_) fun _ => ?_
      · have hlt := hu.left_lt
        refine .bind (ih hu.ready (by omega) (by omega) (by omega)) fun xs v ⟨hv, hxs⟩ => .pure ⟨?_, ?_⟩ rfl
        · rw [List.flatMap_cons]
          exact (hu.trans hv).weaken
        · exact List.forall_mem_cons.mpr ⟨hgrows _ _ _ (htu.trans hv).grows hx, hxs⟩
      · refine .pure ⟨?_, fun _ hy => List.mem_singleton.mp hy ▸ hx⟩ rfl
        rwa [List.flatMap_singleton]

theorem commaList_runs (close : Punct)
    (hgrows : ∀ a b x, a.Grows b → holds a x → holds b x)
    (hitem : ∀ t, t.Ready d.source → t.left d.source ≤ m →
      Runs d t item item' move fun x u => Yields d.source false t (view x) u ∧ holds u.arena x)
    (hs : s.Ready d.source) (hm : s.left d.source ≤ m) :
    Runs d s (commaList close item) (commaList close item') (List.map move)
      fun xs t => Yields d.source false s (xs.flatMap view) t ∧ ∀ x ∈ xs, holds t.arena x := by
  refine .budget hs fun n n' hn hn' => ?_
  refine (commaListIn_runs view close hgrows hitem hs hm hn hn').bind fun xs t ⟨ht, hxs⟩ => ?_
  refine .bind (expect_passes ht.ready nofun) fun _ u hu => .pure ⟨ht.on hu, fun x hx => ?_⟩ rfl
  exact hgrows _ _ _ hu.grows (hxs x hx)

variable (view) in
theorem holedListIn_runs {hole hole' : Parser α}
    (hhole : ∀ t, t.Ready d.source → t.kind = .punct .comma →
      Runs d t hole hole' move fun x u => Yields d.source true t (view x) u)
    (hitem : ∀ t, t.Ready d.source → t.left d.source ≤ m →
      Runs d t item item' move fun x u => Yields d.source false t (view x) u)
    (hs : s.Ready d.source) (hm : s.left d.source ≤ m) (hn : s.left d.source < n)
    (hn' : s.left d.source < n') :
    Runs d s (holedListIn hole item n) (holedListIn hole' item' n') (List.map move)
      fun xs t => Yields d.source false s (xs.flatMap view) t := by
  induction n generalizing s n' with
  | zero => exact absurd hn (Nat.not_lt_zero _)
  | succ n ih =>
      obtain _ | n' := n'
      · exact absurd hn' (Nat.not_lt_zero _)
      have rest {x : α} {t : ParserState} (ht : Yields d.source true s (view x) t) :
          Runs d t (holedListIn hole item n >>= fun xs => pure (x :: xs))
            (holedListIn hole' item' n' >>= fun xs => pure (move x :: xs)) (List.map move)
            fun xs u => Yields d.source false s (xs.flatMap view) u := by
        have hlt := ht.left_lt
        refine .after_row ht (ih ht.ready (by omega) (by omega) (by omega)) fun xs v hv => ?_
        exact .pure (List.flatMap_cons ▸ hv.weaken) rfl
      refine .atListEnd (.pure (.refl hs) rfl) fun _ _ => .kind (.ite (fun hcomma => ?_) fun _ => ?_)
      · exact (hhole s hs (eq_of_beq hcomma)).bind fun x t ht => rest ht
      · refine (hitem s hs hm).bind fun x t ht => .accept (by decide) ht (fun u hu _ => rest hu) fun _ => ?_
        refine .pure ?_ rfl
        rwa [List.flatMap_singleton]

theorem holedList_runs {hole hole' : Parser α}
    (hhole : ∀ t, t.Ready d.source → t.kind = .punct .comma →
      Runs d t hole hole' move fun x u => Yields d.source true t (view x) u)
    (hitem : ∀ t, t.Ready d.source → t.left d.source ≤ m →
      Runs d t item item' move fun x u => Yields d.source false t (view x) u)
    (hs : s.Ready d.source) (hm : s.left d.source ≤ m) :
    Runs d s (holedList hole item) (holedList hole' item') (List.map move)
      fun xs t => Yields d.source false s (xs.flatMap view) t := by
  refine .budget hs fun n n' hn hn' => ?_
  refine (holedListIn_runs view hhole hitem hs hm hn hn').bind fun xs t ht => ?_
  exact .past ht (expect_passes ht.ready (by decide)) fun _ u hu => .pure hu rfl

end

section

variable {m : Nat}

theorem commaList_children {item item' : Parser Child} (close : Punct)
    (hitem : ∀ t, t.Ready d.source → t.left d.source ≤ m → Reads d t item item')
    (hs : s.Ready d.source) (hm : s.left d.source ≤ m) :
    Runs d s (commaList close item) (commaList close item') (List.map d.child)
      fun xs t => Yields d.source false s xs t :=
  (commaList_runs close (fun _ _ _ _ (h : True) => h)
    (fun t ht hle => (hitem t ht hle).mono fun _ _ hu => ⟨hu, trivial⟩) hs hm).mono fun xs _ ht => by
      simpa only [List.flatMap_singleton'] using ht.1

theorem commaList_nodes {holds : Arena → NodeId → Prop} {item item' : Parser NodeId} (close : Punct)
    (hgrows : ∀ a b x, a.Grows b → holds a x → holds b x)
    (hitem : ∀ t, t.Ready d.source → t.left d.source ≤ m →
      Runs d t item item' d.id fun x u => Yields d.source false t [some x] u ∧ holds u.arena x)
    (hs : s.Ready d.source) (hm : s.left d.source ≤ m) :
    Runs d s (commaList close item) (commaList close item') (List.map d.id)
      fun xs t => Yields d.source false s (xs.map some) t ∧ ∀ x ∈ xs, holds t.arena x :=
  (commaList_runs close hgrows hitem hs hm).mono fun xs _ ht => by rwa [← List.map_eq_flatMap] at ht

theorem holedList_children {hole hole' item item' : Parser Child}
    (hhole : ∀ t, t.Ready d.source → t.kind = .punct .comma →
      Runs d t hole hole' d.child fun x u => Yields d.source true t [x] u)
    (hitem : ∀ t, t.Ready d.source → t.left d.source ≤ m → Reads d t item item')
    (hs : s.Ready d.source) (hm : s.left d.source ≤ m) :
    Runs d s (holedList hole item) (holedList hole' item') (List.map d.child)
      fun xs t => Yields d.source false s xs t :=
  (holedList_runs hhole hitem hs hm).mono fun xs _ ht => by rwa [List.flatMap_singleton'] at ht

theorem holedList_nodes {hole hole' item item' : Parser NodeId}
    (hhole : ∀ t, t.Ready d.source → t.kind = .punct .comma →
      Runs d t hole hole' d.id fun x u => Yields d.source true t [some x] u)
    (hitem : ∀ t, t.Ready d.source → t.left d.source ≤ m → ReadsNode d t item item')
    (hs : s.Ready d.source) (hm : s.left d.source ≤ m) :
    Runs d s (holedList hole item) (holedList hole' item') (List.map d.id)
      fun xs t => Yields d.source false s (xs.map some) t :=
  (holedList_runs hhole hitem hs hm).mono fun xs _ ht => by rwa [← List.map_eq_flatMap] at ht

end

end Parser

end PropContract
