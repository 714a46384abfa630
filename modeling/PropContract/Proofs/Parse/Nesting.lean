import PropContract.Parse.Module
import PropContract.Proofs.Stateful
import PropContract.Proofs.Tree.Nesting

/-!
# What reading builds

Whatever the parser reads, the nodes that are there stay, and as many expressions are open afterwards as
before. What it builds is known from how many more may be opened. There is one rule for each way to put
programs together, and one lemma for each thing the parser does between the constructs of the language.
-/

namespace PropContract

namespace ParserState

/-- How many more expressions may be opened. -/
def room (s : ParserState) : Nat := maxExpressionDepth - s.depth

/-- Whether a later state has all the nodes, and the same expressions are open. -/
structure Extends (s t : ParserState) : Prop where
  grows : s.arena.Grows t.arena
  depth : t.depth = s.depth

variable {s t u : ParserState} {r : Nat}

theorem Extends.refl (s : ParserState) : s.Extends s := ⟨.refl _, rfl⟩

theorem Extends.trans (h : s.Extends t) (h' : t.Extends u) : s.Extends u :=
  ⟨h.grows.trans h'.grows, h'.depth.trans h.depth⟩

theorem Extends.room_eq (h : s.Extends t) (hs : s.room = r) : t.room = r := by
  rw [room, h.depth]
  exact hs

end ParserState

namespace Parser

open ParserState

/-- What holds of the result of `p`, in the tree that it leaves behind. -/
structure Builds {α : Type} (s : ParserState) (p : Parser α) (post : Arena → α → Prop) : Prop where
  keeps : s.Extends (p.run s).2
  after : post (p.run s).2.arena (p.run s).1

/-- Whether a program builds nothing. -/
abbrev BuildsNothing {α : Type} (s : ParserState) (p : Parser α) : Prop :=
  Builds s p fun _ _ => True

/-- A child that nests at most so deep. -/
abbrev BuildsChild (s : ParserState) (p : Parser Child) (n : Nat) : Prop :=
  Builds s p fun a c => a.Nests n c

/-- A child that is never missing. -/
abbrev BuildsNode (s : ParserState) (p : Parser NodeId) (n : Nat) : Prop :=
  Builds s p fun a id => a.Nests n (some id)

variable {α β : Type} {s t : ParserState} {p q : Parser α} {post post' : Arena → α → Prop}
variable {postβ : Arena → β → Prop} {n m : Nat}

/-! ## Putting programs together -/

theorem Builds.mono (h : Builds s p post) (hpost : ∀ a x, post a x → post' a x) : Builds s p post' :=
  ⟨h.keeps, hpost _ _ h.after⟩

theorem BuildsChild.weaken {p : Parser Child} (h : BuildsChild s p m) (hle : m ≤ n) : BuildsChild s p n :=
  Builds.mono h fun _ _ hx => hx.weaken hle

theorem Builds.pure {x : α} (h : post s.arena x) : Builds s (Pure.pure x) post := ⟨.refl s, h⟩

theorem Builds.bind {k : α → Parser β} (h : Builds s p post)
    (hk : ∀ x t, s.Extends t → post t.arena x → Builds t (k x) postβ) : Builds s (p >>= k) postβ := by
  obtain ⟨hkeeps, hafter⟩ := hk _ _ h.keeps h.after
  exact ⟨h.keeps.trans hkeeps, hafter⟩

/-- Going on behind a program that builds nothing. -/
theorem Builds.past {k : α → Parser β} (h : BuildsNothing s p)
    (hk : ∀ x t, s.Extends t → Builds t (k x) postβ) : Builds s (p >>= k) postβ :=
  h.bind fun x t hst _ => hk x t hst

theorem Builds.ite {c : Prop} [Decidable c] (h : Builds s p post) (h' : Builds s q post) :
    Builds s (if c then p else q) post := by
  split
  · exact h
  · exact h'

/-- Passing over something only under a condition. -/
theorem Builds.when {c : Prop} [Decidable c] {q : Parser Unit} {k : Unit → Parser α} (h : BuildsNothing s q)
    (hk : ∀ t, s.Extends t → Builds t (k ⟨⟩) post) : Builds s (if c then q >>= k else k ⟨⟩) post :=
  .ite (.past h fun _ => hk) (hk s (.refl s))

theorem Builds.map {f : α → β} (h : Builds s p post) (hf : ∀ a x, post a x → postβ a (f x)) :
    Builds s (f <$> p) postβ :=
  ⟨h.keeps, hf _ _ h.after⟩

theorem Builds.get {k : ParserState → Parser α} (h : Builds s (k s) post) :
    Builds s (MonadState.get >>= k) post :=
  ⟨h.keeps, h.after⟩

theorem Builds.kind {k : TokenKind → Parser α} (h : Builds s (k s.kind) post) :
    Builds s (kind >>= k) post :=
  ⟨h.keeps, h.after⟩

theorem Builds.pos {k : Nat → Parser α} (h : Builds s (k s.token.start) post) :
    Builds s (pos >>= k) post :=
  ⟨h.keeps, h.after⟩

theorem Builds.budget {k : Nat → Parser α} (h : ∀ n, Builds s (k n) post) :
    Builds s (budget >>= k) post :=
  ⟨(h _).keeps, (h _).after⟩

/-! ## Moving on -/

theorem next_builds (s : ParserState) : BuildsNothing s next := ⟨⟨.refl _, rfl⟩, trivial⟩

theorem jumpTo_builds (s : ParserState) (pos : Nat) : BuildsNothing s (jumpTo pos) := ⟨⟨.refl _, rfl⟩, trivial⟩

theorem errorHere_builds (s : ParserState) (message : Message) (args : List String) :
    BuildsNothing s (errorHere message args) := by
  have hkeeps : s.Extends (s.reportHere message args) := by
    rw [reportHere, report]
    split <;> exact ⟨.refl _, rfl⟩
  exact ⟨hkeeps, trivial⟩

/-- A child that cannot be read is missing. -/
theorem failure_builds (s : ParserState) (message : Message) (args : List String) :
    BuildsChild s (errorHere message args >>= fun _ => pure none) n :=
  .past (errorHere_builds s _ _) fun _ _ _ => .pure .none

theorem accept_builds (s : ParserState) (k : TokenKind) : BuildsNothing s (accept k) :=
  .kind (.ite (.past (next_builds s) fun _ _ _ => .pure trivial) (.pure trivial))

/-- Going on in one of two ways, by whether a token is there. -/
theorem Builds.accept {k : TokenKind} (h : ∀ t, s.Extends t → Builds t p post)
    (h' : ∀ t, s.Extends t → Builds t q post) :
    Builds s (accept k >>= fun found => if found = true then p else q) post :=
  .past (accept_builds s k) fun _ t hst => .ite (h t hst) (h' t hst)

theorem expect_builds (s : ParserState) (k : TokenKind) : BuildsNothing s (expect k) :=
  .accept (fun _ _ => .pure trivial) fun t _ => errorHere_builds t _ _

theorem expectWord_builds (s : ParserState) (text : String) : BuildsNothing s (expectWord text) :=
  .get (.ite (next_builds s) (errorHere_builds s _ _))

theorem expectSemicolon_builds (s : ParserState) : BuildsNothing s expectSemicolon :=
  .accept (fun _ _ => .pure trivial) fun t _ => .get (.ite (.pure trivial) (errorHere_builds t _ _))

/-! ## Nodes -/

/-- A node whose children allow it to nest so deep. -/
theorem finish_builds {form : Form} {pos : Nat} {modifiers : Modifiers} (h : s.arena.Slots n form) :
    BuildsNode s (finish form pos modifiers) (n + 1) where
  keeps := ⟨Arena.grows_add _, rfl⟩
  after := Arena.nests_add h

theorem finishChild_builds {form : Form} {pos : Nat} {modifiers : Modifiers} (h : s.arena.Slots n form) :
    BuildsChild s (finishChild form pos modifiers) (n + 1) :=
  .map (finish_builds h) fun _ _ hx => hx

theorem finishHole_builds (s : ParserState) (pos : Nat) : BuildsNode s (finishHole pos) 1 where
  keeps := ⟨Arena.grows_add _, rfl⟩
  after := Arena.nests_add (Arena.slots_nil rfl)

/-! ## Groups -/

theorem giveUp_builds (s : ParserState) (opener : String) : BuildsNothing s (giveUp opener) :=
  .past (errorHere_builds s _ _) fun _ t _ => .get (jumpTo_builds t _)

theorem skipGroup_builds (s : ParserState) : BuildsNothing s skipGroup := by
  refine .get ?_
  split
  · exact .past (jumpTo_builds s _) fun _ _ _ => .pure trivial
  · exact .past (giveUp_builds s _) fun _ _ _ => .pure trivial

theorem block_builds (s : ParserState) : BuildsChild s block 1 :=
  .kind (.ite (.pos (.past (skipGroup_builds s) fun _ _ _ => finishChild_builds (Arena.slots_nil rfl)))
    (failure_builds s _ _))

/-! ## Errors -/

theorem resyncIn_builds (s : ParserState) (n : Nat) : BuildsNothing s (resyncIn n) := by
  induction n generalizing s with
  | zero => exact .pure trivial
  | succ n ih =>
      refine .get (.ite (.pure trivial) (.ite (next_builds s) (.ite (.pure trivial) (.ite ?_ ?_))))
      · exact .past (skipGroup_builds s) fun _ t _ => .ite (ih t) (.pure trivial)
      · exact .past (next_builds s) fun _ t _ => ih t

theorem resync_builds (s : ParserState) : BuildsNothing s resync :=
  .budget fun n => resyncIn_builds s n

/-- One more level is open inside. Where no more may be opened, nothing is read. -/
theorem nested_builds {p : Parser Child} {r : Nat} (hs : s.room = r)
    (hp : ∀ t r', r = r' + 1 → t.room = r' → BuildsChild t p n) : BuildsChild s (nested p) n := by
  refine .get ?_
  split
  · refine .ite (.pure .none) (.past (errorHere_builds s _ _) fun _ t _ => ?_)
    have hhush : BuildsNothing t (modify fun s => { s with quiet := true }) := ⟨⟨.refl _, rfl⟩, trivial⟩
    exact .past hhush fun _ u _ => .past (resync_builds u) fun _ _ _ => .pure .none
  · rename_i hroom
    obtain ⟨r, rfl⟩ : ∃ r', r = r' + 1 := ⟨r - 1, by rw [room] at hs; omega⟩
    have hbelow : ({ s with depth := s.depth + 1 } : ParserState).room = r := by
      rw [room] at hs ⊢
      change maxExpressionDepth - (s.depth + 1) = r
      omega
    obtain ⟨hkeeps, hafter⟩ := hp _ r rfl hbelow
    refine ⟨⟨hkeeps.grows, ?_⟩, hafter⟩
    change (p.run { s with depth := s.depth + 1 }).2.depth - 1 = s.depth
    rw [hkeeps.depth]
    rfl

/-! ## Lists -/

section

variable {item : Parser α} {r : Nat}

theorem atListEnd_builds (s : ParserState) (close : Punct) : BuildsNothing s (atListEnd close) :=
  .kind (.pure trivial)

/-- A list of items. What holds of an item when it has been read still holds when the list has been. -/
theorem commaListIn_builds (close : Punct) (hgrows : ∀ a b x, a.Grows b → post a x → post b x)
    (hitem : ∀ t, t.room = r → Builds t item post) (hs : s.room = r) (n : Nat) :
    Builds s (commaListIn close item n) fun a xs => ∀ x ∈ xs, post a x := by
  induction n generalizing s with
  | zero => exact .pure nofun
  | succ n ih =>
      refine .past (atListEnd_builds s close) fun _ t hst => .ite (.pure nofun) ?_
      have ht := hst.room_eq hs
      refine .bind (hitem t ht) fun x u htu hx => .accept (fun v huv => ?_) fun v huv => .pure ?_
      · refine .bind (ih ((htu.trans huv).room_eq ht)) fun xs w hvw hxs => .pure ?_
        exact List.forall_mem_cons.mpr ⟨hgrows _ _ _ (huv.trans hvw).grows hx, hxs⟩
      · exact List.forall_mem_singleton.mpr (hgrows _ _ _ huv.grows hx)

theorem commaList_builds (close : Punct) (hgrows : ∀ a b x, a.Grows b → post a x → post b x)
    (hitem : ∀ t, t.room = r → Builds t item post) (hs : s.room = r) :
    Builds s (commaList close item) fun a xs => ∀ x ∈ xs, post a x := by
  refine .budget fun n => .bind (commaListIn_builds close hgrows hitem hs n) fun xs t _ hxs => ?_
  refine .past (expect_builds t _) fun _ u htu => .pure fun x hx => ?_
  exact hgrows _ _ _ htu.grows (hxs x hx)

theorem holedListIn_builds {hole : Parser α} (hgrows : ∀ a b x, a.Grows b → post a x → post b x)
    (hhole : ∀ t, Builds t hole post) (hitem : ∀ t, t.room = r → Builds t item post) (hs : s.room = r)
    (n : Nat) : Builds s (holedListIn hole item n) fun a xs => ∀ x ∈ xs, post a x := by
  induction n generalizing s with
  | zero => exact .pure nofun
  | succ n ih =>
      have rest {x : α} {t : ParserState} (ht : t.room = r) (hx : post t.arena x) :
          Builds t (holedListIn hole item n >>= fun xs => pure (x :: xs)) fun a xs => ∀ x ∈ xs, post a x := by
        refine .bind (ih ht) fun xs u htu hxs => .pure ?_
        exact List.forall_mem_cons.mpr ⟨hgrows _ _ _ htu.grows hx, hxs⟩
      refine .past (atListEnd_builds s _) fun _ t hst => .ite (.pure nofun) (.kind (.ite ?_ ?_))
      · exact .bind (hhole t) fun x u htu hx => rest (htu.room_eq (hst.room_eq hs)) hx
      · refine .bind (hitem t (hst.room_eq hs)) fun x u htu hx => .accept (fun v huv => ?_) fun v huv => .pure ?_
        · exact rest ((htu.trans huv).room_eq (hst.room_eq hs)) (hgrows _ _ _ huv.grows hx)
        · exact List.forall_mem_singleton.mpr (hgrows _ _ _ huv.grows hx)

theorem holedList_builds {hole : Parser α} (hgrows : ∀ a b x, a.Grows b → post a x → post b x)
    (hhole : ∀ t, Builds t hole post) (hitem : ∀ t, t.room = r → Builds t item post) (hs : s.room = r) :
    Builds s (holedList hole item) fun a xs => ∀ x ∈ xs, post a x := by
  refine .budget fun n => .bind (holedListIn_builds hgrows hhole hitem hs n) fun xs t _ hxs => ?_
  refine .past (expect_builds t _) fun _ u htu => .pure fun x hx => ?_
  exact hgrows _ _ _ htu.grows (hxs x hx)

end

end Parser

end PropContract
