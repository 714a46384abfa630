import PropContract.Proofs.Parse.Runs

/-!
# Runs of expressions

Every kind of expression is read the same in both places, and consumes what it yields.
-/

namespace PropContract

open Text ParserState Displacement

/-- How many levels of expressions there may be between two tokens, from this kind on. -/
def ExpressionKind.rank : ExpressionKind → Nat
  | .assignment => 4
  | .binary _ => 3
  | .unary => 2
  | .leftHandSide => 1
  | .new => 0

theorem ExpressionKind.rank_le (k : ExpressionKind) : k.rank ≤ 4 := by
  cases k <;> simp [rank]

namespace Parser

variable {d : Displacement} {s t : ParserState} {b : Bool} {row : List Child}

/-! ## Names and literals -/

theorem ne_endOfFile_of_isWord {text : String} (h : s.isWord text = true) : s.kind ≠ .endOfFile := by
  have hkind : s.kind = .identifier := eq_of_beq (Bool.and_eq_true_iff.mp h).1
  rw [hkind]
  exact TokenKind.noConfusion

/-- The current token as a node. -/
theorem nextNode_takes {form : Form} (hs : s.Ready d.source) (hkind : s.kind ≠ .endOfFile)
    (hrow : form.row = []) (hform : d.form form = form)
    (hlawful : ∀ a, form.Lawful a {})
    (hspells : s.token.Spelled d.source → form.Spells d.source s.token.start s.token.stop) :
    Runs d s (next >>= fun _ => finishChild form s.token.start)
      (next >>= fun _ => finishChild form (d.offset + s.token.start)) d.child
      fun x t => Yields d.source true s [x] t := by
  have hnext : Runs d s next next id fun _ t => Yields d.source true s [] t ∧ t.prevEnd = s.token.stop :=
    .modify ⟨hs.next_took hkind, rfl⟩ (state_advance hs.source)
  refine hnext.bind fun _ t ⟨ht, hprev⟩ => ?_
  refine .mono (finishChild_runs ht hrow hform (.inl rfl) (hlawful _) fun hclean => ?_) fun _ _ hu => hu.1
  rw [hprev]
  exact hspells (hs.spelled (ht.onward.clean hclean).2)

theorem nextNode_runs {form : Form} (hs : s.Ready d.source) (hkind : s.kind ≠ .endOfFile)
    (hrow : form.row = []) (hform : d.form form = form)
    (hlawful : ∀ a, form.Lawful a {})
    (hspells : s.token.Spelled d.source → form.Spells d.source s.token.start s.token.stop) :
    Reads d s (next >>= fun _ => finishChild form s.token.start)
      (next >>= fun _ => finishChild form (d.offset + s.token.start)) :=
  (nextNode_takes hs hkind hrow hform hlawful hspells).mono fun _ _ ht => ht.weaken

theorem literal_takes {kind : LiteralKind} {k : TokenKind} (hs : s.Ready d.source) (hkind : s.kind = k)
    (hk : k ≠ .endOfFile)
    (hlawful : ∀ text, (k.isNumber = true → Numeral.IsNumeral text) →
      ∀ a, (Form.literal kind text).Lawful a {})
    (hspells : ∀ start stop text, k.Spells d.source start stop text →
      (Form.literal kind text).Spells d.source start stop) :
    Runs d s (literal kind) (literal kind) d.child fun x t => Yields d.source true s [x] t :=
  .get (nextNode_takes hs (hkind ▸ hk) rfl rfl (hlawful _ (hkind ▸ hs.numbered)) fun h =>
    hspells _ _ _ (hkind ▸ h))

theorem literal_runs {kind : LiteralKind} {k : TokenKind} (hs : s.Ready d.source) (hkind : s.kind = k)
    (hk : k ≠ .endOfFile)
    (hlawful : ∀ text, (k.isNumber = true → Numeral.IsNumeral text) →
      ∀ a, (Form.literal kind text).Lawful a {})
    (hspells : ∀ start stop text, k.Spells d.source start stop text →
      (Form.literal kind text).Spells d.source start stop) :
    Reads d s (literal kind) (literal kind) :=
  (literal_takes hs hkind hk hlawful hspells).mono fun _ _ ht => ht.weaken

theorem constant_runs {word : ConstantWord} (hs : s.Ready d.source) (hkind : s.kind ≠ .endOfFile) :
    Reads d s (constant word) (constant word) :=
  .get (nextNode_runs hs hkind rfl rfl (fun _ => trivial) fun _ => trivial)

theorem privateIdentifier_runs (hs : s.Ready d.source) (hkind : s.kind = .privateIdentifier) :
    Reads d s (tokenNode .privateIdentifier) (tokenNode .privateIdentifier) := by
  refine .get (nextNode_runs hs (by rw [hkind]; exact nofun) rfl rfl (fun _ => trivial) fun h => ?_)
  rwa [Token.Spelled, show s.token.kind = .privateIdentifier from hkind] at h

theorem identifierName_runs (hs : s.Ready d.source) : Reads d s identifierName identifierName := by
  refine .get (.ite (fun hname => ?_) fun _ => failure_runs (.refl hs) _ _ rfl)
  have hkind : s.token.kind = .identifier ∨ ∃ w, s.token.kind = .keyword w := by
    rw [ParserState.isName, ParserState.kind] at hname
    cases hkind : s.token.kind <;> simp [hkind, TokenKind.isKeyword] at hname ⊢
  refine nextNode_runs hs ?_ rfl rfl (fun _ => trivial) fun h => ?_
  · rcases hkind with hkind | ⟨w, hkind⟩ <;> exact ne_of_eq_of_ne hkind TokenKind.noConfusion
  · rw [Token.Spelled] at h
    rcases hkind with hkind | ⟨w, hkind⟩ <;> rwa [hkind] at h

theorem identifier_runs (hs : s.Ready d.source) : Reads d s identifier identifier :=
  .kind (.ite (fun _ => identifierName_runs hs) fun _ => failure_runs (.refl hs) _ _ rfl)

theorem identifier?_runs (hs : s.Ready d.source) : ReadsMaybe d s identifier? identifier? :=
  .kind (.ite (fun _ => (identifierName_runs hs).mono fun _ _ ht => ht.optional) fun _ =>
    .pure (.refl hs) rfl)

theorem memberName_runs (hs : s.Ready d.source) : Reads d s memberName memberName :=
  .kind (.ite (fun hkind => privateIdentifier_runs hs (eq_of_beq hkind)) fun _ =>
    identifierName_runs hs)

/-! ## Functions -/

theorem functionLike_runs (hs : s.Ready d.source) (modifiers : Modifiers) :
    Runs d s (functionLike modifiers) (functionLike modifiers)
      (fun x => (x.1, d.child x.2.1, d.child x.2.2))
      fun x t => Yields d.source false s (Form.optional x.2.1 ++ [x.2.2]) t := by
  refine .get (.when (.refl hs) (fun hasync => next_passes hs (ne_endOfFile_of_isWord hasync))
    fun t ht => ?_)
  refine .past ht (expect_passes ht.ready (by decide)) fun _ t ht => ?_
  refine .past ht (accept_passes ht.ready (by decide)) fun isGenerator t ht => ?_
  refine .after_row ht (identifier?_runs ht.ready) fun name t ht => .kind ?_
  refine .ite (fun hkind => ?_) fun _ => ?_
  · refine .past ht (skipGroup_passes ht.ready ?_) fun _ t ht => ?_
    · rw [eq_of_beq hkind]
      rfl
    · exact .after_row ht (block_runs ht.ready) fun body t ht => .pure ht.weaken rfl
  · refine .past ht (errorHere_passes ht.ready _ _ rfl) fun _ t ht => ?_
    exact .after_row ht (block_runs ht.ready) fun body t ht => .pure ht.weaken rfl

theorem functionExpression_runs (hs : s.Ready d.source) :
    Reads d s functionExpression functionExpression := by
  refine .pos ((functionLike_runs hs _).bind fun ⟨modifiers, name, body⟩ t ht => ?_)
  exact finishLast_runs ht rfl rfl (.inr (List.append_ne_nil_of_right_ne_nil _ nofun)) trivial fun _ => trivial

/-- A method whose parameters begin here. -/
theorem method?_runs {modifiers : Modifiers} {name : NodeId} (ht : Yields d.source b s [some name] t)
    (hkind : t.kind = .punct .openParen) :
    Runs d t (method? s.token.start modifiers name)
      (method? (d.offset + s.token.start) modifiers (d.id name)) d.child
      fun x u => Yields d.source false s [x] u := by
  refine .kind (.ite (fun _ => ?_) fun hne => absurd (beq_iff_eq.mpr hkind) hne)
  refine .past ht (skipGroup_passes ht.ready (by rw [hkind]; rfl)) fun _ u hu => ?_
  refine .after_row hu (block_runs hu.ready) fun body v hv => ?_
  exact finishLast_runs hv rfl rfl (.inr nofun) trivial fun _ => trivial

/-! ## Markup -/

theorem markup_runs (hs : s.Ready d.source) (hkind : s.kind ≠ .endOfFile) : Reads d s markup markup := by
  have hmarkup : Token.markupEnd (d.state s).source (d.state s).token.start =
      (Token.markupEnd s.source s.token.start).map (d.offset + ·) := by
    rw [hs.source]
    exact Token.markupEnd_suffix d.suffix
  refine .get ?_
  rw [hmarkup]
  cases hend : Token.markupEnd s.source s.token.start with
  | some stop =>
      have hlt : s.token.start < stop := (Token.opaqueEnd_ends s.source _ _ _ stop hend).1
      refine (jumpTo_passes hs (.markup hend) hlt).bind fun _ t ht => ?_
      exact finishLast_runs ht rfl rfl (.inl rfl) trivial fun _ => trivial
  | none =>
      exact (giveUp_runs hs hkind _).bind fun _ t ⟨ht, hnot⟩ => .pure (ht.missing hnot).weaken rfl

/-! ## Expressions over smaller expressions -/

/-- Whether all kinds of expression are read, as long as no more of the text is left than `bound` allows. -/
def Parses (d : Displacement) (bound : Nat) (parse parse' : ExpressionKind → Parser Child) : Prop :=
  ∀ k s, s.Ready d.source → 6 * s.left d.source + k.rank < bound →
    (k = .new → s.kind = .keyword .newWord) → Reads d s (parse k) (parse' k)

section

variable {parse parse' : ExpressionKind → Parser Child} {bound r n n' : Nat}
variable {α : Type} {move : α → α} {post : α → ParserState → Prop}

/-- Once a token is consumed, expressions of all kinds may follow. -/
theorem within (ht : Yields d.source true s row t) (h : 6 * s.left d.source ≤ bound) :
    6 * t.left d.source + 4 < bound := by
  have hlt := ht.left_lt
  omega

/-- Reading an expression behind what has been read since `s`. -/
theorem Parses.after (hp : Parses d bound parse parse') (k : ExpressionKind)
    (ht : Yields d.source b s row t) (hbound : 6 * t.left d.source + k.rank < bound) (hnew : k ≠ .new)
    {f f' : Child → Parser α}
    (hf : ∀ x u, Yields d.source b s (row ++ [x]) u → Runs d u (f x) (f' (d.child x)) move post) :
    Runs d t (parse k >>= f) (parse' k >>= f') move post := by
  refine .after_row ht (hp k t ht.ready hbound fun h => absurd h hnew) fun x u hu => hf x u ?_
  rwa [Bool.or_false] at hu

theorem commaRest_runs {first : Child} (hp : Parses d bound parse parse')
    (ht : Yields d.source b s [first] t) (hbound : 6 * t.left d.source ≤ bound)
    (hn : t.left d.source < n) (hn' : t.left d.source < n') :
    Runs d t (commaRest parse s.token.start n first)
      (commaRest parse' (d.offset + s.token.start) n' (d.child first)) d.child
      fun x u => Yields d.source false s [x] u := by
  induction n generalizing b t n' first with
  | zero => exact absurd hn (Nat.not_lt_zero _)
  | succ n ih =>
      obtain _ | n' := n'
      · exact absurd hn' (Nat.not_lt_zero _)
      refine .accept (by decide) ht (fun u hu htu => ?_) fun _ => .pure ht.weaken rfl
      refine (hp .assignment u hu.ready (within htu hbound) nofun).bind fun right v hv => ?_
      refine .bind (finishChild_runs (hu.trans hv) rfl rfl (.inl rfl) trivial fun _ => trivial)
        fun x w ⟨hw, hleft⟩ => ?_
      have hlt := htu.left_lt
      have hle := hv.left_le
      exact ih hw (by omega) (by omega) (by omega)

theorem commaExpression_runs (hp : Parses d bound parse parse') (hs : s.Ready d.source)
    (hbound : 6 * s.left d.source + 4 < bound) :
    Reads d s (commaExpression parse) (commaExpression parse') := by
  refine .pos (hp.after .assignment (.refl hs) hbound nofun fun first t ht => ?_)
  have hle := ht.left_le
  exact .budget ht.ready fun n n' hn hn' => commaRest_runs hp ht (by omega) hn hn'

theorem element_runs (hp : Parses d bound parse parse') (hs : s.Ready d.source)
    (hbound : 6 * s.left d.source + 4 < bound) :
    Reads d s (element parse) (element parse') := by
  refine .pos (.accept (by decide) (.refl hs) (fun t ht _ => ?_) fun _ => hp _ s hs hbound nofun)
  refine hp.after .assignment ht (within ht (by omega)) nofun fun e u hu => ?_
  exact finishLast_runs hu rfl rfl (.inl rfl) trivial fun _ => trivial

theorem callArguments_runs (hp : Parses d bound parse parse') (hs : s.Ready d.source)
    (hbound : 6 * s.left d.source ≤ bound) (hkind : s.kind = .punct .openParen) :
    Runs d s (callArguments parse) (callArguments parse') (List.map d.child)
      fun xs t => Yields d.source true s xs t := by
  refine .past (.refl hs) (expect_takes hs (by decide) hkind) fun _ t ht => ?_
  have hwithin := within ht hbound
  refine (commaList_children .closeParen (fun u hu hle => element_runs hp hu (by omega)) ht.ready
    (le_refl _)).mono fun xs u hu => ?_
  exact ht.trans hu

theorem propertyName_runs (hp : Parses d bound parse parse') (hs : s.Ready d.source)
    (hbound : 6 * s.left d.source ≤ bound) :
    Reads d s (propertyName parse) (propertyName parse') := by
  have hkind : (d.state s).kind = s.kind := rfl
  refine .get ?_
  rw [hkind]
  split
  · rename_i hkind
    exact literal_runs hs hkind (by decide) (fun _ _ _ => trivial) fun _ _ _ h => h
  · rename_i hkind
    exact literal_runs hs hkind (by decide) (fun _ h _ => h rfl) fun _ _ _ h => h
  · rename_i hkind
    exact literal_runs hs hkind (by decide) (fun _ h _ => h rfl) fun _ _ _ h => h
  · rename_i hkind
    exact privateIdentifier_runs hs hkind
  · rename_i hopen
    refine .past (.refl hs) (next_passes hs (by rw [hopen]; decide)) fun _ t ht => ?_
    refine hp.after .assignment ht (within ht hbound) nofun fun e u hu => ?_
    refine .past hu (expect_passes hu.ready (by decide)) fun _ v hv => ?_
    exact finishLast_runs hv rfl rfl (.inl rfl) trivial fun _ => trivial
  · exact .ite (fun _ => identifierName_runs hs) fun _ => failure_runs (.refl hs) _ _ rfl

/-! ### Classes -/

theorem initializer_runs (hp : Parses d bound parse parse') (hs : s.Ready d.source)
    (hbound : 6 * s.left d.source ≤ bound) :
    ReadsMaybe d s (initializer parse) (initializer parse') := by
  refine .accept (by decide) (.refl hs) (fun t ht _ => ?_) fun _ => .pure (.refl hs) rfl
  exact (hp .assignment t ht.ready (within ht hbound) nofun).mono fun _ _ hu =>
    (ht.trans hu).weaken.optional

theorem field_runs {modifiers : Modifiers} {name : NodeId} (hp : Parses d bound parse parse')
    (ht : Yields d.source b s [some name] t) (hbound : 6 * t.left d.source ≤ bound) :
    Runs d t (field parse s.token.start modifiers name)
      (field parse' (d.offset + s.token.start) modifiers (d.id name)) d.child
      fun x u => Yields d.source false s [x] u := by
  refine .after_row ht (initializer_runs hp ht.ready hbound) fun value u hu => ?_
  refine .past hu (expectSemicolon_passes hu.ready) fun _ v hv => ?_
  exact finishLast_runs hv rfl rfl (.inr nofun) trivial fun _ => trivial

theorem ne_endOfFile_of_isMemberModifier {word : String} (h : s.isMemberModifier word = true) :
    s.kind ≠ .endOfFile :=
  ne_endOfFile_of_isWord (Bool.and_eq_true_iff.mp h).1

theorem classMemberRest_runs {modifiers : Modifiers} (hp : Parses d bound parse parse')
    (ht : Yields d.source b s [] t) (hbound : 6 * s.left d.source ≤ bound) :
    Runs d t (classMemberRest parse s.token.start modifiers)
      (classMemberRest parse' (d.offset + s.token.start) modifiers) d.child
      fun x u => Yields d.source false s [x] u := by
  refine .get ?_
  rw [isMemberModifier_state ht.ready.source, lineEndsAfterToken_state ht.ready.source]
  refine .when ht (fun hasync => next_passes ht.ready
    (ne_endOfFile_of_isMemberModifier (Bool.and_eq_true_iff.mp hasync).1)) fun u hu => ?_
  refine .past hu (accept_passes hu.ready (by decide)) fun isGenerator v hv => .get ?_
  rw [isMemberModifier_state hv.ready.source, isMemberModifier_state hv.ready.source]
  refine .when hv (fun haccessor => next_passes hv.ready ?_) fun w hw => ?_
  · rcases Bool.or_eq_true_iff.mp haccessor with hword | hword <;>
      exact ne_endOfFile_of_isMemberModifier hword
  have hle := hw.left_le
  refine .after_row hw (propertyName_runs hp hw.ready (by omega)) fun name x hx => ?_
  cases name with
  | none => exact .pure hx.weaken rfl
  | some name =>
      refine .kind (.ite (fun hparen => method?_runs hx (eq_of_beq hparen)) fun _ => ?_)
      refine .ite (fun _ => (failure_runs hx _ _ rfl).mono fun _ _ hy => hy.weaken) fun _ => ?_
      have hle := hx.left_le
      exact field_runs hp hx (by omega)

theorem classMember_runs (hp : Parses d bound parse parse') (hs : s.Ready d.source)
    (hbound : 6 * s.left d.source ≤ bound) :
    Reads d s (classMember parse) (classMember parse') := by
  refine .pos (.get ?_)
  rw [isMemberModifier_state hs.source]
  refine .ite (fun hstatic => ?_) fun _ => classMemberRest_runs hp (.refl hs) hbound
  refine .past (.refl hs) (next_passes hs (ne_endOfFile_of_isMemberModifier hstatic)) fun _ t ht => ?_
  refine .kind (.ite (fun _ => ?_) fun _ => classMemberRest_runs hp ht hbound)
  refine .after_row ht (block_runs ht.ready) fun body u hu => ?_
  exact finishLast_runs hu rfl rfl (.inl rfl) rfl fun _ => trivial

theorem classMembersIn_runs (hp : Parses d bound parse parse') (hs : s.Ready d.source)
    (hbound : 6 * s.left d.source ≤ bound) (hn : s.left d.source < n) (hn' : s.left d.source < n') :
    Runs d s (classMembersIn parse n) (classMembersIn parse' n') (List.map d.id)
      fun xs t => Yields d.source false s (xs.map some) t := by
  induction n generalizing s n' with
  | zero => exact absurd hn (Nat.not_lt_zero _)
  | succ n ih =>
      obtain _ | n' := n'
      · exact absurd hn' (Nat.not_lt_zero _)
      refine .atListEnd (.pure (.refl hs) rfl) fun hkind _ => ?_
      refine .accept (by decide) (.refl hs) (fun t ht _ => ?_) fun _ => .pos ?_
      · have hlt := ht.left_lt
        exact (ih ht.ready (by omega) (by omega) (by omega)).mono fun xs _ hu => (ht.trans hu).weaken
      · refine .bind (classMember_runs hp hs hbound) fun member t ht => .pos ?_
        have rest {u : ParserState} (hu : Yields d.source false s [member] u)
            (hlt : u.left d.source < s.left d.source) :
            Runs d u (classMembersIn parse n >>= fun xs => pure (member.toList ++ xs))
              (classMembersIn parse' n' >>= fun xs => pure ((d.child member).toList ++ xs))
              (List.map d.id) fun xs t => Yields d.source false s (xs.map some) t := by
          refine .after_row hu.optional (ih hu.ready (by omega) (by omega) (by omega)) fun xs v hv => ?_
          refine .pure ?_ ?_
          · rw [List.map_append]
            exact hv
          · cases member <;> rfl
        rw [offset_beq]
        refine .ite (fun hsame => ?_) fun hother => ?_
        · have hnext := next_passes ht.ready (ht.ne_endOfFile hs hkind (eq_of_beq hsame))
          refine .bind hnext fun _ u hu => rest (ht.on hu).weaken ?_
          exact hu.left_lt.trans_le ht.left_le
        · exact rest ht (ht.left_lt_of_ne fun h => hother (beq_iff_eq.mpr h))

theorem classMembers_runs (hp : Parses d bound parse parse') (hs : s.Ready d.source)
    (hbound : 6 * s.left d.source ≤ bound) :
    Runs d s (classMembers parse) (classMembers parse') (List.map d.id)
      fun xs t => Yields d.source false s (xs.map some) t := by
  refine .accept (by decide) (.refl hs) (fun t ht _ => ?_) fun _ => ?_
  · have hle := ht.left_le
    refine .budget ht.ready fun n n' hn hn' => ?_
    refine .after_row ht (classMembersIn_runs hp ht.ready (by omega) hn hn') fun xs u hu => ?_
    exact .past hu (expect_passes hu.ready (by decide)) fun _ v hv => .pure hv.weaken rfl
  · exact .past (.refl hs) (errorHere_passes hs _ _ rfl) fun _ t ht => .pure ht rfl

theorem classLike_runs (hp : Parses d bound parse parse') (hs : s.Ready d.source)
    (hbound : 6 * s.left d.source ≤ bound) (hkind : s.kind = .keyword .classWord) :
    Runs d s (classLike parse) (classLike parse')
      (fun x => (d.child x.1, d.child x.2.1, x.2.2.map d.id)) fun x t =>
        Yields d.source true s (Form.optional x.1 ++ Form.optional x.2.1 ++ x.2.2.map some) t := by
  refine .past (.refl hs) (expect_takes hs (by decide) hkind) fun _ t ht => ?_
  refine .after_row ht (identifier?_runs ht.ready) fun name u hu => ?_
  have rest {heritage : Child} {v : ParserState}
      (hv : Yields d.source true s (Form.optional name ++ Form.optional heritage) v) :
      Runs d v (classMembers parse >>= fun members => pure (name, heritage, members))
        (classMembers parse' >>= fun members => pure (d.child name, d.child heritage, members))
        (fun x => (d.child x.1, d.child x.2.1, x.2.2.map d.id)) fun x t =>
          Yields d.source true s (Form.optional x.1 ++ Form.optional x.2.1 ++ x.2.2.map some) t := by
    have hle := hv.left_le
    exact .after_row hv (classMembers_runs hp hv.ready (by omega)) fun members w hw => .pure hw rfl
  refine .accept (by decide) hu (fun v hv huv => ?_) fun _ => ?_
  · have hlt := hv.left_lt
    refine .bind (hp .leftHandSide v hv.ready ?_ nofun) fun heritage w hw =>
      rest (hv.trans hw.optional)
    rw [ExpressionKind.rank]
    omega
  · refine @rest none u ?_
    rw [show Form.optional none = [] from rfl, List.append_nil]
    exact hu

/-! ### Literals with parts -/

theorem arrayLiteral_runs (hp : Parses d bound parse parse') (hs : s.Ready d.source)
    (hbound : 6 * s.left d.source ≤ bound) (hkind : s.kind ≠ .endOfFile) :
    Reads d s (arrayLiteral parse) (arrayLiteral parse') := by
  refine .pos (.past (.refl hs) (next_passes hs hkind) fun _ t ht => ?_)
  have hwithin := within ht hbound
  refine .after_row ht (holedList_children (fun u hu hcomma => ?_) (fun u hu hle =>
    element_runs hp hu (by omega)) ht.ready (le_refl _)) fun elements u hu => ?_
  · have hkind : u.kind ≠ .endOfFile := by
      rw [hcomma]
      exact nofun
    refine .pos (.bind (next_passes hu hkind) fun _ v hv => ?_)
    exact .bind (finishHole_runs hv) fun hole w hw => .pure hw rfl
  · exact finishLast_runs hu rfl rfl (.inl rfl) trivial fun _ => trivial

/-- A property, of which the default of a shorthand one is not kept. -/
theorem propertyRest_runs {name : NodeId} (hp : Parses d bound parse parse')
    (ht : Yields d.source b s [some name] t) (hbound : 6 * t.left d.source ≤ bound) :
    Runs d t (propertyRest parse s.token.start name)
      (propertyRest parse' (d.offset + s.token.start) (d.id name)) d.child
      fun x u => Yields d.source false s [x] u := by
  refine .accept (by decide) ht (fun u hu htu => ?_) fun _ => .get ?_
  · refine hp.after .assignment hu (within htu hbound) nofun fun value v hv => ?_
    exact finishLast_runs hv rfl rfl (.inl rfl) trivial fun _ => trivial
  · change Runs d t _ (if ((d.arena t.arena).get? (d.id name)).any (·.isIdentifier) = true then _ else _) _ _
    rw [isIdentifier_arena]
    refine .ite (fun hidentifier => ?_) fun _ => (failure_runs ht _ _ rfl).mono fun _ _ hu => hu.weaken
    refine (initializer_runs hp ht.ready hbound).bind fun value u hu => ?_
    have hname := (ht.trans hu).sublist (List.sublist_append_left [some name] _)
    -- The name is still the identifier that it was before the default.
    obtain ⟨text, hform⟩ := Arena.form?_of_isIdentifier hidentifier
    exact finishLast_runs hname rfl rfl (.inr nofun) ⟨text, hu.grows _ _ hform⟩ fun _ => trivial

theorem isMethodModifier_kind (h : s.isMethodModifier = true) : s.kind ≠ .endOfFile := by
  have hword := (Bool.and_eq_true_iff.mp h).1
  rcases Bool.or_eq_true_iff.mp hword with hword | hword
  · rcases Bool.or_eq_true_iff.mp hword with hword | hword <;> exact ne_endOfFile_of_isWord hword
  · exact ne_endOfFile_of_isWord hword

theorem objectElement_runs (hp : Parses d bound parse parse') (hs : s.Ready d.source)
    (hbound : 6 * s.left d.source ≤ bound) :
    Reads d s (objectElement parse) (objectElement parse') := by
  refine .pos (.accept (by decide) (.refl hs) (fun t ht _ => ?_) fun _ => .get ?_)
  · refine hp.after .assignment ht (within ht hbound) nofun fun e u hu => ?_
    exact finishLast_runs hu rfl rfl (.inl rfl) trivial fun _ => trivial
  · rw [isMethodModifier_state hs.source]
    refine .when (.refl hs) (fun hmodifier => next_passes hs (isMethodModifier_kind hmodifier)) fun t ht => ?_
    refine .past ht (accept_passes ht.ready (by decide)) fun isGenerator u hu => ?_
    have hle := hu.left_le
    refine .after_row hu (propertyName_runs hp hu.ready (by omega)) fun name v hv => ?_
    cases name with
    | none => exact .pure hv rfl
    | some name =>
        refine .kind (.ite (fun hparen => method?_runs hv (eq_of_beq hparen)) fun _ => ?_)
        refine .ite (fun _ => failure_runs hv _ _ rfl) fun _ => ?_
        have hle := hv.left_le
        exact propertyRest_runs hp hv (by omega)

theorem objectLiteral_runs (hp : Parses d bound parse parse') (hs : s.Ready d.source)
    (hbound : 6 * s.left d.source ≤ bound) (hkind : s.kind ≠ .endOfFile) :
    Reads d s (objectLiteral parse) (objectLiteral parse') := by
  refine .pos (.past (.refl hs) (next_passes hs hkind) fun _ t ht => ?_)
  have hle := ht.left_le
  refine .after_row ht (commaList_children .closeBrace (fun u hu hle => objectElement_runs hp hu (by omega))
    ht.ready (le_refl _)) fun elements u hu => ?_
  have helements := hu.sublist (Form.map_some_reduceOption_sublist elements)
  exact finishLast_runs helements rfl (congrArg Form.objectLiteral List.reduceOption_map.symm)
    (.inl rfl) trivial fun _ => trivial

/-! ### Primary expressions -/

theorem parenthesized_runs (hp : Parses d bound parse parse') (hs : s.Ready d.source)
    (hbound : 6 * s.left d.source ≤ bound) (hkind : s.kind ≠ .endOfFile) :
    Reads d s (parenthesized parse) (parenthesized parse') := by
  refine .pos (.past (.refl hs) (next_passes hs hkind) fun _ t ht => ?_)
  refine .after_row ht (commaExpression_runs hp ht.ready (within ht hbound)) fun e u hu => ?_
  refine .past hu (expect_passes hu.ready (by decide)) fun _ v hv => ?_
  exact finishLast_runs hv rfl rfl (.inl rfl) trivial fun _ => trivial

theorem classExpression_runs (hp : Parses d bound parse parse') (hs : s.Ready d.source)
    (hbound : 6 * s.left d.source ≤ bound) (hkind : s.kind = .keyword .classWord) :
    Reads d s (classExpression parse) (classExpression parse') := by
  refine .pos (.bind (classLike_runs hp hs hbound hkind) fun ⟨name, heritage, members⟩ t ht => ?_)
  exact finishLast_runs ht rfl rfl (.inl rfl) trivial fun _ => trivial

theorem regexLiteral_runs (hs : s.Ready d.source)
    (hkind : s.kind = .punct .slash ∨ s.kind = .assign .slashEquals) :
    Reads d s regexLiteral regexLiteral := by
  have hregex : (s.lexer.token.asRegex s.lexer.source).1.kind = .regex := by
    have hslash : (s.lexer.token.kind == .punct .slash || s.lexer.token.kind == .assign .slashEquals) =
        true := by
      rcases hkind with hkind | hkind <;> rw [show s.lexer.token.kind = _ from hkind] <;> rfl
    rw [Token.asRegex, if_pos hslash]
    split <;> rfl
  have hrescan : Runs d s (modify fun s => { s with lexer := s.lexer.rescanSlash })
      (modify fun s => { s with lexer := s.lexer.rescanSlash }) id
      fun _ t => Yields d.source false s [] t ∧ t.kind = .regex :=
    .modify ⟨.of_step hs (.rescan s) rfl (·.rescan hs), hregex⟩ (state_rescan hs.source)
  refine .bind hrescan fun _ t h => ?_
  obtain ⟨ht, hkind⟩ := h
  exact .mono (literal_runs ht.ready hkind (by decide) (fun _ _ _ => trivial) fun _ _ _ h => h)
    fun _ _ hu => ht.trans hu

theorem primary_runs (hp : Parses d bound parse parse') (hs : s.Ready d.source)
    (hbound : 6 * s.left d.source ≤ bound) : Reads d s (primary parse) (primary parse') := by
  have hkind : (d.state s).kind = s.kind := rfl
  refine .get ?_
  rw [hkind, isAsyncFunction_state hs.source]
  have other : s.kind ≠ .endOfFile → True := fun _ => trivial
  split <;> rename_i hkind
  · exact .ite (fun _ => functionExpression_runs hs) fun _ => identifierName_runs hs
  · exact literal_runs hs hkind (by decide) (fun _ _ _ => trivial) fun _ _ _ h => h
  · exact literal_runs hs hkind (by decide) (fun _ h _ => h rfl) fun _ _ _ h => h
  · exact literal_runs hs hkind (by decide) (fun _ _ _ => trivial) fun _ _ _ h => h
  · exact literal_runs hs hkind (by decide) (fun _ _ _ => trivial) fun _ _ _ h => h
  · exact literal_runs hs hkind (by decide) (fun _ _ _ => trivial) fun _ _ _ h => h
  · exact regexLiteral_runs hs (.inl hkind)
  · exact regexLiteral_runs hs (.inr hkind)
  · exact constant_runs hs (hkind.trans_ne nofun)
  · exact constant_runs hs (hkind.trans_ne nofun)
  · exact constant_runs hs (hkind.trans_ne nofun)
  · exact constant_runs hs (hkind.trans_ne nofun)
  · exact constant_runs hs (hkind.trans_ne nofun)
  · exact identifierName_runs hs
  · exact memberName_runs hs
  · exact parenthesized_runs hp hs hbound (hkind.trans_ne nofun)
  · exact arrayLiteral_runs hp hs hbound (hkind.trans_ne nofun)
  · exact objectLiteral_runs hp hs hbound (hkind.trans_ne nofun)
  · exact functionExpression_runs hs
  · exact classExpression_runs hp hs hbound hkind
  · exact markup_runs hs (hkind.trans_ne nofun)
  · exact failure_runs (.refl hs) _ _ rfl

/-! ### Accesses and calls -/

theorem elementArgument_runs (hp : Parses d bound parse parse') (hs : s.Ready d.source)
    (hbound : 6 * s.left d.source + 4 < bound) :
    Reads d s (elementArgument parse) (elementArgument parse') := by
  refine .after_row (.refl hs) (commaExpression_runs hp hs hbound) fun argument t ht => ?_
  exact .past ht (expect_passes ht.ready (by decide)) fun _ u hu => .pure hu rfl

theorem optionalLink_runs {calls : Bool} {target : Child} (hp : Parses d bound parse parse')
    (ht : Yields d.source b s [target] t) (hbound : 6 * t.left d.source + 4 < bound) :
    Runs d t (optionalLink parse calls s.token.start target)
      (optionalLink parse' calls (d.offset + s.token.start) (d.child target)) d.child
      fun x u => Yields d.source false s [x] u ∧ u.left d.source ≤ t.left d.source := by
  have node {form form' : Form} {row : List Child} {b b' : Bool} {u : ParserState}
      (hu : Yields d.source b t row u) (hst : Yields d.source b' s (target :: row) u)
      (hrow : form.row = target :: row) (hform : d.form form = form')
      (hlawful : form.Lawful u.arena {})
      (hspells : ∀ stop, form.Spells d.source s.token.start stop) :
      Runs d u (finishChild form s.token.start) (finishChild form' (d.offset + s.token.start)) d.child
        fun x v => Yields d.source false s [x] v ∧ v.left d.source ≤ t.left d.source :=
    .mono (finishChild_runs hst hrow hform (.inr nofun) hlawful fun _ => hspells _) fun x v hv =>
      ⟨hv.1.weaken, hv.2.trans_le hu.left_le⟩
  refine .kind (.ite (fun hcalls => ?_) fun _ => .accept (by decide) ht (fun u hu htu => ?_) fun _ => ?_)
  · have hparen : t.kind = .punct .openParen := eq_of_beq (Bool.and_eq_true_iff.mp hcalls).2
    refine .bind (callArguments_runs hp ht.ready (by omega) hparen) fun arguments u hu => ?_
    exact node hu (ht.trans hu) rfl rfl trivial fun _ => trivial
  · have hlt := htu.left_lt
    refine .bind (elementArgument_runs hp hu.ready (by omega)) fun argument v hv => ?_
    exact node (htu.trans hv) (hu.trans hv) rfl rfl trivial fun _ => trivial
  · refine .bind (memberName_runs ht.ready) fun name u hu => ?_
    exact node hu (ht.trans hu) rfl rfl trivial fun _ => trivial

theorem linksIn_runs {calls : Bool} {target : Child} (hp : Parses d bound parse parse')
    (ht : Yields d.source false s [target] t) (hbound : 6 * t.left d.source ≤ bound)
    (hn : t.left d.source < n) (hn' : t.left d.source < n') :
    Runs d t (linksIn parse calls s.token.start n target)
      (linksIn parse' calls (d.offset + s.token.start) n' (d.child target)) d.child
      fun x u => Yields d.source false s [x] u := by
  induction n generalizing t n' target with
  | zero => exact absurd hn (Nat.not_lt_zero _)
  | succ n ih =>
      obtain _ | n' := n'
      · exact absurd hn' (Nat.not_lt_zero _)
      -- The node over the target and what follows it is the target of the next link.
      have node {form form' : Form} {row : List Child} {b : Bool} {u : ParserState}
          (hu : Yields d.source b s (target :: row) u) (hlt : u.left d.source < t.left d.source)
          (hrow : form.row = target :: row) (hform : d.form form = form')
          (hlawful : form.Lawful u.arena {})
          (hspells : ∀ stop, form.Spells d.source s.token.start stop) :
          Runs d u (finishChild form s.token.start >>= linksIn parse calls s.token.start n)
            (finishChild form' (d.offset + s.token.start) >>=
              linksIn parse' calls (d.offset + s.token.start) n') d.child
            fun x v => Yields d.source false s [x] v :=
        .bind (finishChild_runs hu hrow hform (.inr nofun) hlawful fun _ => hspells _) fun x v ⟨hv, hleft⟩ =>
          ih hv.weaken (by omega) (by omega) (by omega)
      refine .kind ?_
      split <;> rename_i hkind
      · refine .bind (next_passes ht.ready (hkind.trans_ne nofun)) fun _ u hu => ?_
        refine .bind (memberName_runs hu.ready) fun name v hv => ?_
        have hlt := hv.left_le.trans_lt hu.left_lt
        exact node ((ht.on hu).trans hv) hlt rfl rfl trivial fun _ => trivial
      · refine .bind (next_passes ht.ready (hkind.trans_ne nofun)) fun _ u hu => ?_
        have hlt := hu.left_lt
        refine .bind (optionalLink_runs hp (ht.on hu) (within hu hbound)) fun x v ⟨hv, hle⟩ => ?_
        exact ih hv (by omega) (by omega) (by omega)
      · refine .bind (next_passes ht.ready (hkind.trans_ne nofun)) fun _ u hu => ?_
        refine .bind (elementArgument_runs hp hu.ready (within hu hbound)) fun argument v hv => ?_
        have hlt := hv.left_le.trans_lt hu.left_lt
        exact node ((ht.on hu).trans hv) hlt rfl rfl trivial fun _ => trivial
      · refine .ite (fun _ => ?_) fun _ => .pure ht rfl
        refine .bind (callArguments_runs hp ht.ready hbound hkind) fun arguments u hu => ?_
        exact node (ht.trans hu) hu.left_lt rfl rfl trivial fun _ => trivial
      · refine .bind (literal_takes ht.ready hkind (by decide) (fun _ _ _ => trivial) fun _ _ _ h => h)
          fun template u hu => ?_
        exact node (ht.trans hu) hu.left_lt rfl rfl trivial fun _ => trivial
      · refine .bind (literal_takes ht.ready hkind (by decide) (fun _ _ _ => trivial) fun _ _ _ h => h)
          fun template u hu => ?_
        exact node (ht.trans hu) hu.left_lt rfl rfl trivial fun _ => trivial
      · exact .pure ht rfl

theorem links_runs {calls : Bool} {target : Child} (hp : Parses d bound parse parse')
    (ht : Yields d.source false s [target] t) (hbound : 6 * t.left d.source ≤ bound) :
    Runs d t (links parse calls s.token.start target)
      (links parse' calls (d.offset + s.token.start) (d.child target)) d.child
      fun x u => Yields d.source false s [x] u :=
  .budget ht.ready fun _ _ hn hn' => linksIn_runs hp ht hbound hn hn'

theorem newOrPrimary_runs (hp : Parses d bound parse parse') (hs : s.Ready d.source)
    (hbound : 6 * s.left d.source < bound) :
    Reads d s (newOrPrimary parse) (newOrPrimary parse') :=
  .kind (.ite (fun hkind => hp .new s hs hbound fun _ => eq_of_beq hkind) fun _ =>
    primary_runs hp hs hbound.le)

theorem leftHandSide_runs (hp : Parses d bound parse parse') (hs : s.Ready d.source)
    (hbound : 6 * s.left d.source < bound) :
    Reads d s (leftHandSide parse) (leftHandSide parse') := by
  refine .pos (.bind (newOrPrimary_runs hp hs hbound) fun target t ht => ?_)
  have hle := ht.left_le
  exact links_runs hp ht (by omega)

theorem newExpression_runs (hp : Parses d bound parse parse') (hs : s.Ready d.source)
    (hbound : 6 * s.left d.source ≤ bound) (hkind : s.kind ≠ .endOfFile) :
    Reads d s (newExpression parse) (newExpression parse') := by
  refine .pos (.past (.refl hs) (next_passes hs hkind) fun _ t ht => ?_)
  have hwithin := within ht hbound
  refine .after_row ht (newOrPrimary_runs hp ht.ready (by omega)) fun target u hu => ?_
  have hle := hu.left_le
  refine .bind (links_runs hp hu.weaken (by omega)) fun callee v hv => .kind ?_
  have hle := hv.left_le
  have harguments (hparen : (v.kind == .punct .openParen) = true) :
      Runs d v (some <$> callArguments parse) (some <$> callArguments parse') (Option.map (List.map d.child))
        fun x w => Yields d.source false v (x.getD []) w :=
    .map (callArguments_runs hp hv.ready (by omega) (eq_of_beq hparen)) (fun _ => rfl) fun _ _ hw => hw.weaken
  refine .branch hv harguments (fun _ => .pure (.refl hv.ready) rfl) fun arguments w hw => ?_
  exact finishLast_runs hw rfl rfl (.inr nofun) trivial fun _ => trivial

/-! ### Operators -/

theorem unary_runs (hp : Parses d bound parse parse') (hs : s.Ready d.source)
    (hbound : 6 * s.left d.source + 1 < bound) :
    Reads d s (unary parse) (unary parse') := by
  refine .get (.ite (fun hprefix => ?_) fun _ => ?_)
  · have hkind : s.kind ≠ .endOfFile := by
      intro hkind
      rw [hkind] at hprefix
      exact nomatch hprefix
    refine .past (.refl hs) (next_passes hs hkind) fun _ t ht => ?_
    have hlt := ht.left_lt
    refine hp.after .unary ht ?_ nofun fun operand u hu => ?_
    · rw [ExpressionKind.rank]
      omega
    · exact finishLast_runs hu rfl rfl (.inl rfl) trivial fun _ => trivial
  · refine hp.after .leftHandSide (.refl hs) hbound nofun fun operand t ht => .get (.ite (fun hpostfix => ?_) fun _ =>
      .pure ht rfl)
    have hkind : t.kind ≠ .endOfFile := by
      intro hkind
      rw [show t.token.kind = .endOfFile from hkind] at hpostfix
      exact nomatch hpostfix
    refine .past ht (next_passes ht.ready hkind) fun _ u hu => ?_
    exact finishLast_runs hu rfl rfl (.inl rfl) trivial fun _ => trivial

theorem binaryRest_runs {above : Nat} {first : Child} (hp : Parses d bound parse parse')
    (ht : Yields d.source false s [first] t) (hbound : 6 * t.left d.source ≤ bound)
    (hn : t.left d.source < n) (hn' : t.left d.source < n') :
    Runs d t (binaryRest parse above s.token.start n first)
      (binaryRest parse' above (d.offset + s.token.start) n' (d.child first)) d.child
      fun x u => Yields d.source false s [x] u := by
  induction n generalizing t n' first with
  | zero => exact absurd hn (Nat.not_lt_zero _)
  | succ n ih =>
      obtain _ | n' := n'
      · exact absurd hn' (Nat.not_lt_zero _)
      refine .kind (.ite (fun _ => .pure ht rfl) fun hbinds => ?_)
      have hkind : t.kind ≠ .endOfFile := by
        intro hkind
        rw [hkind] at hbinds
        exact hbinds (.inl rfl)
      refine .bind (next_passes ht.ready hkind) fun _ u hu => ?_
      have hwithin := within hu hbound
      refine .bind (hp (.binary _) u hu.ready (by rw [ExpressionKind.rank]; omega) nofun) fun right v hv => ?_
      refine .bind (finishChild_runs ((ht.on hu).trans hv) rfl rfl (.inl rfl) trivial fun _ => trivial)
        fun x w ⟨hw, hleft⟩ => ?_
      have hlt := hv.left_le.trans_lt hu.left_lt
      exact ih hw.weaken (by omega) (by omega) (by omega)

theorem binary_runs {above : Nat} (hp : Parses d bound parse parse') (hs : s.Ready d.source)
    (hbound : 6 * s.left d.source + 2 < bound) :
    Reads d s (binary parse above) (binary parse' above) := by
  refine .pos (.bind (hp .unary s hs hbound nofun) fun first t ht => ?_)
  have hle := ht.left_le
  exact .budget ht.ready fun _ _ hn hn' => binaryRest_runs hp ht (by omega) hn hn'

theorem conditional_runs (hp : Parses d bound parse parse') (hs : s.Ready d.source)
    (hbound : 6 * s.left d.source + 3 < bound) :
    Reads d s (conditional parse) (conditional parse') := by
  refine .pos (hp.after (.binary 0) (.refl hs) hbound nofun fun condition t ht => ?_)
  have hle := ht.left_le
  refine .accept (by decide) ht (fun u hu htu => ?_) fun _ => .pure ht rfl
  refine hp.after .assignment hu (within hu (by omega)) nofun fun whenTrue v hv => ?_
  refine .past hv (expect_passes hv.ready (by decide)) fun _ w hw => ?_
  refine hp.after .assignment hw (within hw (by omega)) nofun fun whenFalse x hx => ?_
  exact finishLast_runs hx rfl rfl (.inl rfl) trivial fun _ => trivial

theorem arrowFunction_runs {stop : Nat} {isAsync : Bool} (hp : Parses d bound parse parse')
    (hs : s.Ready d.source) (hbound : 6 * s.left d.source ≤ bound)
    (harrow : s.arrowFunction? = some (stop, isAsync)) :
    Reads d s (arrowFunction parse stop isAsync) (arrowFunction parse' (d.offset + stop) isAsync) := by
  have hends := arrowFunction?_ends (hs.source.symm ▸ hs.token) harrow
  refine .pos (.bind (jumpTo_passes hs (.arrow isAsync harrow) hends.1) fun _ t ht => .kind ?_)
  refine .branch ht (fun _ => block_runs ht.ready) (fun _ => hp .assignment t ht.ready (within ht hbound) nofun)
    fun body u hu => ?_
  exact finishLast_runs hu rfl rfl (.inl rfl) trivial fun _ => trivial

theorem assignment_runs (hp : Parses d bound parse parse') (hs : s.Ready d.source)
    (hbound : 6 * s.left d.source + 3 < bound) :
    Reads d s (assignment parse) (assignment parse') := by
  refine .get ?_
  rw [arrowFunction?_state hs.source]
  cases harrow : s.arrowFunction? with
  | some found => exact arrowFunction_runs hp hs (by omega) harrow
  | none =>
      refine .pos (.after_row (.refl hs) (conditional_runs hp hs hbound) fun left t ht => .kind ?_)
      have hle := ht.left_le
      refine .ite (fun hassign => ?_) fun _ => .pure ht rfl
      have hkind : t.kind ≠ .endOfFile := by
        intro hkind
        rw [hkind] at hassign
        exact nomatch hassign
      refine .past ht (next_passes ht.ready hkind) fun _ u hu => ?_
      refine hp.after .assignment hu (within hu (by omega)) nofun fun right v hv => ?_
      exact finishLast_runs hv rfl rfl (.inl rfl) trivial fun _ => trivial

end

/-- As many levels as the text that is left asks for are enough, and more of them change nothing. -/
theorem expressionIn_parses {bound n n' : Nat} (hn : bound ≤ n) (hn' : bound ≤ n') :
    Parses d bound (expressionIn n) (expressionIn n') := by
  induction bound generalizing n n' with
  | zero => exact fun k s _ hbound _ => absurd hbound (Nat.not_lt_zero _)
  | succ bound ih =>
      obtain _ | n := n
      · exact absurd hn (Nat.not_succ_le_zero _)
      obtain _ | n' := n'
      · exact absurd hn' (Nat.not_succ_le_zero _)
      have hp := ih (Nat.le_of_succ_le_succ hn) (Nat.le_of_succ_le_succ hn')
      intro k s hs hbound hnew
      cases k with
      | assignment =>
          refine nested_runs hs fun t ht => assignment_runs hp ht.ready ?_
          have hle := ht.left_le
          rw [ExpressionKind.rank] at hbound
          omega
      | unary =>
          refine nested_runs hs fun t ht => unary_runs hp ht.ready ?_
          have hle := ht.left_le
          rw [ExpressionKind.rank] at hbound
          omega
      | binary above => exact binary_runs hp hs (Nat.lt_of_succ_lt_succ hbound)
      | leftHandSide => exact leftHandSide_runs hp hs (Nat.lt_of_succ_lt_succ hbound)
      | new => exact newExpression_runs hp hs (Nat.le_of_lt_succ hbound) ((hnew rfl).trans_ne nofun)

theorem expression_parses (d : Displacement) (bound : Nat) : Parses d bound expression expression := by
  intro k s hs _ hnew
  have hrank := k.rank_le
  refine .budget hs fun n n' hn hn' => ?_
  have hp : Parses d (6 * s.left d.source + 5) (expressionIn (6 * n)) (expressionIn (6 * n')) :=
    expressionIn_parses (by omega) (by omega)
  exact hp k s hs (by omega) hnew

end Parser

end PropContract
