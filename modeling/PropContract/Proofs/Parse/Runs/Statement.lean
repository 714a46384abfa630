import PropContract.Proofs.Parse.Runs.Expression

/-!
# Runs of patterns and statements

Every statement is read the same in both places, and so is a file up to the end of the text.
-/

namespace PropContract

open Text ParserState Displacement

namespace Parser

variable {d : Displacement} {s t : ParserState} {b : Bool} {row : List Child} {m n n' : Nat}

/-! ## Patterns -/

section

variable {parse parse' : Parser Child}

theorem propertyName_expression_runs (hs : s.Ready d.source) :
    Reads d s (propertyName expression) (propertyName expression) :=
  propertyName_runs (expression_parses d _) hs (le_refl _)

theorem initializer_expression_runs (hs : s.Ready d.source) :
    ReadsMaybe d s (initializer expression) (initializer expression) :=
  initializer_runs (expression_parses d _) hs (le_refl _)

theorem objectPatternElement_runs
    (hparse : ∀ t, t.Ready d.source → t.left d.source ≤ m → Reads d t parse parse')
    (hs : s.Ready d.source) (hm : s.left d.source ≤ m) :
    ReadsNode d s (objectPatternElement parse) (objectPatternElement parse') := by
  refine .pos (.accept (by decide) (.refl hs) (fun t ht _ => ?_) fun _ => ?_)
  · have hle := ht.left_le
    refine .after_row ht (hparse t ht.ready (by omega)) fun name u hu => ?_
    exact finishNode_runs hu rfl rfl (.inl rfl) trivial fun _ => trivial
  · refine .bind (propertyName_expression_runs hs) fun property t ht => ?_
    have rest {propertyName name : Child} {u : ParserState} {b : Bool}
        (hu : Yields d.source b s (Form.optional propertyName ++ [name]) u) :
        Runs d u (initializer expression >>= fun value =>
            finish (.bindingElement propertyName name value false) s.token.start)
          (initializer expression >>= fun value =>
            finish (.bindingElement (d.child propertyName) (d.child name) value false)
              (d.offset + s.token.start)) d.id
          fun x v => Yields d.source false s [some x] v := by
      refine .after_row hu (initializer_expression_runs hu.ready) fun value v hv => ?_
      refine finishNode_runs hv ?_ rfl (.inr ?_) trivial fun _ => trivial
      · exact (List.append_assoc _ [name] _).symm
      · simp
    refine .accept (by decide) ht (fun u hu _ => ?_) fun _ => @rest none property t _ ht
    have hle := hu.left_le
    exact .bind (hparse u hu.ready (by omega)) fun name v hv => rest (hu.optional.trans hv)

theorem objectPattern_runs (hparse : ∀ t, t.Ready d.source → t.left d.source < m → Reads d t parse parse')
    (hs : s.Ready d.source) (hm : s.left d.source ≤ m) (hkind : s.kind ≠ .endOfFile) :
    Reads d s (objectPattern parse) (objectPattern parse') := by
  refine .pos (.past (.refl hs) (next_passes hs hkind) fun _ t ht => ?_)
  have hlt := ht.left_lt
  refine .bind (commaList_nodes .closeBrace (fun _ _ _ _ (h : True) => h) (fun u hu hle =>
    (objectPatternElement_runs (fun v hv hle' => hparse v hv (by omega)) hu hle).mono fun _ _ hv => ⟨hv, trivial⟩)
    ht.ready (le_refl _)) fun elements u hu => ?_
  exact finishLast_runs (ht.trans hu.1) rfl rfl (.inl rfl) trivial fun _ => trivial

theorem arrayPatternElement_runs (hparse : ∀ t, t.Ready d.source → t.left d.source ≤ m → Reads d t parse parse')
    (hs : s.Ready d.source) (hm : s.left d.source ≤ m) :
    ReadsNode d s (arrayPatternElement parse) (arrayPatternElement parse') := by
  refine .pos (.past (.refl hs) (accept_passes hs (by decide)) fun rest t ht => ?_)
  have hle := ht.left_le
  refine .after_row ht (hparse t ht.ready (by omega)) fun name u hu => ?_
  refine .after_row hu (initializer_expression_runs hu.ready) fun value v hv => ?_
  exact finishNode_runs hv rfl rfl (.inr nofun) trivial fun _ => trivial

/-- The hole of a pattern is added before its comma is consumed, which makes no difference. -/
theorem run_hole {s : ParserState} (h : s.prevEnd ≤ s.token.start) :
    (finish .omitted s.token.start >>= fun hole => next >>= fun _ => pure hole : Parser NodeId).run s =
      (next >>= fun _ => finishHole s.token.start).run s := by
  change ((_, (s.addNode .omitted s.token.start {}).advance) : NodeId × ParserState) = _
  rw [ParserState.addNode, max_eq_right h]
  rfl

theorem arrayPatternHole_runs (hs : s.Ready d.source) (hcomma : s.kind = .punct .comma) :
    Runs d s (pos >>= fun start => finish .omitted start >>= fun hole => next >>= fun _ => pure hole)
      (pos >>= fun start => finish .omitted start >>= fun hole => next >>= fun _ => pure hole) d.id
      fun x t => Yields d.source true s [some x] t :=
  .pos (.congr (.bind (next_passes hs (hcomma.trans_ne nofun)) fun _ _ ht => finishHole_runs ht)
    (run_hole hs.le) (run_hole (s := d.state s) (Nat.add_le_add_left hs.le _)))

theorem arrayPattern_runs (hparse : ∀ t, t.Ready d.source → t.left d.source < m → Reads d t parse parse')
    (hs : s.Ready d.source) (hm : s.left d.source ≤ m) (hkind : s.kind ≠ .endOfFile) :
    Reads d s (arrayPattern parse) (arrayPattern parse') := by
  refine .pos (.past (.refl hs) (next_passes hs hkind) fun _ t ht => ?_)
  have hlt := ht.left_lt
  refine .after_row ht (holedList_nodes (fun u hu hcomma => arrayPatternHole_runs hu hcomma) (fun u hu hle =>
    arrayPatternElement_runs (fun v hv hle' => hparse v hv (by omega)) hu hle) ht.ready (le_refl _))
    fun elements u hu => ?_
  exact finishLast_runs hu rfl rfl (.inl rfl) trivial fun _ => trivial

theorem bindingStep_runs (hparse : ∀ t, t.Ready d.source → t.left d.source < m → Reads d t parse parse')
    (hs : s.Ready d.source) (hm : s.left d.source ≤ m) :
    Reads d s (bindingStep parse) (bindingStep parse') := by
  refine .kind ?_
  split <;> rename_i hkind
  · exact identifierName_runs hs
  · exact objectPattern_runs hparse hs hm (hkind.trans_ne nofun)
  · exact arrayPattern_runs hparse hs hm (hkind.trans_ne nofun)
  · exact failure_runs (.refl hs) _ _ rfl

end

theorem bindingIn_runs (hs : s.Ready d.source) (hn : s.left d.source < n) (hn' : s.left d.source < n') :
    Reads d s (bindingIn n) (bindingIn n') := by
  induction n generalizing s n' with
  | zero => exact absurd hn (Nat.not_lt_zero _)
  | succ n ih =>
      obtain _ | n' := n'
      · exact absurd hn' (Nat.not_lt_zero _)
      exact bindingStep_runs (fun t ht hlt => ih ht (by omega) (by omega)) hs (le_refl _)

theorem binding_runs (hs : s.Ready d.source) : Reads d s binding binding :=
  .budget hs fun _ _ hn hn' => bindingIn_runs hs hn hn'

/-! ## Statements without declarations -/

theorem expressionStatement_runs (hs : s.Ready d.source) :
    Reads d s expressionStatement expressionStatement := by
  refine .pos (.bind (commaExpression_runs (expression_parses d _) hs (Nat.lt_succ_self _)) fun e t ht => ?_)
  refine .past ht (expectSemicolon_passes ht.ready) fun _ u hu => ?_
  exact finishLast_runs hu rfl rfl (.inr nofun) trivial fun _ => trivial

/-- Stepping over a statement consumes its first token, whatever it is. -/
theorem skipStatementIn_passes {first goesOn : Bool} (hs : s.Ready d.source) (hn : s.left d.source < n)
    (hn' : s.left d.source < n')
    (hfirst : first = true → s.kind ≠ .endOfFile ∧ s.kind ≠ .punct .closeBrace) :
    Passes d first s (skipStatementIn n first goesOn) (skipStatementIn n' first goesOn) := by
  induction n generalizing s n' first goesOn with
  | zero => exact absurd hn (Nat.not_lt_zero _)
  | succ n ih =>
      obtain _ | n' := n'
      · exact absurd hn' (Nat.not_lt_zero _)
      have rest {goesOn : Bool} {t : ParserState} (ht : Yields d.source true s [] t) :
          Runs d t (skipStatementIn n false goesOn) (skipStatementIn n' false goesOn) id
            fun _ u => Yields d.source first s [] u := by
        have hlt := ht.left_lt
        exact .mono (ih ht.ready (by omega) (by omega) nofun) fun _ _ hu => (ht.on hu).whether first
      refine .get (.ite (fun hend => .pure ?_ rfl) fun hend => ?_)
      · cases first with
        | false => exact .refl hs
        | true =>
            obtain ⟨hfile, hbrace⟩ := hfirst rfl
            rcases Bool.or_eq_true_iff.mp hend with h | h
            · exact absurd (eq_of_beq h) hfile
            · exact absurd (eq_of_beq h) hbrace
      have hkind : s.kind ≠ .endOfFile := fun h => hend (Bool.or_eq_true_iff.mpr (.inl (beq_iff_eq.mpr h)))
      refine .ite (fun _ => (next_passes hs hkind).mono fun _ _ ht => ht.whether first) fun _ => ?_
      refine .ite (fun hbreak => .pure ?_ rfl) fun _ => .ite (fun hbrace => ?_) fun _ =>
        .ite (fun hopener => ?_) fun _ => ?_
      · cases first with
        | false => exact .refl hs
        | true => exact nomatch hbreak
      · refine .bind (skipGroup_passes hs (by rw [eq_of_beq hbrace]; rfl)) fun _ t ht => ?_
        refine .ite (fun _ => .kind (.ite (fun _ => rest ht) fun _ => .pure (ht.whether first) rfl)) fun _ =>
          .pure (ht.whether first) rfl
      · refine .bind (skipGroup_passes hs hopener) fun _ t ht => ?_
        exact .ite (fun _ => rest ht) fun _ => .pure (ht.whether first) rfl
      · exact .bind (next_passes hs hkind) fun _ t ht => rest ht

theorem skippedStatement_runs (hs : s.Ready d.source) (hfile : s.kind ≠ .endOfFile)
    (hbrace : s.kind ≠ .punct .closeBrace) : Reads d s skippedStatement skippedStatement := by
  refine .pos (.budget hs fun n n' hn hn' => ?_)
  refine .bind (skipStatementIn_passes hs hn hn' fun _ => ⟨hfile, hbrace⟩) fun _ t ht => ?_
  exact finishLast_runs ht rfl rfl (.inl rfl) trivial fun _ => trivial

/-! ## Specifiers -/

theorem stringLiteral_runs (hs : s.Ready d.source) (hkind : (s.kind == .string) = true) :
    Reads d s (literal .string) (literal .string) :=
  literal_runs hs (eq_of_beq hkind) (by decide) (fun _ _ _ => trivial) fun _ _ _ h => h

/-- The node of a token has its form. -/
theorem form?_nextNode (s : ParserState) (form : Form) (pos : Nat) :
    ((next >>= fun _ => finishChild form pos).run s).2.arena.form?
      ((next >>= fun _ => finishChild form pos).run s).1 = some form :=
  (Arena.form?_add _ _).trans (if_pos rfl)

theorem moduleSpecifier_runs (hs : s.Ready d.source) :
    Runs d s moduleSpecifier moduleSpecifier d.child fun x t =>
      Yields d.source false s [x] t ∧ t.arena.IsStringOrMissing x := by
  refine .kind (.ite (fun hstring => ?_) fun _ => ?_)
  · have hruns := stringLiteral_runs hs hstring
    exact ⟨⟨hruns.after, .inr ⟨_, form?_nextNode s _ _⟩⟩, hruns.same⟩
  · exact (errorHere_runs hs _ _ rfl).bind fun _ t ht =>
      .pure ⟨ht.1.missing fun hclean => ht.2.1 hclean.1, .inl rfl⟩ rfl

theorem importAttributes_passes (hs : s.Ready d.source) :
    Passes d false s importAttributes importAttributes := by
  refine .get (.ite (fun hword => ?_) fun _ => .pure (.refl hs) rfl)
  have hkind : s.kind ≠ .endOfFile := by
    rcases Bool.or_eq_true_iff.mp (Bool.and_eq_true_iff.mp hword).1 with h | h
    · exact (eq_of_beq h).trans_ne nofun
    · exact ne_endOfFile_of_isWord h
  refine .past (.refl hs) (next_passes hs hkind) fun _ t ht => .kind (.ite (fun hbrace => ?_) fun _ =>
    .pure ht.weaken rfl)
  exact .past ht (skipGroup_passes ht.ready (by rw [eq_of_beq hbrace]; rfl)) fun _ u hu =>
    .pure hu.weaken rfl

theorem moduleExportName_runs (hs : s.Ready d.source) :
    Runs d s moduleExportName moduleExportName d.child fun x t =>
      Yields d.source false s [x] t ∧ t.arena.IsNameOrMissing x := by
  refine .kind (.ite (fun hstring => ?_) fun _ => ?_)
  · have hruns := stringLiteral_runs hs hstring
    refine ⟨⟨hruns.after, .inr ⟨s.token.value, ?_⟩⟩, hruns.same⟩
    have hform := form?_nextNode s (.literal .string s.token.value) s.token.start
    rw [Arena.propertyNameText, show literal .string = tokenNode (.literal .string) from rfl, tokenNode,
      Stateful.run_bind, Stateful.run_get, hform]
  · have hruns := identifierName_runs (d := d) hs
    refine ⟨⟨hruns.after, ?_⟩, hruns.same⟩
    rw [identifierName, Stateful.run_bind, Stateful.run_get]
    dsimp only
    split
    · refine .inr ⟨s.token.value, ?_⟩
      rw [Arena.propertyNameText, form?_nextNode]
    · exact .inl rfl

section

variable {form : Child → Child → Form}

theorem specifier_runs (hrow : ∀ x y, (form x y).row = Form.optional x ++ [y])
    (hform : ∀ x y, d.form (form x y) = form (d.child x) (d.child y))
    (hspells : ∀ x y start stop, (form x y).Spells d.source start stop)
    (hlawful : ∀ x y (a : Arena), a.IsNameOrMissing x → (form x y).Lawful a {}) (hs : s.Ready d.source) :
    Runs d s (specifier form) (specifier form) d.id fun x t =>
      Yields d.source false s [some x] t ∧ t.arena.IsPair form x := by
  refine .pos (.bind (moduleExportName_runs hs) fun first t ⟨ht, hfirst⟩ =>
    .get (.ite (fun hword => ?_) fun _ => ?_))
  · refine .bind (next_passes ht.ready (ne_endOfFile_of_isWord hword)) fun _ u hu => ?_
    refine .bind (moduleExportName_runs hu.ready) fun second v ⟨hv, _⟩ => ?_
    have hlawful := hlawful first second v.arena (hfirst.mono (hu.trans hv).grows)
    exact .mono (.formed (finishNode_runs ((ht.optional.on hu).trans hv) (hrow first second)
      (hform first second) (.inl rfl) hlawful fun _ => hspells ..)) fun _ _ hw => ⟨hw.1, _, _, hw.2⟩
  · have hlawful := hlawful none first t.arena (.inl rfl)
    exact .mono (.formed (finishNode_runs ht (hrow none first) (hform none first) (.inr nofun) hlawful
      fun _ => hspells ..)) fun _ _ hw => ⟨hw.1, _, _, hw.2⟩

theorem namedSpecifiers_runs (hrow : ∀ x y, (form x y).row = Form.optional x ++ [y])
    (hform : ∀ x y, d.form (form x y) = form (d.child x) (d.child y))
    (hspells : ∀ x y start stop, (form x y).Spells d.source start stop)
    (hlawful : ∀ x y (a : Arena), a.IsNameOrMissing x → (form x y).Lawful a {}) (hs : s.Ready d.source)
    (hkind : s.kind ≠ .endOfFile) :
    Runs d s (namedSpecifiers form) (namedSpecifiers form) (List.map d.id) fun xs t =>
      Yields d.source true s (xs.map some) t ∧ ∀ x ∈ xs, t.arena.IsPair form x := by
  refine .bind (next_passes hs hkind) fun _ t ht => ?_
  exact (commaList_nodes .closeBrace (fun _ _ x hgrows (hx : Arena.IsPair _ form x) => hx.mono hgrows)
    (fun u hu _ => specifier_runs hrow hform hspells hlawful hu) ht.ready (le_refl _)).mono
      fun xs u hu => ⟨ht.trans hu.1, hu.2⟩

end

/-! ## Imports -/

/-- What the bindings of an import yield: a namespace or names. -/
def bindingsRow (x : Child × Option (List NodeId)) : List Child :=
  Form.optional x.1 ++ (x.2.getD []).map some

theorem importBindings_runs (hs : s.Ready d.source) :
    Runs d s importBindings importBindings (fun x => (d.child x.1, x.2.map (List.map d.id))) fun x t =>
      Yields d.source false s (bindingsRow x) t ∧ ∀ id ∈ x.2.getD [], t.arena.IsPair .importSpecifier id := by
  refine .accept (by decide) (.refl hs) (fun t ht _ => ?_) fun _ => .kind (.ite (fun hbrace => ?_) fun _ => ?_)
  · refine .past ht (expectWord_passes ht.ready _) fun _ u hu => ?_
    refine .bind (identifier_runs hu.ready) fun ns v hv => .pure ⟨?_, nofun⟩ rfl
    have hrow := (hu.trans hv.optional).weaken
    rwa [List.nil_append, ← List.append_nil (Form.optional ns)] at hrow
  · refine .bind (namedSpecifiers_runs (fun _ _ => rfl) (fun _ _ => rfl) (fun _ _ _ _ => trivial)
      (fun _ _ _ hname => hname) hs
      ((eq_of_beq hbrace).trans_ne nofun)) fun named t ht => .pure ⟨ht.1.weaken, ht.2⟩ rfl
  · exact .bind (errorHere_passes hs _ _ rfl) fun _ t ht => .pure ⟨ht, nofun⟩ rfl

theorem importClause_runs (hs : s.Ready d.source) :
    Runs d s importClause importClause
      (fun x => (d.child x.1, d.child x.2.1, x.2.2.map (List.map d.id))) fun x t =>
        Yields d.source false s (Form.optional x.1 ++ bindingsRow x.2) t ∧
          ∀ id ∈ x.2.2.getD [], t.arena.IsPair .importSpecifier id := by
  refine .bind (identifier?_runs hs) fun defaultName t ht => ?_
  have hsome : (d.child defaultName).isSome = defaultName.isSome := Option.isSome_map
  rw [hsome]
  refine .branch ht (fun _ => accept_passes ht.ready (by decide)) (fun _ => .pure (.refl ht.ready) rfl)
    fun more u hu => ?_
  rw [List.append_nil] at hu
  refine .either (fun _ => importBindings_runs hu.ready) (fun _ => .pure ⟨.refl hu.ready, nofun⟩ rfl)
    fun ⟨ns, named⟩ v ⟨hv, hnamed⟩ => .bind (expectWord_passes hv.ready _) fun _ w hw => .pure ⟨?_, ?_⟩ rfl
  · exact ((hu.trans hv).on hw).weaken
  · exact fun id hid => (hnamed id hid).mono hw.grows

theorem importDeclaration_runs (hs : s.Ready d.source) (hkind : s.kind ≠ .endOfFile) :
    Reads d s importDeclaration importDeclaration := by
  refine .pos (.past (.refl hs) (next_passes hs hkind) fun _ t ht => .kind ?_)
  refine .either (fun _ => .pure ⟨.refl ht.ready, nofun⟩ rfl) (fun _ => importClause_runs ht.ready)
    fun ⟨defaultName, ns, named⟩ u ⟨hu, hnamed⟩ => ?_
  refine .bind (moduleSpecifier_runs hu.ready) fun specifier v ⟨hv, hspecifier⟩ => ?_
  refine .bind (importAttributes_passes hv.ready) fun _ w hw => ?_
  refine .bind (expectSemicolon_passes hw.ready) fun _ x hx => ?_
  have hrest := hw.trans hx
  have hlawful : Form.Lawful x.arena {} (.importDeclaration defaultName ns named specifier) :=
    ⟨fun id hid => (hnamed id hid).mono (hv.trans hrest).grows, hspecifier.mono hrest.grows⟩
  refine finishLast_runs (ht.trans (hu.trans (hv.trans hrest))) ?_ rfl (.inl rfl) hlawful fun _ => trivial
  simp [Form.row, bindingsRow]

/-! ## Declarations -/

theorem functionDeclaration_runs {modifiers : Modifiers} (ht : Yields d.source b s [] t) :
    Runs d t (functionDeclaration s.token.start modifiers)
      (functionDeclaration (d.offset + s.token.start) modifiers) d.child
      fun x u => Yields d.source false s [x] u := by
  refine .after_row ht (functionLike_runs ht.ready _) fun ⟨modifiers, name, body⟩ u hu => ?_
  exact finishLast_runs hu rfl rfl (.inr (by simp)) trivial fun _ => trivial

theorem classDeclaration_runs {modifiers : Modifiers} (ht : Yields d.source b s [] t)
    (hkind : t.kind = .keyword .classWord) :
    Runs d t (classDeclaration s.token.start modifiers)
      (classDeclaration (d.offset + s.token.start) modifiers) d.child
      fun x u => Yields d.source false s [x] u := by
  refine .after_row ht (classLike_runs (expression_parses d _) ht.ready (le_refl _) hkind)
    fun ⟨name, heritage, members⟩ u hu => ?_
  exact finishLast_runs hu rfl rfl (.inl (Bool.or_true b)) trivial fun _ => trivial

theorem variableDeclaration_runs (hs : s.Ready d.source) :
    Runs d s variableDeclaration variableDeclaration d.id fun x t =>
      Yields d.source false s [some x] t ∧ t.arena.IsPair .variableDeclaration x := by
  refine .pos (.bind (binding_runs hs) fun name t ht => ?_)
  refine .after_row ht (initializer_expression_runs ht.ready) fun value u hu => ?_
  exact .mono (.formed (finishNode_runs hu rfl rfl (.inr nofun) trivial fun _ => trivial)) fun _ _ hv =>
    ⟨hv.1, _, _, hv.2⟩

theorem variableDeclarationsIn_runs (hs : s.Ready d.source) (hn : s.left d.source < n)
    (hn' : s.left d.source < n') :
    Runs d s (variableDeclarationsIn n) (variableDeclarationsIn n') (List.map d.id) fun xs t =>
      Yields d.source false s (xs.map some) t ∧ ∀ x ∈ xs, t.arena.IsPair .variableDeclaration x := by
  induction n generalizing s n' with
  | zero => exact absurd hn (Nat.not_lt_zero _)
  | succ n ih =>
      obtain _ | n' := n'
      · exact absurd hn' (Nat.not_lt_zero _)
      refine .bind (variableDeclaration_runs hs) fun declaration t ⟨ht, hpair⟩ => ?_
      refine .accept (by decide) ht (fun u hu htu => ?_) fun _ =>
        .pure ⟨ht, fun _ hx => List.mem_singleton.mp hx ▸ hpair⟩ rfl
      have hlt := hu.left_lt
      refine .bind (ih hu.ready (by omega) (by omega)) fun declarations v ⟨hv, hpairs⟩ => .pure ⟨?_, ?_⟩ rfl
      · exact (hu.trans hv).weaken
      · exact List.forall_mem_cons.mpr ⟨hpair.mono (htu.trans hv).grows, hpairs⟩

theorem variableStatement_runs {word : VariableWord} {modifiers : Modifiers}
    (ht : Yields d.source b s [] t) (hkind : t.kind ≠ .endOfFile) :
    Runs d t (variableStatement word s.token.start modifiers)
      (variableStatement word (d.offset + s.token.start) modifiers) d.child
      fun x u => Yields d.source false s [x] u := by
  refine .past ht (next_passes ht.ready hkind) fun _ u hu => .budget hu.ready fun n n' hn hn' => ?_
  refine .bind (variableDeclarationsIn_runs hu.ready hn hn') fun declarations v ⟨hv, hpairs⟩ => ?_
  refine .bind (expectSemicolon_passes hv.ready) fun _ w hw => ?_
  have hlawful : Form.Lawful w.arena modifiers (.variableStatement word declarations) :=
    fun id hid => (hpairs id hid).mono hw.grows
  exact finishLast_runs ((hu.trans hv).on hw) rfl rfl (.inl (by simp)) hlawful fun _ => trivial

/-! ## Exports -/

theorem exportAll_runs (ht : Yields d.source b s [] t) (hkind : t.kind ≠ .endOfFile) :
    Runs d t (exportAll s.token.start) (exportAll (d.offset + s.token.start)) d.child
      fun x u => Yields d.source false s [x] u := by
  have rest {ns : Child} {u : ParserState} (hu : Yields d.source true s (Form.optional ns) u) :
      Runs d u
        (do
          expectWord "from"
          let specifier ← moduleSpecifier
          importAttributes
          expectSemicolon
          finishChild (.exportDeclaration none ns specifier) s.token.start)
        (do
          expectWord "from"
          let specifier ← moduleSpecifier
          importAttributes
          expectSemicolon
          finishChild (.exportDeclaration none (d.child ns) specifier) (d.offset + s.token.start))
        d.child fun x v => Yields d.source false s [x] v := by
    refine .past hu (expectWord_passes hu.ready _) fun _ v hv => ?_
    refine .bind (moduleSpecifier_runs hv.ready) fun specifier w ⟨hw, _⟩ => ?_
    refine .past (hv.trans hw.optional) (importAttributes_passes hw.ready) fun _ x hx => ?_
    refine .past hx (expectSemicolon_passes hx.ready) fun _ y hy => ?_
    exact finishLast_runs hy rfl rfl (.inl rfl) nofun fun _ => trivial
  refine .past ht (next_passes ht.ready hkind) fun _ u hu => .get ?_
  rw [Bool.or_true] at hu
  refine .ite (fun hword => ?_) fun _ => @rest none u hu
  refine .past hu (next_passes hu.ready (ne_endOfFile_of_isWord hword)) fun _ v hv => ?_
  exact .bind (moduleExportName_runs hv.ready) fun ns w hw => rest (hv.trans hw.1.optional)

theorem exportNamed_runs (ht : Yields d.source b s [] t) (hkind : t.kind ≠ .endOfFile) :
    Runs d t (exportNamed s.token.start) (exportNamed (d.offset + s.token.start)) d.child
      fun x u => Yields d.source false s [x] u := by
  refine .bind (namedSpecifiers_runs (fun _ _ => rfl) (fun _ _ => rfl) (fun _ _ _ _ => trivial)
      (fun _ _ _ _ => trivial) ht.ready hkind)
    fun clause u ⟨hu, hpairs⟩ => .get ?_
  have hu : Yields d.source true s (clause.map some) u := (Bool.or_true b) ▸ ht.trans hu
  have rest {specifier : Child} {v : ParserState} (hgrows : u.arena.Grows v.arena)
      (hv : Yields d.source true s (clause.map some ++ Form.optional specifier) v) :
      Runs d v (expectSemicolon >>= fun _ =>
          finishChild (.exportDeclaration (some clause) none specifier) s.token.start)
        (expectSemicolon >>= fun _ => finishChild
          (.exportDeclaration (some (clause.map d.id)) none (d.child specifier)) (d.offset + s.token.start))
        d.child fun x w => Yields d.source false s [x] w := by
    refine .bind (expectSemicolon_passes hv.ready) fun _ w hw => ?_
    have hlawful : Form.Lawful w.arena {} (.exportDeclaration (some clause) none specifier) :=
      fun id hid => (hpairs id hid).mono (hgrows.trans hw.grows)
    refine finishLast_runs (hv.on hw) ?_ rfl (.inl rfl) hlawful fun _ => trivial
    simp [Form.row, Form.optional]
  refine .ite (fun hword => ?_) fun _ => @rest none u (.refl _) ?_
  · refine .bind (next_passes hu.ready (ne_endOfFile_of_isWord hword)) fun _ v hv => ?_
    refine .bind (moduleSpecifier_runs hv.ready) fun specifier w hspecifier => ?_
    have hw := hspecifier.1
    refine .bind (importAttributes_passes hw.ready) fun _ x hx => rest (hv.trans (hw.trans hx)).grows ?_
    exact (hu.trans (hv.trans hw.optional)).on hx
  · rwa [show Form.optional none = [] from rfl, List.append_nil]

theorem exportDefault_runs (ht : Yields d.source b s [] t) :
    Runs d t (exportDefault s.token.start) (exportDefault (d.offset + s.token.start)) d.child
      fun x u => Yields d.source false s [x] u := by
  refine .get ?_
  rw [isAsyncFunction_state ht.ready.source]
  refine .ite (fun hclass => classDeclaration_runs ht (eq_of_beq hclass)) fun _ =>
    .ite (fun _ => functionDeclaration_runs ht) fun _ => ?_
  refine .after_row ht (expression_parses d _ .assignment t ht.ready (Nat.lt_succ_self _) nofun) fun e u hu => ?_
  refine .past hu (expectSemicolon_passes hu.ready) fun _ v hv => ?_
  exact finishLast_runs hv rfl rfl (.inr nofun) trivial fun _ => trivial

theorem exportDeclaration_runs (hs : s.Ready d.source) (hkind : s.kind ≠ .endOfFile) :
    Reads d s exportDeclaration exportDeclaration := by
  refine .pos (.past (.refl hs) (next_passes hs hkind) fun _ t ht => ?_)
  refine .accept (by decide) ht (fun u hu _ => exportDefault_runs hu) fun _ => .get ?_
  have hkind : (d.state t).kind = t.kind := rfl
  rw [hkind, isAsyncFunction_state ht.ready.source]
  split <;> rename_i hkind
  · exact exportAll_runs ht (hkind.trans_ne nofun)
  · exact exportNamed_runs ht (hkind.trans_ne nofun)
  · exact variableStatement_runs ht (hkind.trans_ne nofun)
  · exact variableStatement_runs ht (hkind.trans_ne nofun)
  · exact variableStatement_runs ht (hkind.trans_ne nofun)
  · exact classDeclaration_runs ht hkind
  · exact functionDeclaration_runs ht
  · exact .ite (fun _ => functionDeclaration_runs ht) fun _ =>
      (failure_runs ht _ _ rfl).mono fun _ _ hu => hu.weaken

/-! ## Any statement -/

theorem statement_runs (hs : s.Ready d.source) : Reads d s statement statement := by
  refine .get ?_
  have hkind : (d.state s).kind = s.kind := rfl
  rw [hkind, isAsyncFunction_state hs.source, peekChar_state hs.source]
  dsimp only
  split <;> rename_i hkind
  · exact .ite (fun _ => expressionStatement_runs hs) fun _ => importDeclaration_runs hs (hkind.trans_ne nofun)
  · exact exportDeclaration_runs hs (hkind.trans_ne nofun)
  · exact variableStatement_runs (.refl hs) (hkind.trans_ne nofun)
  · exact variableStatement_runs (.refl hs) (hkind.trans_ne nofun)
  · exact variableStatement_runs (.refl hs) (hkind.trans_ne nofun)
  · exact classDeclaration_runs (.refl hs) hkind
  · exact functionDeclaration_runs (.refl hs)
  · exact .get (nextNode_runs hs (hkind.trans_ne nofun) rfl rfl (fun _ => trivial) fun _ => trivial)
  · exact skippedStatement_runs hs (hkind.trans_ne nofun) (hkind.trans_ne nofun)
  · exact .ite (fun _ => skippedStatement_runs hs (hkind.trans_ne nofun) (hkind.trans_ne nofun)) fun _ =>
      expressionStatement_runs hs
  · exact .ite (fun _ => functionDeclaration_runs (.refl hs)) fun _ => expressionStatement_runs hs

/-! ## A file -/

/-- A statement of the file consumes something, unless the text is at its end. -/
theorem fileStatement_runs (hs : s.Ready d.source) (hkind : s.kind ≠ .endOfFile) :
    Runs d s fileStatement fileStatement d.child fun x t =>
      Yields d.source false s (Form.optional x) t ∧ t.left d.source < s.left d.source := by
  refine .get (.ite (fun _ => ?_) fun _ => ?_)
  · refine .bind (errorHere_runs hs _ _ rfl) fun _ t ⟨ht, _, hlexer⟩ => ?_
    have hkind : t.kind ≠ .endOfFile := (congrArg (·.token.kind) hlexer).trans_ne hkind
    exact .bind (next_passes ht.ready hkind) fun _ u hu =>
      .pure ⟨ht.trans hu.weaken, hu.left_lt.trans_le ht.left_le⟩ rfl
  · refine .bind (statement_runs hs) fun x t ht => .get ?_
    have hlength (s : ParserState) : (d.state s).errors.length = s.errors.length := List.length_map d.error
    rw [hlength, hlength]
    refine .when ht.optional (fun _ => resync_passes ht.ready) fun u hu => ?_
    have hreset : Yields d.source false u [] { u with quiet := false, depth := 0 } :=
      .of_step hu.ready (.reset u) rfl fun h => ⟨h.nodes, h.errors, h.lexical⟩
    refine .past hu (.modify hreset rfl) fun _ v hv => .get ?_
    change Runs d v _ (if (d.offset + v.token.start == d.offset + s.token.start && v.kind != .endOfFile) = true
      then _ else _) _ _
    rw [offset_beq]
    refine .ite (fun hsame => ?_) fun hother => .pure ⟨hv, ?_⟩ rfl
    · rw [Bool.and_eq_true_iff, bne_iff_ne] at hsame
      refine .bind (next_passes hv.ready hsame.2) fun _ w hw => .pure ⟨hv.on hw.weaken, ?_⟩ rfl
      exact hw.left_lt.trans_le hv.left_le
    · refine hv.left_lt_of_ne fun heq => hother ?_
      rw [Bool.and_eq_true_iff, beq_iff_eq, bne_iff_ne]
      exact ⟨heq, hv.ne_endOfFile hs hkind heq⟩

theorem fileStatementsIn_runs (hs : s.Ready d.source) (hn : s.left d.source < n) (hn' : s.left d.source < n') :
    Runs d s (fileStatementsIn n) (fileStatementsIn n') (List.map d.id) fun xs t =>
      Yields d.source false s (xs.map some) t ∧ t.kind = .endOfFile := by
  induction n generalizing s n' with
  | zero => exact absurd hn (Nat.not_lt_zero _)
  | succ n ih =>
      obtain _ | n' := n'
      · exact absurd hn' (Nat.not_lt_zero _)
      refine .kind (.ite (fun hend => .pure ⟨.refl hs, eq_of_beq hend⟩ rfl) fun hend => ?_)
      have hkind : s.kind ≠ .endOfFile := hend ∘ beq_iff_eq.mpr
      refine .bind (fileStatement_runs hs hkind) fun x t ⟨ht, hlt⟩ => ?_
      refine .bind (ih ht.ready (by omega) (by omega)) fun xs u ⟨hu, hfile⟩ => .pure ⟨?_, hfile⟩ ?_
      · rw [List.map_append]
        exact ht.trans hu
      · cases x <;> rfl

end Parser

end PropContract
