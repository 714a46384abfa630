import PropContract.Proofs.Parse.Nesting.Expression

/-!
# How deep patterns and statements nest

Every statement of a file is read with no expression open, and so nests only as deep as the limit on
expressions allows, apart from the edges that are ungated.
-/

namespace PropContract

open ParserState

namespace Parser

variable {s t : ParserState} {m n r : Nat}

/-! ## Patterns -/

section

variable {parse : Parser Child}

/-- An element of a pattern. The edge to its name is ungated. -/
theorem bindingElement_builds {start : Nat} {rest : Bool} {propertyName name : Child} (hs : s.room = r)
    (hproperty : s.arena.Nests (11 * r + 2) propertyName) (hname : s.arena.Nests (11 * r + 2) name) :
    BuildsNode s (initializer expression >>= fun value =>
      finish (.bindingElement propertyName name value rest) start) (11 * r + 2) := by
  refine .bind (initializer_builds (expression_shallow r) hs) fun value t hst hvalue => ?_
  have hproperty := hproperty.mono hst.grows
  have hname := hname.mono hst.grows
  exact finish_builds (Arena.slots_second rfl rfl hproperty hname (List.forall_mem_singleton.mpr hvalue))

theorem objectPatternElement_builds (hparse : ∀ t, t.room = r → BuildsChild t parse (11 * r + 2))
    (hs : s.room = r) : BuildsNode s (objectPatternElement parse) (11 * r + 2) := by
  refine .pos (.accept (fun t hst => ?_) fun t hst => ?_)
  · refine .bind (hparse t (hst.room_eq hs)) fun name u _ hname => ?_
    exact finish_builds (Arena.slots_second rfl rfl .none hname (List.forall_mem_singleton.mpr .none))
  · have ht := hst.room_eq hs
    refine .bind (propertyName_builds (expression_shallow r) ht) fun property u htu hproperty => ?_
    have hproperty := hproperty.weaken (Nat.le_succ _)
    refine .accept (fun v huv => ?_) fun v huv => ?_
    · have hv := (htu.trans huv).room_eq ht
      refine .bind (hparse v hv) fun name w hvw hname => bindingElement_builds (hvw.room_eq hv) ?_ hname
      exact hproperty.mono (huv.trans hvw).grows
    · exact bindingElement_builds ((htu.trans huv).room_eq ht) .none (hproperty.mono huv.grows)

theorem arrayPatternElement_builds (hparse : ∀ t, t.room = r → BuildsChild t parse (11 * r + 2))
    (hs : s.room = r) : BuildsNode s (arrayPatternElement parse) (11 * r + 2) := by
  refine .pos (.past (accept_builds s _) fun rest t hst => ?_)
  have ht := hst.room_eq hs
  exact .bind (hparse t ht) fun name u htu hname => bindingElement_builds (htu.room_eq ht) .none hname

/-- A pattern over elements that nest at most as deep. -/
theorem pattern_builds {form : Form} {start : Nat} {elements : List NodeId}
    (hchildren : form.children = elements.map some) (hungated : ∀ i, form.isUngated i = true)
    (h : ∀ id ∈ elements, s.arena.Nests (n + 1) (some id)) :
    BuildsChild s (finishChild form start) (n + 1) := by
  refine finishChild_builds (Arena.slots_ungated hungated ?_)
  rw [hchildren]
  exact List.forall_mem_map.mpr h

theorem objectPattern_builds (hparse : ∀ t, t.room = r → BuildsChild t parse (11 * r + 2))
    (hs : s.room = r) : BuildsChild s (objectPattern parse) (11 * r + 2) := by
  refine .pos (.past (next_builds s) fun _ t hst => ?_)
  refine .bind (commaList_builds _ (fun _ _ _ hab hx => hx.mono hab) (fun _ => objectPatternElement_builds hparse)
    (hst.room_eq hs)) fun elements u _ helements => ?_
  exact pattern_builds rfl (fun _ => rfl) helements

theorem arrayPattern_builds (hparse : ∀ t, t.room = r → BuildsChild t parse (11 * r + 2))
    (hs : s.room = r) : BuildsChild s (arrayPattern parse) (11 * r + 2) := by
  refine .pos (.past (next_builds s) fun _ t hst => ?_)
  refine .bind (holedList_builds (fun _ _ _ hab hx => hx.mono hab) (fun u => ?_)
    (fun _ => arrayPatternElement_builds hparse) (hst.room_eq hs)) fun elements u _ helements => ?_
  · refine .pos (.bind (finish_builds (n := 0) (Arena.slots_nil rfl)) fun hole v _ hhole => ?_)
    exact .past (next_builds v) fun _ w hvw => .pure (hhole.mono_of_le hvw.grows (by omega))
  · exact pattern_builds rfl (fun _ => rfl) helements

theorem bindingIn_builds (n : Nat) (hs : s.room = r) : BuildsChild s (bindingIn n) (11 * r + 2) := by
  induction n generalizing s with
  | zero => exact .pure .none
  | succ n ih =>
      refine .kind ?_
      split
      · exact (identifierName_builds s).weaken (by omega)
      · exact objectPattern_builds (fun _ => ih) hs
      · exact arrayPattern_builds (fun _ => ih) hs
      · exact failure_builds s _ _

theorem binding_builds (hs : s.room = r) : BuildsChild s binding (11 * r + 2) :=
  .budget fun n => bindingIn_builds n hs

end

/-! ## Statements without declarations -/

theorem expressionStatement_builds (hs : s.room = r) : BuildsChild s expressionStatement (11 * r + 2) := by
  refine .pos (.bind (commaExpression_builds (expression_shallow r) hs) fun e t _ he => ?_)
  refine .past (expectSemicolon_builds t) fun _ u htu => ?_
  exact finishChild_builds (Arena.slots_single rfl (he.mono htu.grows))

theorem skipStatementIn_builds (s : ParserState) (n : Nat) (first goesOn : Bool) :
    BuildsNothing s (skipStatementIn n first goesOn) := by
  induction n generalizing s first goesOn with
  | zero => exact .pure trivial
  | succ n ih =>
      refine .get (.ite (.pure trivial) (.ite (next_builds s) (.ite (.pure trivial) (.ite ?_ (.ite ?_ ?_)))))
      · refine .past (skipGroup_builds s) fun _ t _ => .ite (.kind (.ite (ih t _ _) (.pure trivial))) (.pure trivial)
      · exact .past (skipGroup_builds s) fun _ t _ => .ite (ih t _ _) (.pure trivial)
      · exact .past (next_builds s) fun _ t _ => ih t _ _

theorem skippedStatement_builds (s : ParserState) : BuildsChild s skippedStatement 1 :=
  .pos (.budget fun n => .past (skipStatementIn_builds s n _ _) fun _ _ _ => leaf_builds rfl)

/-! ## Specifiers -/

theorem moduleSpecifier_builds (s : ParserState) : BuildsChild s moduleSpecifier 1 :=
  .kind (.ite (literal_builds s _) (failure_builds s _ _))

theorem importAttributes_builds (s : ParserState) : BuildsNothing s importAttributes := by
  refine .get (.ite (.past (next_builds s) fun _ t _ => .kind (.ite ?_ (.pure trivial))) (.pure trivial))
  exact .past (skipGroup_builds t) fun _ _ _ => .pure trivial

theorem moduleExportName_builds (s : ParserState) : BuildsChild s moduleExportName 1 :=
  .kind (.ite (literal_builds s _) (identifierName_builds s))

theorem namedSpecifiers_builds {form : Child → Child → Form} (hchildren : ∀ x y, (form x y).children = [x, y])
    (s : ParserState) : Builds s (namedSpecifiers form) fun a xs => ∀ x ∈ xs, a.Nests 2 (some x) := by
  refine .past (next_builds s) fun _ t _ => ?_
  refine commaList_builds _ (fun _ _ _ hab hx => hx.mono hab) (fun u _ => ?_) rfl
  refine .pos (.bind (moduleExportName_builds u) fun first v _ hfirst => .get (.ite ?_ ?_))
  · refine .past (next_builds v) fun _ w hvw => .bind (moduleExportName_builds w) fun second x hwx hsecond => ?_
    have hfirst := hfirst.mono_of_le (hvw.trans hwx).grows (Nat.le_succ 1)
    exact finish_builds (Arena.slots_pair (hchildren _ _) hfirst hsecond)
  · exact finish_builds (Arena.slots_pair (hchildren _ _) .none hfirst)

/-! ## Imports -/

theorem importBindings_builds (s : ParserState) : Builds s importBindings fun a x =>
    a.Nests 1 x.1 ∧ ∀ id ∈ x.2.getD [], a.Nests 2 (some id) := by
  refine .accept (fun t _ => ?_) fun t _ => .kind (.ite ?_ ?_)
  · refine .past (expectWord_builds t _) fun _ u _ => .bind (identifier_builds u) fun ns v _ hns => ?_
    exact .pure ⟨hns, nofun⟩
  · exact .bind (namedSpecifiers_builds (fun _ _ => rfl) t) fun named u _ hnamed => .pure ⟨.none, hnamed⟩
  · exact .past (errorHere_builds t _ _) fun _ u _ => .pure ⟨.none, nofun⟩

theorem importClause_builds (s : ParserState) : Builds s importClause fun a x =>
    a.Nests 1 x.1 ∧ a.Nests 1 x.2.1 ∧ ∀ id ∈ x.2.2.getD [], a.Nests 2 (some id) := by
  refine .bind (identifier?_builds s) fun defaultName t hst hdefault => ?_
  have rest (u : ParserState) (htu : t.Extends u) {x : Child × Option (List NodeId)}
      (hx : u.arena.Nests 1 x.1 ∧ ∀ id ∈ x.2.getD [], u.arena.Nests 2 (some id)) :
      Builds u (expectWord "from" >>= fun _ => pure (defaultName, x.1, x.2)) fun a x =>
        a.Nests 1 x.1 ∧ a.Nests 1 x.2.1 ∧ ∀ id ∈ x.2.2.getD [], a.Nests 2 (some id) := by
    refine .past (expectWord_builds u _) fun _ v huv => .pure ⟨?_, ?_, ?_⟩
    · exact hdefault.mono (htu.trans huv).grows
    · exact hx.1.mono huv.grows
    · exact fun id hid => (hx.2 id hid).mono huv.grows
  have bindings (more : Bool) (u : ParserState) (htu : t.Extends u) :
      Builds u (if more = true then importBindings >>= fun x => expectWord "from" >>= fun _ =>
          pure (defaultName, x.1, x.2)
        else expectWord "from" >>= fun _ => pure (defaultName, none, none)) fun a x =>
        a.Nests 1 x.1 ∧ a.Nests 1 x.2.1 ∧ ∀ id ∈ x.2.2.getD [], a.Nests 2 (some id) :=
    .ite (.bind (importBindings_builds u) fun x v huv hx => rest v (htu.trans huv) hx)
      (rest u htu (x := (none, none)) ⟨.none, nofun⟩)
  exact .ite (.past (accept_builds t _) bindings) (bindings true t (.refl t))

theorem importDeclaration_builds (s : ParserState) : BuildsChild s importDeclaration 3 := by
  refine .pos (.past (next_builds s) fun _ t _ => .kind ?_)
  have rest (u : ParserState) (x : Child × Child × Option (List NodeId))
      (hx : u.arena.Nests 1 x.1 ∧ u.arena.Nests 1 x.2.1 ∧ ∀ id ∈ x.2.2.getD [], u.arena.Nests 2 (some id)) :
      BuildsChild u
        (do
          let specifier ← moduleSpecifier
          importAttributes
          expectSemicolon
          finishChild (.importDeclaration x.1 x.2.1 x.2.2 specifier) s.token.start) 3 := by
    obtain ⟨hdefault, hns, hnamed⟩ := hx
    refine .bind (moduleSpecifier_builds u) fun specifier v huv hspecifier => ?_
    refine .past (importAttributes_builds v) fun _ w hvw => .past (expectSemicolon_builds w) fun _ y hwy => ?_
    have hvy := (hvw.trans hwy).grows
    have huy := huv.grows.trans hvy
    refine finishChild_builds (Arena.slots_of_forall fun c hc => ?_)
    simp only [Form.children, List.mem_append, List.mem_cons, List.mem_map, List.not_mem_nil, or_false] at hc
    obtain ((rfl | rfl) | ⟨id, hid, rfl⟩) | rfl := hc
    · exact hdefault.mono_of_le huy (by decide)
    · exact hns.mono_of_le huy (by decide)
    · exact (hnamed id hid).mono huy
    · exact hspecifier.mono_of_le hvy (by decide)
  refine .ite (rest t (none, none, none) ⟨.none, .none, nofun⟩) ?_
  exact .bind (importClause_builds t) fun x u _ hx => rest u x hx

/-! ## Declarations -/

theorem functionDeclaration_builds (s : ParserState) (start : Nat) (modifiers : Modifiers) :
    BuildsChild s (functionDeclaration start modifiers) 2 := by
  refine .bind (functionLike_builds s _) fun ⟨_, name, body⟩ t _ ⟨hname, hbody⟩ => ?_
  exact finishChild_builds (Arena.slots_pair rfl (hname.weaken (by decide)) hbody)

theorem classDeclaration_builds (start : Nat) (modifiers : Modifiers) (hs : s.room = r) :
    BuildsChild s (classDeclaration start modifiers) (11 * r + 4) :=
  .bind (classLike_builds (expression_shallow r) hs) fun _ _ _ h => finishChild_builds (slots_class rfl rfl h)

theorem variableDeclaration_builds (hs : s.room = r) : BuildsNode s variableDeclaration (11 * r + 2) := by
  refine .pos (.bind (binding_builds hs) fun name t hst hname => ?_)
  refine .bind (initializer_builds (expression_shallow r) (hst.room_eq hs)) fun value u htu hvalue => ?_
  exact finish_builds (Arena.slots_pair rfl (hname.mono htu.grows) hvalue)

theorem variableDeclarationsIn_builds (n : Nat) (hs : s.room = r) :
    Builds s (variableDeclarationsIn n) fun a xs => ∀ x ∈ xs, a.Nests (11 * r + 2) (some x) := by
  induction n generalizing s with
  | zero => exact .pure nofun
  | succ n ih =>
      refine .bind (variableDeclaration_builds hs) fun declaration t hst hdeclaration => ?_
      refine .accept (fun u htu => ?_) fun u htu => .pure ?_
      · refine .bind (ih ((hst.trans htu).room_eq hs)) fun declarations v huv hrest => .pure ?_
        exact List.forall_mem_cons.mpr ⟨hdeclaration.mono (htu.trans huv).grows, hrest⟩
      · exact List.forall_mem_singleton.mpr (hdeclaration.mono htu.grows)

theorem variableStatement_builds (word : VariableWord) (start : Nat) (modifiers : Modifiers) (hs : s.room = r) :
    BuildsChild s (variableStatement word start modifiers) (11 * r + 3) := by
  refine .past (next_builds s) fun _ t hst => .budget fun n => ?_
  refine .bind (variableDeclarationsIn_builds n (hst.room_eq hs)) fun declarations u _ hdeclarations => ?_
  refine .past (expectSemicolon_builds u) fun _ v huv => ?_
  exact finishChild_builds (Arena.slots_of_forall (List.forall_mem_map.mpr fun id hid =>
    (hdeclarations id hid).mono huv.grows))

/-! ## Exports -/

/-- The end of an export, when its clause and its namespace have been read. -/
theorem export_builds {clause : Option (List NodeId)} {ns specifier : Child} {start : Nat}
    (hclause : ∀ id ∈ clause.getD [], s.arena.Nests 2 (some id)) (hns : s.arena.Nests 1 ns)
    (hspecifier : s.arena.Nests 1 specifier) :
    BuildsChild s (expectSemicolon >>= fun _ => finishChild (.exportDeclaration clause ns specifier) start) 3 := by
  refine .past (expectSemicolon_builds s) fun _ t hst => finishChild_builds (Arena.slots_of_forall fun c hc => ?_)
  simp only [Form.children, List.mem_append, List.mem_cons, List.mem_map, List.not_mem_nil, or_false] at hc
  obtain ⟨id, hid, rfl⟩ | rfl | rfl := hc
  · exact (hclause id hid).mono hst.grows
  · exact hns.mono_of_le hst.grows (by decide)
  · exact hspecifier.mono_of_le hst.grows (by decide)

theorem exportAll_builds (s : ParserState) (start : Nat) : BuildsChild s (exportAll start) 3 := by
  have rest {ns : Child} (u : ParserState) (hns : u.arena.Nests 1 ns) : BuildsChild u
      (do
        expectWord "from"
        let specifier ← moduleSpecifier
        importAttributes
        expectSemicolon
        finishChild (.exportDeclaration none ns specifier) start) 3 := by
    refine .past (expectWord_builds u _) fun _ v huv => ?_
    refine .bind (moduleSpecifier_builds v) fun specifier w hvw hspecifier => ?_
    refine .past (importAttributes_builds w) fun _ x hwx => export_builds nofun ?_ ?_
    · exact hns.mono (huv.trans (hvw.trans hwx)).grows
    · exact hspecifier.mono hwx.grows
  refine .past (next_builds s) fun _ t _ => .get (.ite ?_ (rest t .none))
  exact .past (next_builds t) fun _ u _ => .bind (moduleExportName_builds u) fun _ v _ hns => rest v hns

theorem exportNamed_builds (s : ParserState) (start : Nat) : BuildsChild s (exportNamed start) 3 := by
  refine .bind (namedSpecifiers_builds (fun _ _ => rfl) s) fun clause t _ hclause => .get (.ite ?_ ?_)
  · refine .past (next_builds t) fun _ u htu => .bind (moduleSpecifier_builds u) fun specifier v huv hspecifier => ?_
    refine .past (importAttributes_builds v) fun _ w hvw => export_builds (fun id hid => ?_) .none ?_
    · exact (hclause id hid).mono (htu.trans (huv.trans hvw)).grows
    · exact hspecifier.mono hvw.grows
  · exact export_builds hclause .none .none

theorem exportDefault_builds (start : Nat) (hs : s.room = r) :
    BuildsChild s (exportDefault start) (11 * r + 4) := by
  refine .get (.ite (classDeclaration_builds _ _ hs) (.ite ?_ ?_))
  · exact (functionDeclaration_builds s _ _).weaken (by omega)
  · refine .bind ((expression_shallow r).assignment hs) fun e t _ he => ?_
    refine .past (expectSemicolon_builds t) fun _ u htu => ?_
    exact finishChild_builds (Arena.slots_single rfl (he.mono_of_le htu.grows (by omega)))

theorem exportDeclaration_builds (hs : s.room = r) : BuildsChild s exportDeclaration (11 * r + 4) := by
  refine .pos (.past (next_builds s) fun _ t hst => ?_)
  refine .accept (fun u htu => exportDefault_builds _ ((hst.trans htu).room_eq hs)) fun u htu => .get ?_
  have hu := (hst.trans htu).room_eq hs
  split
  · exact (exportAll_builds u _).weaken (by omega)
  · exact (exportNamed_builds u _).weaken (by omega)
  · exact (variableStatement_builds _ _ _ hu).weaken (Nat.le_succ _)
  · exact (variableStatement_builds _ _ _ hu).weaken (Nat.le_succ _)
  · exact (variableStatement_builds _ _ _ hu).weaken (Nat.le_succ _)
  · exact classDeclaration_builds _ _ hu
  · exact (functionDeclaration_builds u _ _).weaken (by omega)
  · exact .ite ((functionDeclaration_builds u _ _).weaken (by omega)) (failure_builds u _ _)

/-! ## Any statement -/

theorem statement_builds (hs : s.room = r) : BuildsChild s statement (11 * r + 4) := by
  have hexpression : BuildsChild s expressionStatement (11 * r + 4) :=
    (expressionStatement_builds hs).weaken (by omega)
  refine .get ?_
  dsimp only
  split
  · exact .ite hexpression ((importDeclaration_builds s).weaken (by omega))
  · exact exportDeclaration_builds hs
  · exact (variableStatement_builds _ _ _ hs).weaken (Nat.le_succ _)
  · exact (variableStatement_builds _ _ _ hs).weaken (Nat.le_succ _)
  · exact (variableStatement_builds _ _ _ hs).weaken (Nat.le_succ _)
  · exact classDeclaration_builds _ _ hs
  · exact (functionDeclaration_builds s _ _).weaken (by omega)
  · exact (tokenNode_builds s fun _ => rfl).weaken (by omega)
  · exact (skippedStatement_builds s).weaken (by omega)
  · exact .ite ((skippedStatement_builds s).weaken (by omega)) hexpression
  · exact .ite ((functionDeclaration_builds s _ _).weaken (by omega)) hexpression

/-! ## A file -/

/-- Where no expression is open, none is after a statement. -/
theorem fileStatement_builds (hs : s.depth = 0) :
    BuildsChild s fileStatement (11 * maxExpressionDepth + 4) := by
  refine .get (.ite ?_ ?_)
  · exact .past (errorHere_builds s _ _) fun _ t _ => .past (next_builds t) fun _ _ _ => .pure .none
  · have hroom : s.room = maxExpressionDepth := by rw [room, hs, Nat.sub_zero]
    refine .bind (statement_builds hroom) fun x t hst hx => .get (.when (resync_builds t) fun u htu => ?_)
    have hreset : BuildsNothing u (modify fun s => { s with quiet := false, depth := 0 }) :=
      ⟨⟨.refl _, (htu.depth.trans (hst.depth.trans hs)).symm⟩, trivial⟩
    refine .past hreset fun _ v huv => .get (.when (next_builds v) fun w hvw => .pure ?_)
    exact hx.mono (htu.trans (huv.trans hvw)).grows

theorem fileStatementsIn_builds (n : Nat) (hs : s.depth = 0) :
    Builds s (fileStatementsIn n) fun a xs => ∀ x ∈ xs, a.Nests (11 * maxExpressionDepth + 4) (some x) := by
  induction n generalizing s with
  | zero => exact .pure nofun
  | succ n ih =>
      refine .kind (.ite (.pure nofun) (.bind (fileStatement_builds hs) fun x t hst hx => ?_))
      refine .bind (ih (hst.depth.trans hs)) fun xs u htu hxs => .pure fun id hid => ?_
      obtain hid | hid := List.mem_append.mp hid
      · obtain rfl := Option.mem_toList.mp hid
        exact hx.mono htu.grows
      · exact hxs id hid

theorem fileStatements_builds (hs : s.depth = 0) :
    Builds s fileStatements fun a xs => ∀ x ∈ xs, a.Nests (11 * maxExpressionDepth + 4) (some x) :=
  .past (next_builds s) fun _ _ hst => .budget fun n => fileStatementsIn_builds n (hst.depth.trans hs)

end Parser

end PropContract
