import Mathlib.Data.List.ReduceOption
import PropContract.Proofs.Parse.Nesting

/-!
# How deep expressions nest

Assignments and unary expressions count their levels. All other kinds are read between two of them, and add
so many edges to the side to a way down; how many is found for one kind after the other.
-/

namespace PropContract

open ParserState

/-- How many more edges to the side there may be below an expression of this kind, on the way to the next
one that counts as a level. -/
def ExpressionKind.extra : ExpressionKind → Nat
  | .assignment | .unary => 0
  | .binary above => 11 - above
  | .leftHandSide | .new => 3

theorem TokenKind.precedence_le {k : TokenKind} (h : k ≠ .punct .asteriskAsterisk) : k.precedence ≤ 11 := by
  rw [precedence.eq_def]
  split <;> first | decide | exact absurd rfl h

namespace Parser

variable {s t : ParserState}

/-! ## Names and literals -/

/-- A node without children. -/
theorem leaf_builds {form : Form} {pos : Nat} {modifiers : Modifiers} (hchildren : form.children = []) :
    BuildsChild s (finishChild form pos modifiers) 1 :=
  finishChild_builds (Arena.slots_nil hchildren)

theorem tokenNode_builds {form : String → Form} (s : ParserState) (hchildren : ∀ text, (form text).children = []) :
    BuildsChild s (tokenNode form) 1 :=
  .get (.past (next_builds s) fun _ _ _ => leaf_builds (hchildren _))

theorem literal_builds (s : ParserState) (kind : LiteralKind) : BuildsChild s (literal kind) 1 :=
  tokenNode_builds s fun _ => rfl

theorem constant_builds (s : ParserState) (word : ConstantWord) : BuildsChild s (constant word) 1 :=
  tokenNode_builds s fun _ => rfl

theorem identifierName_builds (s : ParserState) : BuildsChild s identifierName 1 :=
  .get (.ite (.past (next_builds s) fun _ _ _ => leaf_builds rfl) (failure_builds s _ _))

theorem identifier_builds (s : ParserState) : BuildsChild s identifier 1 :=
  .kind (.ite (identifierName_builds s) (failure_builds s _ _))

theorem identifier?_builds (s : ParserState) : BuildsChild s identifier? 1 :=
  .kind (.ite (identifierName_builds s) (.pure .none))

theorem memberName_builds (s : ParserState) : BuildsChild s memberName 1 :=
  .kind (.ite (tokenNode_builds s fun _ => rfl) (identifierName_builds s))

/-! ## Functions -/

theorem functionLike_builds (s : ParserState) (modifiers : Modifiers) :
    Builds s (functionLike modifiers) fun a x => a.Nests 1 x.2.1 ∧ a.Nests 1 x.2.2 := by
  refine .get (.when (next_builds s) fun t _ => .past (expect_builds t _) fun _ u _ => ?_)
  refine .past (accept_builds u _) fun isGenerator v _ => .bind (identifier?_builds v) fun name w _ hname => ?_
  have rest (x : ParserState) (hwx : w.Extends x) :
      Builds x (block >>= fun body => pure ({ modifiers with
        isAsync := modifiers.isAsync || s.isWord "async"
        isGenerator := modifiers.isGenerator || isGenerator }, name, body))
        fun a (x : Modifiers × Child × Child) => a.Nests 1 x.2.1 ∧ a.Nests 1 x.2.2 :=
    .bind (block_builds x) fun body y hxy hbody => .pure ⟨hname.mono (hwx.trans hxy).grows, hbody⟩
  refine .kind (.ite ?_ ?_)
  · exact .past (skipGroup_builds w) fun _ => rest
  · exact .past (errorHere_builds w _ _) fun _ => rest

theorem functionExpression_builds (s : ParserState) : BuildsChild s functionExpression 2 := by
  refine .pos (.bind (functionLike_builds s _) fun ⟨_, name, body⟩ t _ ⟨hname, hbody⟩ => ?_)
  exact finishChild_builds (Arena.slots_pair rfl (hname.weaken (by decide)) hbody)

/-- A method, if its parameters begin here. Its name may nest as deep as the method. -/
theorem method?_builds {start m : Nat} {modifiers : Modifiers} {name : NodeId}
    (hname : s.arena.Nests (m + 2) (some name)) : BuildsChild s (method? start modifiers name) (m + 2) := by
  refine .kind (.ite ?_ (.pure .none))
  refine .past (skipGroup_builds s) fun _ t hst => .bind (block_builds t) fun body u htu hbody => ?_
  refine finishChild_builds (Arena.slots_pair rfl ?_ (hbody.weaken (by omega)))
  exact hname.mono (hst.trans htu).grows

theorem markup_builds (s : ParserState) : BuildsChild s markup 1 := by
  refine .get ?_
  split
  · exact .past (jumpTo_builds s _) fun _ _ _ => leaf_builds rfl
  · exact .past (giveUp_builds s _) fun _ _ _ => .pure .none

/-! ## Expressions over smaller expressions -/

/-- Whether, where `r` more expressions may be opened, those that count as levels have at most `m` edges to
the side below them, and those of other kinds as many as they add. -/
def Shallow (r m : Nat) (parse : ExpressionKind → Parser Child) : Prop :=
  ∀ k s, s.room = r → BuildsChild s (parse k) (m + 1 + k.extra)

section

variable {parse : ExpressionKind → Parser Child} {r m n : Nat}

theorem Shallow.assignment (hp : Shallow r m parse) (hs : s.room = r) :
    BuildsChild s (parse .assignment) (m + 1) :=
  hp .assignment s hs

theorem commaRest_builds {start : Nat} {first : Child} (hp : Shallow r m parse) (hs : s.room = r)
    (hfirst : s.arena.Nests (m + 2) first) : BuildsChild s (commaRest parse start n first) (m + 2) := by
  induction n generalizing s first with
  | zero => exact .pure hfirst
  | succ n ih =>
      refine .accept (fun t hst => ?_) fun t hst => .pure (hfirst.mono hst.grows)
      refine .bind (hp.assignment (hst.room_eq hs)) fun right u htu hright => ?_
      have hfirst := hfirst.mono (hst.trans htu).grows
      refine .bind (finishChild_builds (Arena.slots_pair rfl hfirst hright)) fun x v huv hx => ?_
      exact ih ((hst.trans (htu.trans huv)).room_eq hs) hx

theorem commaExpression_builds (hp : Shallow r m parse) (hs : s.room = r) :
    BuildsChild s (commaExpression parse) (m + 2) := by
  refine .pos (.bind (hp.assignment hs) fun first t hst hfirst => .budget fun n => ?_)
  exact commaRest_builds hp (hst.room_eq hs) (hfirst.weaken (Nat.le_succ _))

theorem element_builds (hp : Shallow r m parse) (hs : s.room = r) :
    BuildsChild s (element parse) (m + 2) := by
  refine .pos (.accept (fun t hst => ?_) fun t hst => ?_)
  · refine .bind (hp.assignment (hst.room_eq hs)) fun e u _ he => ?_
    exact finishChild_builds (Arena.slots_single rfl (he.weaken (Nat.le_succ _)))
  · exact (hp.assignment (hst.room_eq hs)).weaken (Nat.le_succ _)

theorem callArguments_builds (hp : Shallow r m parse) (hs : s.room = r) :
    Builds s (callArguments parse) fun a xs => ∀ x ∈ xs, a.Nests (m + 2) x :=
  .past (expect_builds s _) fun _ _ hst =>
    commaList_builds _ (fun _ _ _ hab hx => hx.mono hab) (fun _ => element_builds hp)
      (hst.room_eq hs)

theorem propertyName_builds (hp : Shallow r m parse) (hs : s.room = r) :
    BuildsChild s (propertyName parse) (m + 1) := by
  refine .get ?_
  split
  · exact (literal_builds s _).weaken (by omega)
  · exact (literal_builds s _).weaken (by omega)
  · exact (literal_builds s _).weaken (by omega)
  · exact (tokenNode_builds s fun _ => rfl).weaken (by omega)
  · refine .past (next_builds s) fun _ t hst => .bind (hp.assignment (hst.room_eq hs)) fun e u _ he => ?_
    refine .past (expect_builds u _) fun _ v huv => ?_
    exact finishChild_builds (Arena.slots_single rfl (he.mono huv.grows))
  · exact .ite ((identifierName_builds s).weaken (by omega)) (failure_builds s _ _)

/-! ### Classes -/

theorem initializer_builds (hp : Shallow r m parse) (hs : s.room = r) :
    BuildsChild s (initializer parse) (m + 1) :=
  .accept (fun _ hst => hp.assignment (hst.room_eq hs)) fun _ _ => .pure .none

theorem field_builds {start : Nat} {modifiers : Modifiers} {name : NodeId} (hp : Shallow r m parse)
    (hs : s.room = r) (hname : s.arena.Nests (m + 2) (some name)) :
    BuildsChild s (field parse start modifiers name) (m + 2) := by
  refine .bind (initializer_builds hp hs) fun value t hst hvalue => ?_
  refine .past (expectSemicolon_builds t) fun _ u htu => ?_
  refine finishChild_builds (Arena.slots_pair rfl ?_ (hvalue.mono htu.grows))
  exact hname.mono (hst.trans htu).grows

theorem classMemberRest_builds {start : Nat} {modifiers : Modifiers} (hp : Shallow r m parse)
    (hs : s.room = r) : BuildsChild s (classMemberRest parse start modifiers) (m + 2) := by
  refine .get (.when (next_builds s) fun t hst => .past (accept_builds t _) fun _ u htu => ?_)
  refine .get (.when (next_builds u) fun v huv => ?_)
  have hv := (hst.trans (htu.trans huv)).room_eq hs
  refine .bind (propertyName_builds hp hv) fun name w hvw hname => ?_
  cases name with
  | none => exact .pure .none
  | some name =>
      have hname := hname.weaken (Nat.le_succ _)
      exact .kind (.ite (method?_builds hname) (.ite (failure_builds w _ _)
        (field_builds hp (hvw.room_eq hv) hname)))

theorem classMember_builds (hp : Shallow r m parse) (hs : s.room = r) :
    BuildsChild s (classMember parse) (m + 2) := by
  refine .pos (.get (.ite ?_ (classMemberRest_builds hp hs)))
  refine .past (next_builds s) fun _ t hst => .kind (.ite ?_ (classMemberRest_builds hp (hst.room_eq hs)))
  refine .bind (block_builds t) fun body u _ hbody => ?_
  exact finishChild_builds (Arena.slots_pair rfl .none (hbody.weaken (by omega)))

theorem classMembersIn_builds (hp : Shallow r m parse) (hs : s.room = r) :
    Builds s (classMembersIn parse n) fun a xs => ∀ x ∈ xs, a.Nests (m + 2) (some x) := by
  induction n generalizing s with
  | zero => exact .pure nofun
  | succ n ih =>
      refine .past (atListEnd_builds s _) fun _ t hst => .ite (.pure nofun) ?_
      have ht := hst.room_eq hs
      refine .accept (fun u htu => ih (htu.room_eq ht)) fun u htu => .pos ?_
      refine .bind (classMember_builds hp (htu.room_eq ht)) fun member v huv hmember => .pos ?_
      refine .when (next_builds v) fun w hvw => ?_
      have hw := (htu.trans (huv.trans hvw)).room_eq ht
      refine .bind (ih hw) fun members x hwx hmembers => .pure fun id hid => ?_
      obtain hid | hid := List.mem_append.mp hid
      · obtain rfl := Option.mem_toList.mp hid
        exact hmember.mono (hvw.trans hwx).grows
      · exact hmembers id hid

theorem classMembers_builds (hp : Shallow r m parse) (hs : s.room = r) :
    Builds s (classMembers parse) fun a xs => ∀ x ∈ xs, a.Nests (m + 2) (some x) := by
  refine .accept (fun t hst => .budget fun n => ?_) fun t _ => .past (errorHere_builds t _ _) fun _ _ _ => .pure nofun
  refine .bind (classMembersIn_builds hp (hst.room_eq hs)) fun members u _ hmembers => ?_
  exact .past (expect_builds u _) fun _ v huv => .pure fun id hid => (hmembers id hid).mono huv.grows

/-- A class. The edge to what it extends is ungated, so that this may nest as deep as the class. -/
theorem classLike_builds (hp : Shallow r m parse) (hs : s.room = r) :
    Builds s (classLike parse) fun a x =>
      a.Nests 1 x.1 ∧ a.Nests (m + 4) x.2.1 ∧ ∀ id ∈ x.2.2, a.Nests (m + 2) (some id) := by
  refine .past (expect_builds s _) fun _ t hst => .bind (identifier?_builds t) fun name u htu hname => ?_
  have rest {heritage : Child} (v : ParserState) (huv : u.Extends v) (hheritage : v.arena.Nests (m + 4) heritage) :
      Builds v (classMembers parse >>= fun members => pure (name, heritage, members)) fun a x =>
        a.Nests 1 x.1 ∧ a.Nests (m + 4) x.2.1 ∧ ∀ id ∈ x.2.2, a.Nests (m + 2) (some id) := by
    have hv := (hst.trans (htu.trans huv)).room_eq hs
    refine .bind (classMembers_builds hp hv) fun members w hvw hmembers => .pure ⟨?_, ?_, hmembers⟩
    · exact hname.mono (huv.trans hvw).grows
    · exact hheritage.mono hvw.grows
  refine .accept (fun v huv => ?_) fun v huv => rest v huv .none
  have hv := (hst.trans (htu.trans huv)).room_eq hs
  exact .bind (hp .leftHandSide v hv) fun heritage w hvw hheritage => rest w (huv.trans hvw) hheritage

theorem slots_class {a : Arena} {name heritage : Child} {members : List NodeId} {form : Form}
    (hchildren : form.children = name :: heritage :: members.map some) (hungated : form.isUngated 1 = true)
    (h : a.Nests 1 name ∧ a.Nests (m + 4) heritage ∧ ∀ id ∈ members, a.Nests (m + 2) (some id)) :
    a.Slots (m + 3) form := by
  obtain ⟨hname, hheritage, hmembers⟩ := h
  exact Arena.slots_second hchildren hungated (hname.weaken (by omega)) hheritage
    (List.forall_mem_map.mpr fun id hid => (hmembers id hid).weaken (Nat.le_succ _))

theorem classExpression_builds (hp : Shallow r m parse) (hs : s.room = r) :
    BuildsChild s (classExpression parse) (m + 4) :=
  .pos (.bind (classLike_builds hp hs) fun _ _ _ h => finishChild_builds (slots_class rfl rfl h))

/-! ### Literals with parts -/

theorem arrayLiteral_builds (hp : Shallow r m parse) (hs : s.room = r) :
    BuildsChild s (arrayLiteral parse) (m + 3) := by
  refine .pos (.past (next_builds s) fun _ t hst => ?_)
  refine .bind (holedList_builds (fun _ _ _ hab hx => hx.mono hab) (fun u => ?_)
    (fun _ => element_builds hp) (hst.room_eq hs)) fun elements u _ helements => ?_
  · refine .pos (.past (next_builds u) fun _ v _ => ?_)
    exact .bind (finishHole_builds v _) fun hole w _ hhole => .pure (hhole.weaken (by omega))
  · exact finishChild_builds (Arena.slots_of_forall helements)

theorem propertyRest_builds {start : Nat} {name : NodeId} (hp : Shallow r m parse) (hs : s.room = r)
    (hname : s.arena.Nests (m + 2) (some name)) : BuildsChild s (propertyRest parse start name) (m + 2) := by
  refine .accept (fun t hst => ?_) fun t hst => .get (.ite ?_ (failure_builds t _ _))
  · refine .bind (hp.assignment (hst.room_eq hs)) fun value u htu hvalue => ?_
    exact finishChild_builds (Arena.slots_pair rfl (hname.mono (hst.trans htu).grows) hvalue)
  · refine .bind (initializer_builds hp (hst.room_eq hs)) fun _ u htu _ => ?_
    exact finishChild_builds (Arena.slots_single rfl (hname.mono (hst.trans htu).grows))

theorem objectElement_builds (hp : Shallow r m parse) (hs : s.room = r) :
    BuildsChild s (objectElement parse) (m + 2) := by
  refine .pos (.accept (fun t hst => ?_) fun t hst => .get (.when (next_builds t) fun u htu => ?_))
  · refine .bind (hp.assignment (hst.room_eq hs)) fun e u _ he => ?_
    exact finishChild_builds (Arena.slots_single rfl (he.weaken (Nat.le_succ _)))
  · refine .past (accept_builds u _) fun _ v huv => ?_
    have hv := (hst.trans (htu.trans huv)).room_eq hs
    refine .bind (propertyName_builds hp hv) fun name w hvw hname => ?_
    cases name with
    | none => exact .pure .none
    | some name =>
        have hname := hname.weaken (Nat.le_succ _)
        exact .kind (.ite (method?_builds hname) (.ite (failure_builds w _ _)
          (propertyRest_builds hp (hvw.room_eq hv) hname)))

theorem objectLiteral_builds (hp : Shallow r m parse) (hs : s.room = r) :
    BuildsChild s (objectLiteral parse) (m + 3) := by
  refine .pos (.past (next_builds s) fun _ t hst => ?_)
  refine .bind (commaList_builds _ (fun _ _ _ hab hx => hx.mono hab) (fun _ => objectElement_builds hp)
    (hst.room_eq hs)) fun elements u _ helements => ?_
  exact finishChild_builds (Arena.slots_of_forall (List.forall_mem_map.mpr fun _ hid =>
    helements _ (List.reduceOption_mem_iff.mp hid)))

/-! ### Primary expressions -/

theorem parenthesized_builds (hp : Shallow r m parse) (hs : s.room = r) :
    BuildsChild s (parenthesized parse) (m + 2) := by
  refine .pos (.past (next_builds s) fun _ t hst => ?_)
  refine .bind (commaExpression_builds hp (hst.room_eq hs)) fun e u _ he => ?_
  refine .past (expect_builds u _) fun _ v huv => ?_
  exact finishChild_builds (Arena.slots_single rfl (he.mono huv.grows))

theorem regexLiteral_builds (s : ParserState) : BuildsChild s regexLiteral 1 := by
  have hrescan : BuildsNothing s (modify fun s => { s with lexer := s.lexer.rescanSlash }) :=
    ⟨⟨.refl _, rfl⟩, trivial⟩
  exact .past hrescan fun _ t _ => literal_builds t _

theorem primary_builds (hp : Shallow r m parse) (hs : s.room = r) :
    BuildsChild s (primary parse) (m + 4) := by
  refine .get ?_
  split
  · exact .ite ((functionExpression_builds s).weaken (by omega)) ((identifierName_builds s).weaken (by omega))
  · exact (literal_builds s _).weaken (by omega)
  · exact (literal_builds s _).weaken (by omega)
  · exact (literal_builds s _).weaken (by omega)
  · exact (literal_builds s _).weaken (by omega)
  · exact (literal_builds s _).weaken (by omega)
  · exact (regexLiteral_builds s).weaken (by omega)
  · exact (regexLiteral_builds s).weaken (by omega)
  · exact (constant_builds s _).weaken (by omega)
  · exact (constant_builds s _).weaken (by omega)
  · exact (constant_builds s _).weaken (by omega)
  · exact (constant_builds s _).weaken (by omega)
  · exact (constant_builds s _).weaken (by omega)
  · exact (identifierName_builds s).weaken (by omega)
  · exact (memberName_builds s).weaken (by omega)
  · exact (parenthesized_builds hp hs).weaken (by omega)
  · exact (arrayLiteral_builds hp hs).weaken (by omega)
  · exact (objectLiteral_builds hp hs).weaken (by omega)
  · exact (functionExpression_builds s).weaken (by omega)
  · exact classExpression_builds hp hs
  · exact (markup_builds s).weaken (by omega)
  · exact failure_builds s _ _

/-! ### Accesses and calls -/

theorem elementArgument_builds (hp : Shallow r m parse) (hs : s.room = r) :
    BuildsChild s (elementArgument parse) (m + 2) := by
  refine .bind (commaExpression_builds hp hs) fun argument t _ hargument => ?_
  exact .past (expect_builds t _) fun _ u htu => .pure (hargument.mono htu.grows)

/-- A node over the target of a link and what follows it. -/
theorem link_builds {form : Form} {start : Nat} {target : Child} {rest : List Child}
    (hchildren : form.children = target :: rest) (hst : s.Extends t)
    (htarget : s.arena.Nests (m + 4) target) (hrest : ∀ c ∈ rest, t.arena.Nests (m + 2) c) :
    BuildsChild t (finishChild form start) (m + 4) :=
  finishChild_builds (Arena.slots_cons hchildren (htarget.mono hst.grows) fun c hc =>
    (hrest c hc).weaken (Nat.le_succ _))

theorem optionalLink_builds {calls : Bool} {start : Nat} {target : Child} (hp : Shallow r m parse)
    (hs : s.room = r) (htarget : s.arena.Nests (m + 4) target) :
    BuildsChild s (optionalLink parse calls start target) (m + 4) := by
  refine .kind (.ite ?_ (.accept (fun t hst => ?_) fun t hst => ?_))
  · exact .bind (callArguments_builds hp hs) fun _ t hst harguments => link_builds rfl hst htarget harguments
  · refine .bind (elementArgument_builds hp (hst.room_eq hs)) fun argument u htu hargument => ?_
    exact link_builds rfl (hst.trans htu) htarget (List.forall_mem_singleton.mpr hargument)
  · refine .bind (memberName_builds t) fun name u htu hname => ?_
    exact link_builds rfl (hst.trans htu) htarget (List.forall_mem_singleton.mpr (hname.weaken (by omega)))

theorem linksIn_builds {calls : Bool} {start : Nat} {target : Child} (hp : Shallow r m parse)
    (hs : s.room = r) (htarget : s.arena.Nests (m + 4) target) :
    BuildsChild s (linksIn parse calls start n target) (m + 4) := by
  induction n generalizing s target with
  | zero => exact .pure htarget
  | succ n ih =>
      -- The node over the target and what follows it is the target of the next link.
      have link {form : Form} {rest : List Child} {t : ParserState} (hchildren : form.children = target :: rest)
          (hst : s.Extends t) (hrest : ∀ c ∈ rest, t.arena.Nests (m + 2) c) :
          BuildsChild t (finishChild form start >>= linksIn parse calls start n) (m + 4) :=
        .bind (link_builds hchildren hst htarget hrest) fun x u htu hx => ih ((hst.trans htu).room_eq hs) hx
      have template {kind : LiteralKind} : BuildsChild s (literal kind >>= fun template =>
          finishChild (.taggedTemplate target template) start >>= linksIn parse calls start n) (m + 4) := by
        refine .bind (literal_builds s kind) fun template t hst htemplate => ?_
        exact link rfl hst (List.forall_mem_singleton.mpr (htemplate.weaken (by omega)))
      refine .kind ?_
      split
      · refine .past (next_builds s) fun _ t hst => .bind (memberName_builds t) fun name u htu hname => ?_
        exact link rfl (hst.trans htu) (List.forall_mem_singleton.mpr (hname.weaken (by omega)))
      · refine .past (next_builds s) fun _ t hst => ?_
        have ht := hst.room_eq hs
        refine .bind (optionalLink_builds hp ht (htarget.mono hst.grows)) fun x u htu hx => ?_
        exact ih (htu.room_eq ht) hx
      · refine .past (next_builds s) fun _ t hst => ?_
        refine .bind (elementArgument_builds hp (hst.room_eq hs)) fun argument u htu hargument => ?_
        exact link rfl (hst.trans htu) (List.forall_mem_singleton.mpr hargument)
      · refine .ite ?_ (.pure htarget)
        exact .bind (callArguments_builds hp hs) fun _ t hst harguments => link rfl hst harguments
      · exact template
      · exact template
      · exact .pure htarget

theorem links_builds {calls : Bool} {start : Nat} {target : Child} (hp : Shallow r m parse)
    (hs : s.room = r) (htarget : s.arena.Nests (m + 4) target) :
    BuildsChild s (links parse calls start target) (m + 4) :=
  .budget fun _ => linksIn_builds hp hs htarget

theorem newOrPrimary_builds (hp : Shallow r m parse) (hs : s.room = r) :
    BuildsChild s (newOrPrimary parse) (m + 4) :=
  .kind (.ite (hp .new s hs) (primary_builds hp hs))

theorem leftHandSide_builds (hp : Shallow r m parse) (hs : s.room = r) :
    BuildsChild s (leftHandSide parse) (m + 4) :=
  .pos (.bind (newOrPrimary_builds hp hs) fun _ _ hst htarget => links_builds hp (hst.room_eq hs) htarget)

theorem newExpression_builds (hp : Shallow r m parse) (hs : s.room = r) :
    BuildsChild s (newExpression parse) (m + 4) := by
  refine .pos (.past (next_builds s) fun _ t hst => ?_)
  have ht := hst.room_eq hs
  refine .bind (newOrPrimary_builds hp ht) fun target u htu htarget => ?_
  refine .bind (links_builds hp (htu.room_eq ht) htarget) fun callee v huv hcallee => .kind (.ite ?_ ?_)
  · have harguments : Builds v (some <$> callArguments parse) fun a xs => ∀ x ∈ xs.getD [], a.Nests (m + 2) x :=
      .map (callArguments_builds hp ((htu.trans huv).room_eq ht)) fun _ _ hxs => hxs
    exact .bind harguments fun arguments w hvw harguments => link_builds rfl hvw hcallee harguments
  · exact link_builds rfl (.refl v) hcallee nofun

/-! ### Operators -/

theorem unary_builds (hp : Shallow r m parse) (hs : s.room = r) :
    BuildsChild s (unary parse) (m + 4) := by
  refine .get (.ite ?_ ?_)
  · refine .past (next_builds s) fun _ t hst => .bind (hp .unary t (hst.room_eq hs)) fun operand u _ hoperand => ?_
    exact finishChild_builds (Arena.slots_single rfl (hoperand.weaken (Nat.le_add_right _ 3)))
  · refine .bind (hp .leftHandSide s hs) fun operand t _ hoperand => .get (.ite ?_ (.pure hoperand))
    refine .past (next_builds t) fun _ u htu => ?_
    exact finishChild_builds (Arena.slots_single rfl (hoperand.mono htu.grows))

/-- An operator over two operands. That to the right of a power may nest as deep as the power; all other
operators group to the left. -/
theorem slots_operator {a : Arena} {above : Nat} {left right : Child} {operator : TokenKind}
    (habove : above < operator.precedence) (hleft : a.Nests (m + 1 + (11 - above)) left)
    (hright : a.Nests (m + 1 + (11 - if operator = .punct .asteriskAsterisk then operator.precedence - 1
      else operator.precedence)) right) :
    a.Slots (m + (11 - above)) (.binary left operator right) := by
  have hleft : a.Nests (m + (11 - above) + 1) left := hleft.weaken (by omega)
  by_cases hpower : operator = .punct .asteriskAsterisk
  · subst hpower
    exact Arena.slots_second rfl rfl hleft (hright.weaken (by rw [if_pos rfl]; omega)) nofun
  · have hle := TokenKind.precedence_le hpower
    rw [if_neg hpower] at hright
    exact Arena.slots_pair rfl hleft (hright.weaken (by omega))

theorem binaryRest_builds {above start : Nat} {first : Child} (hp : Shallow r m parse) (hs : s.room = r)
    (hfirst : s.arena.Nests (m + 1 + (11 - above)) first) :
    BuildsChild s (binaryRest parse above start n first) (m + 1 + (11 - above)) := by
  induction n generalizing s first with
  | zero => exact .pure hfirst
  | succ n ih =>
      refine .kind ?_
      dsimp only
      split
      · exact .pure hfirst
      · rename_i hbinds
        refine .past (next_builds s) fun _ t hst => ?_
        have ht := hst.room_eq hs
        refine .bind (hp (.binary _) t ht) fun right u htu hright => ?_
        have hfirst := hfirst.mono (hst.trans htu).grows
        refine .bind (finishChild_builds (slots_operator (by omega) hfirst hright)) fun x v huv hx => ?_
        exact ih ((htu.trans huv).room_eq ht) (hx.weaken (by omega))

theorem binary_builds {above : Nat} (hp : Shallow r m parse) (hs : s.room = r) :
    BuildsChild s (binary parse above) (m + 1 + (11 - above)) := by
  refine .pos (.bind (hp .unary s hs) fun first t hst hfirst => .budget fun n => ?_)
  exact binaryRest_builds hp (hst.room_eq hs) (hfirst.weaken (Nat.le_add_right _ _))

theorem conditional_builds (hp : Shallow r m parse) (hs : s.room = r) :
    BuildsChild s (conditional parse) (m + 12) := by
  refine .pos (.bind (hp (.binary 0) s hs) fun condition t hst hcondition => ?_)
  have ht := hst.room_eq hs
  refine .accept (fun u htu => ?_) fun u htu => .pure (hcondition.mono htu.grows)
  have hu := htu.room_eq ht
  refine .bind (hp.assignment hu) fun whenTrue v huv htrue => .past (expect_builds v _) fun _ w hvw => ?_
  refine .bind (hp.assignment ((huv.trans hvw).room_eq hu)) fun whenFalse x hwx hfalse => ?_
  have hcondition := hcondition.mono (htu.trans (huv.trans (hvw.trans hwx))).grows
  refine finishChild_builds (Arena.slots_cons rfl hcondition (List.forall_mem_cons.mpr ⟨?_, ?_⟩))
  · exact htrue.mono_of_le (hvw.trans hwx).grows (by omega)
  · exact List.forall_mem_singleton.mpr (hfalse.weaken (by omega))

theorem arrowFunction_builds {stop : Nat} {isAsync : Bool} (hp : Shallow r m parse) (hs : s.room = r) :
    BuildsChild s (arrowFunction parse stop isAsync) (m + 2) := by
  refine .pos (.past (jumpTo_builds s _) fun _ t hst => .kind (.ite ?_ ?_))
  · refine .bind (block_builds t) fun body u _ hbody => ?_
    exact finishChild_builds (Arena.slots_pair rfl .none (hbody.weaken (by omega)))
  · refine .bind (hp.assignment (hst.room_eq hs)) fun body u _ hbody => ?_
    exact finishChild_builds (Arena.slots_pair rfl .none hbody)

theorem assignment_builds (hp : Shallow r m parse) (hs : s.room = r) :
    BuildsChild s (assignment parse) (m + 12) := by
  refine .get ?_
  split
  · exact (arrowFunction_builds hp hs).weaken (by omega)
  · refine .pos (.bind (conditional_builds hp hs) fun left t hst hleft => .kind (.ite ?_ (.pure hleft)))
    refine .past (next_builds t) fun _ u htu => ?_
    refine .bind (hp.assignment ((hst.trans htu).room_eq hs)) fun right v huv hright => ?_
    have hleft := hleft.mono (htu.trans huv).grows
    exact finishChild_builds (Arena.slots_pair rfl hleft (hright.weaken (by omega)))

end

/-- Every level that may still be opened makes room for the operators of eleven precedences. -/
theorem expressionIn_shallow (n r : Nat) : Shallow r (11 * r) (expressionIn n) := by
  induction n generalizing r with
  | zero => exact fun _ _ _ => .pure .none
  | succ n ih =>
      intro k s hs
      cases k with
      | assignment =>
          refine nested_builds hs fun t r' hr ht => (assignment_builds (ih r') ht).weaken ?_
          rw [hr, ExpressionKind.extra]
          omega
      | unary =>
          refine nested_builds hs fun t r' hr ht => (unary_builds (ih r') ht).weaken ?_
          rw [hr, ExpressionKind.extra]
          omega
      | binary above => exact binary_builds (ih r) hs
      | leftHandSide => exact leftHandSide_builds (ih r) hs
      | new => exact newExpression_builds (ih r) hs

theorem expression_shallow (r : Nat) : Shallow r (11 * r) expression :=
  fun k s hs => .budget fun n => expressionIn_shallow (6 * n) r k s hs

end Parser

end PropContract
