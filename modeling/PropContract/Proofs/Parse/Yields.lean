import PropContract.Proofs.Parse.Step
import PropContract.Proofs.Tree.Lawful

/-!
# What reading leaves behind

From the state where a construct begins to the state where it ends, the parser has added nodes that
wait for a parent. They are new, they are different, and without errors they stand in a row behind the
beginning.
-/

namespace PropContract

open Text

namespace ParserState

/-- How much of the text is left. -/
def left (s : ParserState) (src : Source) : Nat := src.size - s.token.start

/-- Whether steps lead from `s` to `t` and leave the children in `row` without a parent. With `took`, a
token has been consumed. -/
structure Yields (src : Source) (took : Bool) (s : ParserState) (row : List Child) (t : ParserState) :
    Prop where
  moves : s.Moves t
  begins : src.OnBoundary s.token.start
  ready : t.Ready src
  onward : s.Onward t
  placed : s.Placed src → t.Placed src
  took : took = true → s.token.start < t.prevEnd
  keeps : ∀ id, id < s.arena.size → t.arena.get? id = s.arena.get? id
  lawful : s.arena.Lawful → t.arena.Lawful
  loose : ∀ id, some id ∈ row →
    s.arena.size ≤ id ∧ ∃ n, t.arena.get? id = some n ∧ n.parent = none
  nodup : row.reduceOption.Nodup
  tiles : t.Clean → t.arena.Row s.token.start row t.prevEnd

variable {src : Source} {b b' : Bool} {s t u : ParserState} {row row' : List Child} {n : Node}

theorem Yields.refl (h : s.Ready src) : Yields src false s [] s where
  moves := .refl
  begins := h.token.start
  ready := h
  onward := .refl s
  placed := id
  took := (nomatch ·)
  keeps _ _ := rfl
  lawful := id
  loose _ hid := nomatch hid
  nodup := List.nodup_nil
  tiles _ := trivial

/-- A step that adds no node. -/
theorem Yields.of_step (h : s.Ready src) (hstep : Step s t) (harena : t.arena = s.arena)
    (hplaced : s.Placed src → t.Placed src) : Yields src false s [] t where
  moves := .single hstep
  begins := h.token.start
  ready := (hstep.ready h).1
  onward := (hstep.ready h).2
  placed := hplaced
  took := (nomatch ·)
  keeps id _ := by rw [harena]
  lawful hs := harena ▸ hs
  loose _ hid := nomatch hid
  nodup := List.nodup_nil
  tiles _ := trivial

/-- What has been there is still there. -/
theorem Yields.grows (h : Yields src b s row t) : s.arena.Grows t.arena := by
  intro id form hform
  rw [← hform, Arena.form?, Arena.form?, Option.bind_eq_bind, Option.bind_some, Option.bind_some,
    h.keeps id (Arena.lt_size_of_form? hform)]

/-- A row with fewer children, which stay without a parent. -/
theorem Yields.sublist (h : Yields src b s row t) (hsub : row'.Sublist row) :
    Yields src b s row' t :=
  { h with
    loose := fun id hid => h.loose id (hsub.subset hid)
    nodup := h.nodup.sublist (hsub.filterMap _)
    tiles := fun ht => (h.tiles ht).sublist hsub }

/-- A child that may be left out. -/
theorem Yields.optional {c : Child} (h : Yields src b s [c] t) :
    Yields src b s (Form.optional c) t := by
  cases c with
  | none => exact h.sublist (List.nil_sublist _)
  | some id => exact h

/-- Where there are errors, a child may be missing. -/
theorem Yields.missing (h : Yields src b s row t) (ht : ¬ t.Clean) : Yields src b s [none] t where
  moves := h.moves
  begins := h.begins
  ready := h.ready
  onward := h.onward
  placed := h.placed
  took := h.took
  keeps := h.keeps
  lawful := h.lawful
  loose _ hid := nomatch List.mem_singleton.mp hid
  nodup := List.nodup_nil
  tiles hclean := absurd hclean ht

theorem Yields.weaken (h : Yields src b s row t) : Yields src false s row t :=
  { h with took := (nomatch ·) }

theorem Yields.whether (h : Yields src true s row t) (b : Bool) : Yields src b s row t :=
  { h with took := fun _ => h.took rfl }

theorem Yields.trans (h : Yields src b s row t) (h' : Yields src b' t row' u) :
    Yields src (b || b') s (row ++ row') u where
  moves := Relation.ReflTransGen.trans h.moves h'.moves
  begins := h.begins
  ready := h'.ready
  onward := h.onward.trans h'.onward
  placed hs := h'.placed (h.placed hs)
  took hb := by
    rcases Bool.or_eq_true_iff.mp hb with hb | hb
    · exact (h.took hb).trans_le h'.onward.prevEnd
    · exact h.onward.start.trans_lt (h'.took hb)
  keeps id hid := (h'.keeps id (hid.trans_le h.onward.size)).trans (h.keeps id hid)
  lawful hs := h'.lawful (h.lawful hs)
  loose id hid := by
    rcases List.mem_append.mp hid with hid | hid
    · obtain ⟨hle, n, hn, hparent⟩ := h.loose id hid
      exact ⟨hle, n, (h'.keeps id (Arena.lt_size_of_get? hn)).trans hn, hparent⟩
    · obtain ⟨hle, hn⟩ := h'.loose id hid
      exact ⟨h.onward.size.trans hle, hn⟩
  nodup := by
    rw [List.reduceOption_append, List.nodup_append]
    refine ⟨h.nodup, h'.nodup, fun id hid id' hid' heq => ?_⟩
    obtain ⟨-, n, hn, -⟩ := h.loose id (List.reduceOption_mem_iff.mp hid)
    obtain ⟨hle, -⟩ := h'.loose id' (List.reduceOption_mem_iff.mp hid')
    exact absurd (Arena.lt_size_of_get? hn) (heq ▸ hle).not_gt
  tiles hu := by
    have hrow := (h.tiles (h'.onward.clean hu)).mono (b := u.arena) (fun id n hn =>
      ⟨n, (h'.keeps id (Arena.lt_size_of_get? hn)).trans hn, rfl, rfl⟩) (le_refl _) (le_refl _)
    exact hrow.append (h'.tiles hu) h.onward.start h.ready.le h'.onward.prevEnd

/-- Adding nothing to a row. -/
theorem Yields.on (h : Yields src b s row t) (h' : Yields src b' t [] u) :
    Yields src (b || b') s row u := by
  rw [← List.append_nil row]
  exact h.trans h'

/-- A node over the whole row takes its place. -/
theorem Yields.add (h : Yields src b s row t) (hparent : n.parent = none) (hrow : n.form.row = row)
    (hstart : s.token.start ≤ n.start) (hle : n.start ≤ n.stop) (hstop : n.stop ≤ t.token.start)
    (hbounds : src.OnBoundary n.start ∧ src.OnBoundary n.stop) (hlawful : n.form.Lawful t.arena n.modifiers)
    (hclean : t.Clean → n.stop ≤ t.prevEnd ∧ t.arena.Row n.start row n.stop ∧
      n.form.Spells src n.start n.stop) :
    Yields src b s [some t.arena.size] { t with arena := t.arena.add n } := by
  have htakes : t.Takes n :=
    { parent := hparent
      le := hle
      stop_le := hstop
      loose := fun id hid => (h.loose id (hrow ▸ hid)).2
      nodup := hrow.symm ▸ h.nodup
      row := fun ht => hrow.symm ▸ (hclean ht).2.1
      spells := fun ht => h.ready.source.symm ▸ (hclean ht).2.2 }
  obtain ⟨hready, honward⟩ := (Step.add t htakes).ready h.ready
  have hnew : (t.arena.add n).get? t.arena.size = some n := by rw [Arena.get?_add, if_pos rfl]
  refine ⟨h.moves.tail (.add t htakes), h.begins, hready, h.onward.trans honward,
    fun hs => (h.placed hs).add hle hbounds.1 hbounds.2, h.took, fun id hid => ?_,
    fun hs => (h.lawful hs).add hlawful, fun id hid => ?_, List.nodup_singleton _, fun ht => ?_⟩
  · have hne : id ≠ t.arena.size := (hid.trans_le h.onward.size).ne
    have hnot : some id ∉ n.form.children := fun hmem =>
      absurd hid (h.loose id (hrow ▸ Form.mem_row_iff.mpr hmem)).1.not_gt
    exact (Arena.get?_add n id).trans (by rw [if_neg hne, if_neg hnot, h.keeps id hid])
  · obtain rfl := Option.some.inj (List.mem_singleton.mp hid)
    exact ⟨h.onward.size, n, hnew, hparent⟩
  · exact .singleton hnew hstart hle (hclean ht).1

/-- The same for a node from the beginning to the end of what has been consumed. -/
theorem Yields.addNode {form : Form} {modifiers : Modifiers} (h : Yields src b s row t)
    (hrow : form.row = row) (htook : b = true ∨ row ≠ []) (hlawful : form.Lawful t.arena modifiers)
    (hspells : t.Clean → form.Spells src s.token.start t.prevEnd) :
    Yields src b s [some t.arena.size] (t.addNode form s.token.start modifiers) := by
  have hstop : src.OnBoundary (max t.prevEnd s.token.start) := by
    rw [max_def]
    split
    · exact h.begins
    · exact h.ready.prev
  refine h.add rfl hrow (le_refl _) (le_max_right _ _) (max_le h.ready.le h.onward.start)
    ⟨h.begins, hstop⟩ hlawful fun ht => ?_
  have hle : s.token.start ≤ t.prevEnd := htook.elim (fun hb => (h.took hb).le) ((h.tiles ht).le ·)
  change max t.prevEnd s.token.start ≤ t.prevEnd ∧
    t.arena.Row s.token.start row (max t.prevEnd s.token.start) ∧
    form.Spells src s.token.start (max t.prevEnd s.token.start)
  rw [max_eq_left hle]
  exact ⟨le_refl _, h.tiles ht, hspells ht⟩

/-! ## How much is left -/

theorem Yields.left_le (h : Yields src b s row t) : t.left src ≤ s.left src :=
  Nat.sub_le_sub_left h.onward.start _

theorem Yields.left_lt (h : Yields src true s row t) : t.left src < s.left src := by
  have hlt := (h.took rfl).trans_le h.ready.le
  have hsize := h.ready.token.start.le
  rw [left, left]
  omega

/-- Where the current token is another one, a token has been passed. -/
theorem Yields.left_lt_of_ne (h : Yields src b s row t) (hne : t.token.start ≠ s.token.start) :
    t.left src < s.left src := by
  have hle := h.onward.start
  have hsize := h.ready.token.start.le
  rw [left, left]
  omega

/-- Where the current token is still the same one, it is not the end of the text. -/
theorem Yields.ne_endOfFile (h : Yields src b s row t) (hs : s.Ready src) (hkind : s.kind ≠ .endOfFile)
    (heq : t.token.start = s.token.start) : t.kind ≠ .endOfFile := by
  intro hend
  have hlt := (hs.token.full hkind).trans_le hs.token.stop.le
  exact absurd (h.ready.token.atEnd hend) (heq.trans_lt hlt).ne

/-! ## Moving on -/

theorem Ready.next (h : s.Ready src) : Yields src false s [] s.advance :=
  .of_step h (.advance s) rfl (·.advance h.source h.token.stop)

/-- A token before the end of the text is consumed. -/
theorem Ready.next_took (h : s.Ready src) (hkind : s.kind ≠ .endOfFile) :
    Yields src true s [] s.advance :=
  { h.next with took := fun _ => h.token.full hkind }

theorem Ready.jump_took {pos : Nat} (h : s.Ready src) (hlands : s.Lands pos) (hlt : s.token.start < pos) :
    Yields src true s [] (s.jump pos) :=
  have hbound := h.source ▸ (hlands.spec (h.source.symm ▸ h.token)).2
  { Yields.of_step h (.jump s hlands) rfl (·.jump h hbound) with took := fun _ => hlt }

theorem Ready.report (h : s.Ready src) (message : Message) (args : List String)
    (hmessage : message.isSyntax) :
    Yields src false s [] (s.reportHere message args) ∧ (s.reportHere message args).errors ≠ [] ∧
      (s.reportHere message args).lexer = s.lexer := by
  obtain ⟨hne, hlexer, harena, -⟩ := errors_reportHere message args h.quiet
  exact ⟨.of_step h (.report s message args) harena (·.reportHere args h hmessage), hne, hlexer⟩

/-- A text that has a token left has bytes left. -/
theorem Ready.lt_size (h : s.Ready src) (hkind : s.kind ≠ .endOfFile) : s.token.start < src.size :=
  (h.token.full hkind).trans_le h.token.stop.le

end ParserState

end PropContract
