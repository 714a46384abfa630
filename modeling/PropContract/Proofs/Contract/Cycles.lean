import Mathlib.Data.List.Nodup
import PropContract.Proofs.Contract.ShapeGraph
import PropContract.Proofs.Stateful

/-!
# Cycles of shapes are found exactly

One walk in depth, with the objects above it in `active` and those found on a cycle in `cyclic`, reads
every reference as the unfolding does. Inside a cycle the walk may read a reference wrongly, but then
it drops the result.
-/

namespace PropContract

namespace Classified

section

variable (a : Arena) (r : Resolver)

/-! ## References past active objects -/

/-- A way from one object to another one with no object of `active` in between. -/
inductive Passes (active : List NodeId) : NodeId → NodeId → Prop
  | edge {object other} : Refers a r object other → Passes active object other
  | step {object next other} : Refers a r object next → next ∉ active → Passes active next other →
      Passes active object other

variable {a r} {active : List NodeId} {object other : NodeId}

/-- One more active object is avoided, or a way starts at it. -/
theorem Passes.cons (extra : NodeId) (h : Passes a r active object other) :
    Passes a r (extra :: active) object other ∨ Passes a r (extra :: active) extra other := by
  induction h with
  | edge h => exact .inl (.edge h)
  | @step object next other h hnext _ ih =>
      obtain ih | ih := ih
      · by_cases heq : next = extra
        · exact .inr (heq ▸ ih)
        · exact .inl (.step h (by simp [heq, hnext]) ih)
      · exact .inr ih

/-- The first active object on a way is reached, unless the way passes them all. -/
theorem passes_of_transGen (active : List NodeId)
    (h : Relation.TransGen (Refers a r) object other) :
    (∃ x ∈ active, Relation.TransGen (Refers a r) object x) ∨ Passes a r active object other := by
  induction h using Relation.TransGen.head_induction_on with
  | single h => exact .inr (.edge h)
  | @head object next h _ ih =>
      by_cases hnext : next ∈ active
      · exact .inl ⟨next, hnext, .single h⟩
      · obtain ⟨x, hx, ih⟩ | ih := ih
        · exact .inl ⟨x, hx, .head h ih⟩
        · exact .inr (.step h hnext ih)

variable (a r)

/-- Whether an object is reached from some object in `starts`. -/
def Reaches (starts : NodeId → Prop) (other : NodeId) : Prop :=
  ∃ start, starts start ∧ Relation.ReflTransGen (Refers a r) start other

/-- Whether an object is in `starts`, or reached from there with no active object in between. -/
def Leads (active : List NodeId) (starts : NodeId → Prop) (other : NodeId) : Prop :=
  ∃ start, starts start ∧ (other = start ∨ start ∉ active ∧ Passes a r active start other)

variable {a r}

theorem leads_of_passes (h : Passes a r active object other) :
    Leads a r active (Refers a r object) other := by
  cases h with
  | edge h => exact ⟨other, h, .inl rfl⟩
  | @step _ next _ h hnext hother => exact ⟨next, h, .inr ⟨hnext, hother⟩⟩

theorem Reaches.of_refers (h : Reaches a r (Refers a r object) other) :
    Relation.TransGen (Refers a r) object other := by
  obtain ⟨start, hstart, h⟩ := h
  exact .head' hstart h

theorem reaches_or {p q : NodeId → Prop} :
    Reaches a r (fun x => p x ∨ q x) other ↔ Reaches a r p other ∨ Reaches a r q other := by
  simp only [Reaches, or_and_right, exists_or]

theorem leads_or {p q : NodeId → Prop} :
    Leads a r active (fun x => p x ∨ q x) other ↔
      Leads a r active p other ∨ Leads a r active q other := by
  simp only [Leads, or_and_right, exists_or]

/-! ## What a reading does to the objects under watch -/

/-- Whether the objects found on a cycle are active, each of them once. -/
structure WellWatched (s : Expansion) : Prop where
  active : ∀ x ∈ s.cyclic, x ∈ s.active
  nodup : s.cyclic.Nodup

namespace WellWatched

variable {s : Expansion}

theorem subset (hs : WellWatched s) : s.cyclic ⊆ s.active :=
  fun x hx => hs.active x hx

theorem watch (hs : WellWatched s) (object : NodeId) :
    WellWatched { s with active := object :: s.active } :=
  ⟨fun x hx => List.mem_cons_of_mem _ (hs.active x hx), hs.nodup⟩

theorem insert (hs : WellWatched s) (hobject : object ∈ s.active) :
    WellWatched { s with cyclic := s.cyclic.insert object } where
  active x hx := by
    obtain rfl | hx := List.mem_insert_iff.mp hx
    · exact hobject
    · exact hs.active x hx
  nodup := hs.nodup.insert

/-- An object that is not under watch any more is not on a cycle any more. -/
theorem erase (hs : WellWatched s) (object : NodeId) :
    WellWatched { s with active := s.active.erase object, cyclic := s.cyclic.erase object } where
  active x hx := by
    obtain ⟨hne, hx⟩ := hs.nodup.mem_erase_iff.mp hx
    exact (List.mem_erase_of_ne hne).mpr (hs.active x hx)
  nodup := hs.nodup.erase object

end WellWatched

variable (a r)

/-- What reading all of `starts` does: it finds the active objects that it leads to. -/
structure Watched (starts : NodeId → Prop) (s s' : Expansion) : Prop where
  active : s'.active = s.active
  nodup : s'.cyclic.Nodup
  keeps : ∀ x ∈ s.cyclic, x ∈ s'.cyclic
  sound : ∀ x ∈ s'.cyclic, x ∈ s.cyclic ∨ x ∈ s.active ∧ Reaches a r starts x
  complete : ∀ x ∈ s.active, Leads a r s.active starts x → x ∈ s'.cyclic

/-- A reading that is watched and, past no limit and back to no active object, has a good result. -/
def Tracks {α : Type} (starts : NodeId → Prop) (good : α → Prop) (m : Classifier α) : Prop :=
  ∀ s, (m.run s).2.limited = false → s.limited = false ∧
    (WellWatched s → Watched a r starts s (m.run s).2 ∧
      ((∀ x ∈ s.active, ¬ Reaches a r starts x) → good (m.run s).1))

variable {a r}

theorem Watched.wellWatched {starts : NodeId → Prop} {s s' : Expansion}
    (h : Watched a r starts s s') (hs : WellWatched s) : WellWatched s' where
  active x hx := by
    rw [h.active]
    exact (h.sound x hx).elim (hs.active x) And.left
  nodup := h.nodup

namespace Tracks

variable {α β γ : Type} {p q : NodeId → Prop} {good : α → Prop} {m : Classifier α}

theorem pure {x : α} (h : good x) : Tracks a r (fun _ => False) good (Pure.pure x : Classifier α) := by
  intro s hs
  refine ⟨hs, fun hw => ⟨⟨rfl, hw.nodup, fun _ hx => hx, fun _ hx => .inl hx, ?_⟩, fun _ => h⟩⟩
  rintro x - ⟨start, hstart, -⟩
  exact hstart.elim

theorem map {good' : β → Prop} (f : α → β) (hf : ∀ x, good x → good' (f x))
    (h : Tracks a r p good m) : Tracks a r p good' (f <$> m) := by
  intro s hs
  rw [Stateful.run_map] at hs ⊢
  obtain ⟨hlimited, h⟩ := h s hs
  refine ⟨hlimited, fun hw => ?_⟩
  obtain ⟨hwatched, hgood⟩ := h hw
  exact ⟨hwatched, fun hreach => hf _ (hgood hreach)⟩

theorem starts_congr (hpq : ∀ x, p x ↔ q x) (h : Tracks a r p good m) : Tracks a r q good m := by
  obtain rfl : p = q := funext fun x => propext (hpq x)
  exact h

theorem seq {good₁ : α → Prop} {good₂ : β → Prop} {good : γ → Prop} {k : Classifier β}
    (f : α → β → γ) (hf : ∀ x y, good₁ x → good₂ y → good (f x y))
    (hm : Tracks a r p good₁ m) (hk : Tracks a r q good₂ k) :
    Tracks a r (fun x => p x ∨ q x) good (do return f (← m) (← k)) := by
  intro s hs
  simp only [Stateful.run_bind, Stateful.run_pure] at hs ⊢
  obtain ⟨hlimited₁, hk⟩ := hk (m.run s).2 hs
  obtain ⟨hlimited, hm⟩ := hm s hlimited₁
  refine ⟨hlimited, fun hw => ?_⟩
  obtain ⟨hm, hgood₁⟩ := hm hw
  obtain ⟨hk, hgood₂⟩ := hk (hm.wellWatched hw)
  have hactive := hm.active
  refine ⟨⟨hk.active.trans hactive, hk.nodup, fun x hx => hk.keeps x (hm.keeps x hx), ?_, ?_⟩, ?_⟩
  · intro x hx
    rw [reaches_or]
    obtain hx | ⟨hx, hreach⟩ := hk.sound x hx
    · obtain hx | ⟨hx, hreach⟩ := hm.sound x hx
      · exact .inl hx
      · exact .inr ⟨hx, .inl hreach⟩
    · exact .inr ⟨hactive ▸ hx, .inr hreach⟩
  · intro x hx hleads
    obtain hleads | hleads := leads_or.mp hleads
    · exact hk.keeps x (hm.complete x hx hleads)
    · rw [← hactive] at hx hleads
      exact hk.complete x hx hleads
  · intro hreach
    simp only [reaches_or, not_or] at hreach
    refine hf _ _ (hgood₁ fun x hx => (hreach x hx).1) (hgood₂ fun x hx => ?_)
    exact (hreach x (hactive ▸ hx)).2

end Tracks

/-! ## References -/

section

variable (a r)

/-- The named objects that the walk comes to first from a target. -/
def Starts : ShapeTarget → NodeId → Prop
  | .inPlace object, x => Refers a r object x
  | .named object, x => x = object

end

/-- An object is under watch while it is read, and never afterwards. -/
theorem ofReference_run {shape : NodeId → Classifier Classified} {s s' : Expansion}
    {c : Classified} (h : object ∉ s.active)
    (hrun : (shape object).run { s with active := object :: s.active } = (c, s')) :
    (ofReference shape object).run s =
      (if object ∈ s'.cyclic then .invalid .illegalReference else c,
        { s' with active := s'.active.erase object, cyclic := s'.cyclic.erase object }) := by
  simp only [ofReference, Stateful.run_bind, Stateful.run_get, List.contains_eq_mem,
    decide_eq_true_eq, h, if_false, Stateful.run_modify, hrun]
  split
  · rename_i hc
    simp only [hc, if_true, Stateful.run_bind, Stateful.run_modify, Stateful.run_pure]
  · rename_i hc
    simp only [hc, if_false, Stateful.run_pure, List.erase_of_not_mem, not_false_eq_true]

theorem ofReference_run_active {shape : NodeId → Classifier Classified} {s : Expansion}
    (h : object ∈ s.active) :
    (ofReference shape object).run s =
      (.invalid .illegalReference, { s with cyclic := s.cyclic.insert object }) := by
  simp only [ofReference, Stateful.run_bind, Stateful.run_get, List.contains_eq_mem,
    decide_eq_true_eq, h, if_true, Stateful.run_modify, Stateful.run_pure]

section

variable {s s' : Expansion}

/-- An active object that is referred to is found. -/
theorem Watched.insert (hactive : object ∈ s.active) (hs : WellWatched s) :
    Watched a r (Starts a r (.named object)) s { s with cyclic := s.cyclic.insert object } where
  active := rfl
  nodup := hs.nodup.insert
  keeps x hx := List.mem_insert_of_mem hx
  sound x hx := by
    obtain rfl | hx := List.mem_insert_iff.mp hx
    · exact .inr ⟨hactive, x, rfl, .refl⟩
    · exact .inl hx
  complete := by
    rintro x - ⟨start, rfl, rfl | ⟨hstart, -⟩⟩
    · exact List.mem_insert_self
    · exact absurd hactive hstart

/-- Behind an object that was under watch the objects stay found that were active before it. -/
theorem Watched.erase (hactive : object ∉ s.active) (hs : WellWatched s)
    (h : Watched a r (Refers a r object) { s with active := object :: s.active } s') :
    Watched a r (Starts a r (.named object)) s
      { s' with active := s'.active.erase object, cyclic := s'.cyclic.erase object } := by
  have hne : ∀ x ∈ s.active, x ≠ object := fun x hx heq => hactive (heq ▸ hx)
  refine ⟨?_, ?_, ?_, ?_, ?_⟩
  · rw [show s'.active = object :: s.active from h.active, List.erase_cons_head]
  · exact h.nodup.erase object
  · exact fun x hx => (List.mem_erase_of_ne (hne x (hs.active x hx))).mpr (h.keeps x hx)
  · intro x hx
    rw [h.nodup.mem_erase_iff] at hx
    obtain hold | ⟨hx', start, hstart, hreach⟩ := h.sound x hx.2
    · exact .inl hold
    · refine .inr ⟨List.mem_of_ne_of_mem hx.1 hx', object, rfl, .head hstart hreach⟩
  · rintro x hx ⟨start, rfl, rfl | ⟨-, hpasses⟩⟩
    · exact absurd hx hactive
    · refine (List.mem_erase_of_ne (hne x hx)).mpr (h.complete x (List.mem_cons_of_mem _ hx) ?_)
      exact leads_of_passes ((hpasses.cons start).elim id id)

/-- Where nothing active is reached a way back to the object passes it all, so that the object is found. -/
theorem Watched.mem_cyclic_iff (hactive : object ∉ s.active) (hs : WellWatched s)
    (h : Watched a r (Refers a r object) { s with active := object :: s.active } s')
    (hreach : ∀ x ∈ s.active, ¬ Reaches a r (Starts a r (.named object)) x) :
    object ∈ s'.cyclic ↔ OnCycle a r object := by
  constructor
  · intro hx
    obtain hold | ⟨-, hback⟩ := h.sound object hx
    · exact absurd (hs.active object hold) hactive
    · exact hback.of_refers
  · intro hx
    obtain ⟨x, hx, hto⟩ | hpasses := passes_of_transGen s.active hx
    · exact absurd ⟨object, rfl, hto.to_reflTransGen⟩ (hreach x hx)
    · refine h.complete object List.mem_cons_self ?_
      exact leads_of_passes ((hpasses.cons object).elim id id)

end

/-- An object under a name is on a cycle if and only if reading it leads back to it. -/
theorem tracks_ofReference {field : String} {shape : NodeId → Classifier Classified}
    (h : Tracks a r (Refers a r object) (Unfolds a r field object) (shape object)) :
    Tracks a r (Starts a r (.named object)) (Reads a r field (.named object))
      (ofReference shape object) := by
  intro s hs
  by_cases hactive : object ∈ s.active
  · rw [ofReference_run_active hactive] at hs ⊢
    refine ⟨hs, fun hw => ⟨.insert hactive hw, ?_⟩⟩
    exact fun hreach => absurd ⟨object, rfl, .refl⟩ (hreach object hactive)
  · specialize h { s with active := object :: s.active }
    cases hrun : (shape object).run { s with active := object :: s.active } with
    | mk c s' =>
        rw [ofReference_run hactive hrun] at hs ⊢
        rw [hrun] at h
        obtain ⟨hlimited, h⟩ := h hs
        refine ⟨hlimited, fun hw => ?_⟩
        obtain ⟨h, hgood⟩ := h (hw.watch object)
        refine ⟨h.erase hactive hw, fun hreach => ?_⟩
        have hcyclic := h.mem_cyclic_iff hactive hw hreach
        by_cases hcycle : OnCycle a r object
        · exact .inl ⟨hcycle, if_pos (hcyclic.mpr hcycle)⟩
        · refine .inr ⟨hcycle, ?_⟩
          rw [if_neg (mt hcyclic.mp hcycle)]
          apply hgood
          intro x hx hto
          obtain rfl | hx := List.mem_cons.mp hx
          · exact hcycle hto.of_refers
          · exact hreach x hx ⟨object, rfl, hto.of_refers.to_reflTransGen⟩

/-! ## Shapes -/

variable {field : String} {shape : NodeId → Classifier Classified}

theorem tracks_read
    (h : ∀ object, Tracks a r (Refers a r object) (Unfolds a r field object) (shape object))
    (t : ShapeTarget) :
    Tracks a r (Starts a r t) (Reads a r field t) ((watching shape).read t) := by
  cases t with
  | inPlace object => exact h object
  | named object => exact tracks_ofReference (h object)

theorem tracks_mapM
    (h : ∀ object, Tracks a r (Refers a r object) (Unfolds a r field object) (shape object))
    (ts : List ShapeTarget) :
    Tracks a r (fun x => ∃ t ∈ ts, Starts a r t x) (List.Forall₂ (Reads a r field) ts)
      (ts.mapM (watching shape).read) := by
  induction ts with
  | nil =>
      rw [List.mapM_nil]
      exact (Tracks.pure .nil).starts_congr (by simp)
  | cons t ts ih =>
      rw [List.mapM_cons]
      exact (Tracks.seq List.cons (fun _ _ => .cons) (tracks_read h t) ih).starts_congr (by simp)

/-- An object refers to what its targets start at. -/
theorem refers_iff : Refers a r object other ↔ ∃ t ∈ targets a r object, Starts a r t other := by
  constructor
  · rintro ⟨inner, hinner, hother⟩
    cases hinner using Relation.ReflTransGen.head_induction_on with
    | refl => exact ⟨.named other, hother, rfl⟩
    | @head _ next hnext hinner _ => exact ⟨.inPlace next, hnext, inner, hinner, hother⟩
  · rintro ⟨t, ht, hstarts⟩
    cases t with
    | inPlace next =>
        obtain ⟨inner, hinner, hother⟩ := hstarts
        exact ⟨inner, .head ht hinner, hother⟩
    | named next =>
        obtain rfl : other = next := hstarts
        exact ⟨object, .refl, ht⟩

theorem tracks_ofObject
    (h : ∀ object, Tracks a r (Refers a r object) (Unfolds a r field object) (shape object))
    (object : NodeId) :
    Tracks a r (Refers a r object) (fun tree => Unfolds a r field object (.nested tree 0))
      (ofObject a r field (watching shape) object) := by
  obtain ⟨f, hf, hunfolds⟩ := ofObject_unfolds a r field object
  rw [hf]
  exact ((tracks_mapM h (targets a r object)).map f hunfolds).starts_congr fun x => refers_iff.symm

/-- Once as many shapes are expanded as may be, a shape is past a limit. -/
theorem ofShapeObject_run_spent (field : String) (level : Nat) {s : Expansion}
    (h : maxShapeExpansions ≤ s.expanded) :
    (ofShapeObject a r field (level + 1) object).run s =
      (.invalid .illegalCall, { s with limited := true }) := by
  rw [ofShapeObject]
  simp only [Stateful.run_bind, Stateful.run_get, h, if_true]
  rfl

theorem ofShapeObject_run_expand (field : String) (level : Nat) {s : Expansion}
    (h : ¬ maxShapeExpansions ≤ s.expanded) :
    (ofShapeObject a r field (level + 1) object).run s =
      ((Classified.nested · 0) <$> ofObject a r field (watching (ofShapeObject a r field level)) object).run
        { s with expanded := s.expanded + 1 } := by
  rw [ofShapeObject]
  simp only [Stateful.run_bind, Stateful.run_get, h, if_false, Stateful.run_modify, Stateful.run_pure,
    Stateful.run_map]

theorem tracks_ofShapeObject (level : Nat) (object : NodeId) :
    Tracks a r (Refers a r object) (Unfolds a r field object)
      (ofShapeObject a r field level object) := by
  induction level generalizing object with
  | zero =>
      intro s hs
      cases hs
  | succ level ih =>
      intro s hs
      by_cases hexpanded : maxShapeExpansions ≤ s.expanded
      · rw [ofShapeObject_run_spent field level hexpanded] at hs
        cases hs
      · rw [ofShapeObject_run_expand field level hexpanded] at hs ⊢
        obtain ⟨hlimited, h⟩ := tracks_ofObject ih object { s with expanded := s.expanded + 1 } hs
        refine ⟨hlimited, fun hw => ?_⟩
        obtain ⟨h, hgood⟩ := h ⟨hw.active, hw.nodup⟩
        exact ⟨⟨h.active, h.nodup, h.keeps, h.sound, h.complete⟩, hgood⟩

/-- Past no limit, the types of a props object are its unfolding: a reference has no type if and only
if its object is on a cycle. -/
theorem unfolds_iff_classify {a : Arena} {r : Resolver} {field : String} {propTypes : Child}
    {object : NodeId} (hobject : a.unparenthesized propTypes = some object)
    (hlimited : (classification a r field propTypes).2.limited = false) (c : Classified) :
    Unfolds a r field object c ↔ c = .nested (classify a r field propTypes) 0 := by
  have hunfolds : Unfolds a r field object (.nested (classify a r field propTypes) 0) := by
    simp only [classify, classification, hobject] at hlimited ⊢
    obtain ⟨-, h⟩ := tracks_ofObject (tracks_ofShapeObject maxShapeDepth) object {} hlimited
    exact (h ⟨by simp, by simp⟩).2 (by simp)
  constructor
  · exact fun h => h.unique hunfolds
  · rintro rfl
    exact hunfolds

/-- The objects `p: {q: q, l: l}`, `q: {p: p}`, `l: {}`, `m: {p: p, l: l}` at the nodes 13, 14, 12 and
15, and `{p: p, m: m, l: l}` at node 19. -/
def crossReferences : Arena where
  nodes := #[.identifier "PropTypes", .identifier "shape",
    .propertyAccess (some 0) (some 1) false, .identifier "p", .identifier "q", .identifier "l",
    .call (some 2) [some 3] false, .call (some 2) [some 4] false, .call (some 2) [some 5] false,
    .propertyAssignment 3 (some 6), .propertyAssignment 4 (some 7), .propertyAssignment 5 (some 8),
    .objectLiteral [], .objectLiteral [10, 11], .objectLiteral [9], .objectLiteral [9, 11],
    .identifier "m", .call (some 2) [some 16] false, .propertyAssignment 16 (some 17),
    .objectLiteral [9, 18, 11]].map fun form => { start := 0, stop := 0, form }

def crossResolver : Resolver where
  resolve
    | "p" => .objectLiteral 13
    | "q" => .objectLiteral 14
    | "l" => .objectLiteral 12
    | "m" => .objectLiteral 15
    | _ => .unresolved

/-- `m` only reaches the cycle of `p` and `q`, and `l` is shared. -/
theorem unfolds_crossReferences :
    Unfolds crossReferences crossResolver "propTypes" 19 <| .nested
      [("p", ⟨9, false, .invalid .illegalReference⟩),
       ("m", ⟨18, false, .nested
          [("p", ⟨9, false, .invalid .illegalReference⟩), ("l", ⟨11, false, .nested [] 0⟩)] 0⟩),
       ("l", ⟨11, false, .nested [] 0⟩)] 0 :=
  (unfolds_iff_classify (show crossReferences.unparenthesized (some 19) = some 19 by decide +kernel)
    (by decide +kernel) _).mpr (by with_unfolding_all rfl)

end

end Classified

end PropContract
