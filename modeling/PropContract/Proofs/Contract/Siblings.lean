import PropContract.Proofs.Contract.Limits

/-!
# Properties are classified apart

The calls that a classification makes, each in the state in which it starts. All of them give back the
objects under watch as they found them, so that a property learns nothing of its siblings but how many
shapes they have expanded.
-/

namespace PropContract

namespace Classified

/-! ## Calls -/

/-- A call of the classification, at a place where shapes may nest `level` deep. -/
inductive Call where
  | properties (level : Nat) (object : NodeId)
  /-- A validator inside at most `n` levels of arrays -/
  | value (level n : Nat) (e : Child)
  /-- An object under a name, from which a validator takes its shape -/
  | reference (level : Nat) (object : NodeId)
  | shape (level : Nat) (object : NodeId)
deriving DecidableEq, Repr

section

variable (a : Arena) (r : Resolver) (field : String)

/-- How shapes are read where they may nest `level` deep. -/
def readerAt (level : Nat) : ShapeReader :=
  watching (ofShapeObject a r field level)

/-- The state in which a call returns. -/
def Call.after (s : Expansion) : Call → Expansion
  | .properties level object => ((ofObject a r field (readerAt a r field level) object).run s).2
  | .value level n e => ((ofValueIn a r field (readerAt a r field level) n e).run s).2
  | .reference level object => ((ofReference (ofShapeObject a r field level) object).run s).2
  | .shape level object => ((ofShapeObject a r field level object).run s).2

/-- The calls that the classification of a props value makes, each with the state in which it starts. -/
inductive Made (propTypes : Child) : Call → Expansion → Prop
  | start {object} (h : a.unparenthesized propTypes = some object) :
      Made propTypes (.properties maxShapeDepth object) {}
  /-- The validator of a property, after all the elements before it -/
  | property {level object s before element rest key name value}
      (h : Made propTypes (.properties level object) s)
      (helements : a.objectElements (some object) = before ++ element :: rest)
      (hkey : a.propertyNameText (a.memberName (some element)) = some key)
      (hform : a.form? (some element) = some (.propertyAssignment name value)) :
      Made propTypes (.value level (a.size + 1) value)
        ((ofElements a r field (readerAt a r field level) before).run s).2
  | array {level n e s callee arguments optional argument}
      (h : Made propTypes (.value level (n + 1) e) s)
      (hform : a.form? (a.stripRequired e).1 = some (.call callee arguments optional))
      (hname : validatorName? a r callee = some "arrayOf")
      (hargument : firstArgument arguments = some argument) :
      Made propTypes (.value level n (some argument)) s
  | inPlace {level n e s callee arguments optional object}
      (h : Made propTypes (.value level (n + 1) e) s)
      (hform : a.form? (a.stripRequired e).1 = some (.call callee arguments optional))
      (hname : validatorName? a r callee = some "shape" ∨ validatorName? a r callee = some "exact")
      (htarget : argumentTargets a r (firstArgument arguments) = [.inPlace object]) :
      Made propTypes (.shape level object) s
  | named {level n e s callee arguments optional object}
      (h : Made propTypes (.value level (n + 1) e) s)
      (hform : a.form? (a.stripRequired e).1 = some (.call callee arguments optional))
      (hname : validatorName? a r callee = some "shape" ∨ validatorName? a r callee = some "exact")
      (htarget : argumentTargets a r (firstArgument arguments) = [.named object]) :
      Made propTypes (.reference level object) s
  /-- An object is put under watch, unless it is inside itself. -/
  | watch {level object s} (h : Made propTypes (.reference level object) s)
      (hactive : object ∉ s.active) :
      Made propTypes (.shape level object) { s with active := object :: s.active }
  /-- A shape is expanded, unless it is past a limit. -/
  | expand {level object s} (h : Made propTypes (.shape (level + 1) object) s)
      (hexpanded : s.expanded < maxShapeExpansions) :
      Made propTypes (.properties level object) { s with expanded := s.expanded + 1 }

end

/-! ## What a call gives back -/

/-- What any reading does to a state in which only objects under watch are on cycles. -/
structure Returns (s s' : Expansion) : Prop where
  active : s'.active = s.active
  watched : WellWatched s'
  keeps : ∀ x ∈ s.cyclic, x ∈ s'.cyclic
  expanded : s.expanded ≤ s'.expanded

/-- Whether two states differ in no more than the cycles found so far, the limits met, and the `spent`
shapes that only the first one has expanded. -/
structure Alike (spent : Nat) (s t : Expansion) : Prop where
  active : t.active = s.active
  expanded : t.expanded + spent = s.expanded

/-- Whether readings in `s` and `t` come to the same, and find the same cycles. -/
structure Agrees {α : Type} (spent : Nat) (s t : Expansion) (x y : α × Expansion) : Prop where
  result : y.1 = x.1
  alike : Alike spent x.2 y.2
  found : ∀ object, object ∉ s.cyclic → object ∉ t.cyclic →
    (object ∈ y.2.cyclic ↔ object ∈ x.2.cyclic)

/-- Whether a reading leaves no trace and minds none. What is spent before it makes no difference either,
as long as the budget lasts. -/
structure Untraced {α : Type} (m : Classifier α) : Prop where
  returns {s : Expansion} (hs : WellWatched s) : Returns s (m.run s).2
  agrees {s t : Expansion} {spent : Nat} (hs : WellWatched s) (ht : WellWatched t)
    (h : Alike spent s t) (hlasts : spent = 0 ∨ (m.run s).2.expanded < maxShapeExpansions) :
    Agrees spent s t (m.run s) (m.run t)

variable {s s' s₁ t : Expansion} {spent : Nat} {object : NodeId}

theorem Returns.refl (hs : WellWatched s) : Returns s s :=
  ⟨rfl, hs, fun _ hx => hx, Nat.le_refl _⟩

theorem Returns.trans (h : Returns s s₁) (h' : Returns s₁ s') : Returns s s' where
  active := h'.active.trans h.active
  watched := h'.watched
  keeps x hx := h'.keeps x (h.keeps x hx)
  expanded := h.expanded.trans h'.expanded

namespace Untraced

variable {α β γ : Type} {m : Classifier α} {k : Classifier β}

theorem pure (x : α) : Untraced (Pure.pure x : Classifier α) where
  returns hs := .refl hs
  agrees _ _ h _ := ⟨rfl, h, fun _ hs ht => iff_of_false ht hs⟩

theorem map (f : α → β) (hm : Untraced m) : Untraced (f <$> m) where
  returns hs := hm.returns hs
  agrees hs ht h hlasts := by
    obtain ⟨hresult, halike, hfound⟩ := hm.agrees hs ht h hlasts
    exact ⟨congrArg f hresult, halike, hfound⟩

theorem seq (f : α → β → γ) (hm : Untraced m) (hk : Untraced k) :
    Untraced (do return f (← m) (← k)) where
  returns hs := (hm.returns hs).trans (hk.returns (hm.returns hs).watched)
  agrees {s t spent} hs ht h hlasts := by
    simp only [Stateful.run_bind, Stateful.run_pure] at hlasts ⊢
    have hs₁ := hm.returns hs
    have ht₁ := hm.returns ht
    have hs₂ := hk.returns hs₁.watched
    have ht₂ := hk.returns ht₁.watched
    have hfirst := hm.agrees hs ht h (hlasts.imp_right hs₂.expanded.trans_lt)
    have hsecond := hk.agrees hs₁.watched ht₁.watched hfirst.alike hlasts
    refine ⟨congrArg₂ f hfirst.result hsecond.result, hsecond.alike, fun object hs ht => ?_⟩
    -- A cycle that the first reading finds from one state it finds from the other one, and none is lost.
    have hiff := hfirst.found object hs ht
    by_cases hmem : object ∈ (m.run s).2.cyclic
    · exact iff_of_true (ht₂.keeps object (hiff.mpr hmem)) (hs₂.keeps object hmem)
    · exact hsecond.found object hmem (mt hiff.mp hmem)

end Untraced

/-! ## Every call leaves no trace -/

/-- Two places with the same objects under watch refuse the same references, and watch the others alike. -/
theorem Untraced.ofReference {shape : NodeId → Classifier Classified} (h : Untraced (shape object)) :
    Untraced (ofReference shape object) where
  returns {s} hs := by
    by_cases hactive : object ∈ s.active
    · rw [ofReference_run_active hactive]
      exact ⟨rfl, hs.insert hactive, fun _ hx => List.mem_insert_of_mem hx, Nat.le_refl _⟩
    · rw [ofReference_run hactive (Prod.eta _).symm]
      have hreturns := h.returns (hs.watch object)
      refine ⟨?_, hreturns.watched.erase object, fun x hx => ?_, hreturns.expanded⟩
      · rw [hreturns.active, List.erase_cons_head]
      · have hne : x ≠ object := fun heq => hactive (heq ▸ hs.active x hx)
        exact (List.mem_erase_of_ne hne).mpr (hreturns.keeps x hx)
  agrees {s t spent} hs ht halike hlasts := by
    by_cases hactive : object ∈ s.active
    · rw [ofReference_run_active hactive, ofReference_run_active (halike.active ▸ hactive)]
      refine ⟨rfl, ⟨halike.active, halike.expanded⟩, fun x hx hx' => ?_⟩
      simp only [List.mem_insert_iff, hx, hx', or_false]
    · have hactive' : object ∉ t.active := halike.active ▸ hactive
      rw [ofReference_run hactive (Prod.eta _).symm] at hlasts ⊢
      rw [ofReference_run hactive' (Prod.eta _).symm]
      have hs' := hs.watch object
      have ht' := ht.watch object
      obtain ⟨hresult, ⟨hwatch, hexpanded⟩, hfound⟩ :=
        h.agrees hs' ht' ⟨congrArg (object :: ·) halike.active, halike.expanded⟩ hlasts
      -- Before the object was read it was on no cycle, so it is on one now in both places or in none.
      have hcyclic := hfound object (mt (hs.active object) hactive) (mt (ht.active object) hactive')
      refine ⟨?_, ⟨congrArg (·.erase object) hwatch, hexpanded⟩, fun x hx hx' => ?_⟩
      · simp only [hcyclic, hresult]
      · simp only [(h.returns hs').watched.nodup.mem_erase_iff, (h.returns ht').watched.nodup.mem_erase_iff,
          hfound x hx hx']

section

variable {shape : NodeId → Classifier Classified} (h : ∀ object, Untraced (shape object))

include h

theorem untraced_read (t : ShapeTarget) : Untraced ((watching shape).read t) :=
  match t with
  | .inPlace object => h object
  | .named object => (h object).ofReference

theorem untraced_mapM (ts : List ShapeTarget) : Untraced (ts.mapM (watching shape).read) := by
  induction ts with
  | nil =>
      rw [List.mapM_nil]
      exact .pure _
  | cons t ts ih =>
      rw [List.mapM_cons]
      exact .seq List.cons (untraced_read h t) ih

theorem untraced_of_readsOnly {α : Type} {ts : List ShapeTarget} {m : ShapeReader → Classifier α}
    (hm : ReadsOnly ts m) : Untraced (m (watching shape)) := by
  obtain ⟨f, hf⟩ := hm
  rw [hf]
  exact (untraced_mapM h ts).map f

end

theorem untraced_pastLimit : Untraced pastLimit where
  returns hs := ⟨rfl, ⟨hs.active, hs.nodup⟩, fun _ hx => hx, Nat.le_refl _⟩
  agrees _ _ h _ := ⟨rfl, ⟨h.active, h.expanded⟩, fun _ hs ht => iff_of_false ht hs⟩

section

variable (a : Arena) (r : Resolver) (field : String)

/-- A shape that is past the budget from one place is past it from the other one: a budget that lasts for the
whole reading lasts here. -/
theorem untraced_ofShapeObject (level : Nat) (object : NodeId) :
    Untraced (ofShapeObject a r field level object) := by
  induction level generalizing object with
  | zero => exact untraced_pastLimit
  | succ level ih =>
      have hobject := (untraced_of_readsOnly ih (ofObject_readsOnly a r field object)).map (Classified.nested · 0)
      have hcounted {s : Expansion} (hs : WellWatched s) :
          WellWatched { s with expanded := s.expanded + 1 } := ⟨hs.active, hs.nodup⟩
      constructor
      · intro s hs
        by_cases hspent : maxShapeExpansions ≤ s.expanded
        · rw [ofShapeObject_run_spent field level hspent]
          exact untraced_pastLimit.returns hs
        · rw [ofShapeObject_run_expand field level hspent]
          have hreturns := hobject.returns (hcounted hs)
          exact { hreturns with expanded := (Nat.le_succ _).trans hreturns.expanded }
      · intro s t spent hs ht halike hlasts
        have hexpanded := halike.expanded
        by_cases hspent : maxShapeExpansions ≤ s.expanded
        · rw [ofShapeObject_run_spent field level hspent] at hlasts ⊢
          obtain rfl : spent = 0 := hlasts.resolve_right (Nat.not_lt.mpr hspent)
          rw [ofShapeObject_run_spent field level (by omega)]
          exact untraced_pastLimit.agrees hs ht halike (.inl rfl)
        · rw [ofShapeObject_run_expand field level hspent] at hlasts ⊢
          rw [ofShapeObject_run_expand field level (by omega)]
          have hcountedAlike : Alike spent { s with expanded := s.expanded + 1 }
              { t with expanded := t.expanded + 1 } := ⟨halike.active, by dsimp only; omega⟩
          obtain ⟨hresult, halike, hfound⟩ := hobject.agrees (hcounted hs) (hcounted ht) hcountedAlike hlasts
          exact ⟨hresult, halike, hfound⟩

theorem untraced_at {α : Type} {ts : List ShapeTarget} {m : ShapeReader → Classifier α}
    (hm : ReadsOnly ts m) (level : Nat) : Untraced (m (readerAt a r field level)) :=
  untraced_of_readsOnly (untraced_ofShapeObject a r field level) hm

theorem untraced_ofElement (level : Nat) (element : NodeId) :
    Untraced (ofElement a r field (readerAt a r field level) element) :=
  untraced_at a r field (ofElement_readsOnly a r field element) level

theorem untraced_ofElements (level : Nat) (elements : List NodeId) :
    Untraced (ofElements a r field (readerAt a r field level) elements) :=
  untraced_at a r field (ofElements_readsOnly a r field elements) level

theorem Call.returns (call : Call) (hs : WellWatched s) : Returns s (call.after a r field s) :=
  match call with
  | .properties level object =>
      (untraced_at a r field (ofObject_readsOnly a r field object) level).returns hs
  | .value level n e => (untraced_at a r field (ofValueIn_readsOnly a r field n e) level).returns hs
  | .reference level object => (untraced_ofShapeObject a r field level object).ofReference.returns hs
  | .shape level object => (untraced_ofShapeObject a r field level object).returns hs

theorem wellWatched_fresh (active : List NodeId) (expanded : Nat) : WellWatched { active, expanded } :=
  ⟨by simp, by simp⟩

theorem classification_returns (propTypes : Child) :
    Returns {} (classification a r field propTypes).2 := by
  unfold classification
  rcases a.unparenthesized propTypes with - | object
  · exact .refl (wellWatched_fresh [] 0)
  · exact Call.returns a r field (.properties maxShapeDepth object) (wellWatched_fresh [] 0)

variable {a r field}

/-- Calls are only made where all objects found on a cycle are under watch. -/
theorem Made.wellWatched {propTypes : Child} {call : Call} (h : Made a r field propTypes call s) :
    WellWatched s := by
  induction h with
  | start => exact wellWatched_fresh [] 0
  | @property level _ _ before _ _ _ _ _ _ _ _ _ ih =>
      exact ((untraced_ofElements a r field level before).returns ih).watched
  | array _ _ _ _ ih => exact ih
  | inPlace _ _ _ _ ih => exact ih
  | named _ _ _ _ ih => exact ih
  | watch _ _ ih => exact ih.watch _
  | expand _ _ ih => exact ⟨ih.active, ih.nodup⟩

end

/-! ## Siblings -/

/-- Properties that are read apart, each of them where no cycle has been found: only the count of expanded
shapes goes on from one to the next. -/
def apart (read : NodeId → Classifier (Option (String × DeclaredProperty Classified))) (active : List NodeId) :
    (expanded : Nat) → List NodeId → List (String × DeclaredProperty Classified)
  | _, [] => []
  | expanded, element :: rest =>
    let outcome := (read element).run { active, expanded }
    outcome.1.toList ++ apart read active outcome.2.expanded rest

/-- A property that is read as if there were no others. -/
def alone (read : NodeId → Classifier (Option (String × DeclaredProperty Classified))) (active : List NodeId)
    (element : NodeId) : List (String × DeclaredProperty Classified) :=
  ((read element).run { active }).1.toList

section

variable (a : Arena) (r : Resolver) (field : String)

theorem ofElements_apart (level : Nat) (elements : List NodeId) (hs : WellWatched s) :
    ((ofElements a r field (readerAt a r field level) elements).run s).1 =
      apart (ofElement a r field (readerAt a r field level)) s.active s.expanded elements := by
  induction elements generalizing s with
  | nil => rfl
  | cons element rest ih =>
      have helement := untraced_ofElement a r field level element
      have hreturns := helement.returns hs
      obtain ⟨hresult, ⟨-, hexpanded⟩, -⟩ :=
        helement.agrees hs (wellWatched_fresh s.active s.expanded) ⟨rfl, rfl⟩ (.inl rfl)
      simp only [ofElements, Stateful.run_bind, Stateful.run_pure, apart]
      rw [ih hreturns.watched, hresult, hreturns.active, ← hexpanded, Nat.add_zero]

/-- While the budget lasts, what is spent on the elements before a property makes no difference to it. -/
theorem ofElements_alone (level : Nat) (elements : List NodeId) (hs : WellWatched s)
    (hlasts : ((ofElements a r field (readerAt a r field level) elements).run s).2.expanded <
      maxShapeExpansions) :
    ((ofElements a r field (readerAt a r field level) elements).run s).1 =
      elements.flatMap (alone (ofElement a r field (readerAt a r field level)) s.active) := by
  induction elements generalizing s with
  | nil => rfl
  | cons element rest ih =>
      simp only [ofElements, Stateful.run_bind, Stateful.run_pure] at hlasts ⊢
      have helement := untraced_ofElement a r field level element
      have hreturns := helement.returns hs
      have hrest := (untraced_ofElements a r field level rest).returns hreturns.watched
      obtain ⟨hresult, -, -⟩ := helement.agrees hs (wellWatched_fresh s.active 0)
        ⟨rfl, Nat.zero_add _⟩ (.inr (hrest.expanded.trans_lt hlasts))
      rw [ih hreturns.watched hlasts, hreturns.active, List.flatMap_cons, alone, hresult]

/-- The classification leaves no trace between properties. Every call gives back the objects under watch that
it found, only those are ever on a cycle, and in the end there are none. So the properties of an object are
read apart from each other, and even alone as long as the budget of shapes lasts. -/
theorem classification_leavesNoTrace (propTypes : Child) :
    let final := (classification a r field propTypes).2
    final.active = [] ∧ final.cyclic = [] ∧
      (∀ call s, Made a r field propTypes call s →
        let s' := call.after a r field s
        s'.active = s.active ∧ s.cyclic ⊆ s.active ∧ s'.cyclic ⊆ s'.active) ∧
      ∀ level object s, Made a r field propTypes (.properties level object) s →
        let outcome := (ofObject a r field (readerAt a r field level) object).run s
        let read := ofElement a r field (readerAt a r field level)
        let elements := a.objectElements (some object)
        outcome.1 = Entries.ofList (apart read s.active s.expanded elements) ∧
          (outcome.2.expanded < maxShapeExpansions →
            outcome.1 = Entries.ofList (elements.flatMap (alone read s.active))) := by
  have hfinal := classification_returns a r field propTypes
  have hactive : (classification a r field propTypes).2.active = [] := hfinal.active
  have hcyclic := hfinal.watched.subset
  rw [hactive] at hcyclic
  refine ⟨hactive, List.subset_nil.mp hcyclic, fun call s hcall => ?_, fun level object s hcall => ?_⟩
  · have hreturns := call.returns a r field hcall.wellWatched
    exact ⟨hreturns.active, hcall.wellWatched.subset, hreturns.watched.subset⟩
  · rw [ofObject_eq_ofElements, Stateful.run_map]
    have hwatched := hcall.wellWatched
    refine ⟨?_, fun hlasts => ?_⟩
    · rw [ofElements_apart a r field level _ hwatched]
    · rw [ofElements_alone a r field level _ hwatched hlasts]

end

/-- In `p`, the cycle through `q` is found before `l` is read. -/
theorem made_crossReferences :
    Made crossReferences crossResolver "propTypes" (some 19) (.properties 63 13)
        { active := [13], expanded := 1 } ∧
      Made crossReferences crossResolver "propTypes" (some 19)
        (.value 63 (crossReferences.size + 1) (some 8))
        { active := [13], cyclic := [13], expanded := 2 } := by
  have hstart : Made crossReferences crossResolver "propTypes" (some 19) (.properties 64 19) {} :=
    .start (by decide +kernel)
  have hprops : crossReferences.objectElements (some 19) = [] ++ 9 :: [18, 11] := by decide +kernel
  have hp : crossReferences.propertyNameText (crossReferences.memberName (some 9)) = some "p" ∧
      crossReferences.form? (some 9) = some (.propertyAssignment 3 (some 6)) := by decide +kernel
  have hcall : crossReferences.form? (crossReferences.stripRequired (some 6)).1 =
      some (.call (some 2) [some 3] false) := by decide +kernel
  have hreference : Made crossReferences crossResolver "propTypes" (some 19) (.reference 64 13) {} :=
    (hstart.property hprops hp.1 hp.2).named hcall (.inl (by decide +kernel)) (by decide +kernel)
  have hobject : Made crossReferences crossResolver "propTypes" (some 19) (.properties 63 13)
      { active := [13], expanded := 1 } := (hreference.watch (by decide)).expand (by decide)
  have helements : crossReferences.objectElements (some 13) = [10] ++ 11 :: [] := by decide +kernel
  have hl : crossReferences.propertyNameText (crossReferences.memberName (some 11)) = some "l" ∧
      crossReferences.form? (some 11) = some (.propertyAssignment 5 (some 8)) := by decide +kernel
  have hstate : ((ofElements crossReferences crossResolver "propTypes"
      (readerAt crossReferences crossResolver "propTypes" 63) [10]).run { active := [13], expanded := 1 }).2 =
        { active := [13], cyclic := [13], expanded := 2 } := by decide +kernel
  refine ⟨hobject, ?_⟩
  rw [← hstate]
  exact hobject.property helements hl.1 hl.2

/-- The object `p` itself is on a cycle, but `l` inside it is read alone. -/
theorem classification_leavesNoTrace_crossReferences :
    let call : Call := .value 63 (crossReferences.size + 1) (some 8)
    let s : Expansion := { active := [13], cyclic := [13], expanded := 2 }
    let readsObject := ofObject crossReferences crossResolver "propTypes"
      (readerAt crossReferences crossResolver "propTypes" 63) 13
    let read := ofElement crossReferences crossResolver "propTypes"
      (readerAt crossReferences crossResolver "propTypes" 63)
    Made crossReferences crossResolver "propTypes" (some 19) call s ∧
      (call.after crossReferences crossResolver "propTypes" s).active = [13] ∧
      (readsObject.run { active := [13], expanded := 1 }).1 =
        Entries.ofList ([10, 11].flatMap (alone read [13])) := by
  obtain ⟨hobject, hl⟩ := made_crossReferences
  obtain ⟨-, -, hcalls, hobjects⟩ :=
    classification_leavesNoTrace crossReferences crossResolver "propTypes" (some 19)
  have helements : crossReferences.objectElements (some 13) = [10, 11] := by decide +kernel
  have halone := (hobjects 63 13 _ hobject).2 (by decide +kernel)
  rw [helements] at halone
  exact ⟨hl, (hcalls _ _ hl).1, halone⟩

end Classified

end PropContract
