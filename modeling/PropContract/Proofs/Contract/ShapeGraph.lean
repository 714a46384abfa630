import Mathlib.Data.List.Forall2
import Mathlib.Logic.Relation
import PropContract.Contract.Classify
import PropContract.Proofs.Arena

/-!
# Shapes that refer to each other

What an object of shapes leads to, the graph of the objects with names, and the unfolding of an object:
a reference to an object on a cycle has no type, and every other one is unfolded where it stands.
-/

namespace PropContract

/-- An object that a validator takes its shape from: written in place, or under a name. -/
inductive ShapeTarget where
  | inPlace (object : NodeId)
  | named (object : NodeId)
deriving DecidableEq, Repr

def ShapeReader.read (reader : ShapeReader) : ShapeTarget → Classifier Classified
  | .inPlace object => reader.inPlace object
  | .named object => reader.named object

namespace Classified

section

variable (a : Arena) (r : Resolver)

/-! ## Targets -/

def argumentTargets (argument : Child) : List ShapeTarget :=
  match a.unparenthesized argument with
  | none => []
  | some id =>
    match a.form? id with
    | some (.objectLiteral _) => [.inPlace id]
    | some (.identifier name) =>
      match r.resolve name with
      | .objectLiteral object => [.named object]
      | _ => []
    | _ => []

def callTargets (value : Child → List ShapeTarget) (callee : Child) (arguments : List Child) :
    List ShapeTarget :=
  match validatorName? a r callee with
  | some "arrayOf" => value (firstArgument arguments)
  | some "shape" | some "exact" => argumentTargets a r (firstArgument arguments)
  | _ => []

def leafTargets (value : Child → List ShapeTarget) (e : Child) : List ShapeTarget :=
  match a.form? e with
  | some (.call callee arguments _) => callTargets a r value callee arguments
  | _ => []

/-- What a validator leads to through at most `n` levels of arrays. -/
def valueTargetsIn : (n : Nat) → Child → List ShapeTarget
  | 0, _ => []
  | n + 1, e => leafTargets a r (valueTargetsIn n) (a.stripRequired e).1

/-- What an element of an object leads to, if it is an assignment to a written name. -/
def elementTargets (element : NodeId) : List ShapeTarget :=
  match a.propertyNameText (a.memberName element), a.form? element with
  | some _, some (.propertyAssignment _ value) => valueTargetsIn a r (a.size + 1) value
  | _, _ => []

/-- What the elements of an object lead to, repeated names included. -/
def targets (object : NodeId) : List ShapeTarget :=
  match a.form? object with
  | some (.objectLiteral elements) => elements.flatMap (elementTargets a r)
  | _ => []

/-! ## The graph -/

/-- Whether an object is written in place in a shape of another one. -/
def Encloses (object inner : NodeId) : Prop := .inPlace inner ∈ targets a r object

/-- Whether an object refers to another one by its name, from a shape of its own or from one that is
written in place inside it. -/
def Refers (object other : NodeId) : Prop :=
  ∃ inner, Relation.ReflTransGen (Encloses a r) object inner ∧ .named other ∈ targets a r inner

def OnCycle (object : NodeId) : Prop := Relation.TransGen (Refers a r) object object

/-! ## The unfolding -/

variable (field : String)

open Classical in
/-- Reads an object of a shape as `u` says, and a name on a cycle as an illegal reference. -/
noncomputable def cycleAware (u : NodeId → Classified) : ShapeReader where
  inPlace object := return u object
  named object := return if OnCycle a r object then .invalid .illegalReference else u object

/-- The properties of an object whose shapes `u` unfolds. -/
noncomputable def unfoldedWith (u : NodeId → Classified) (object : NodeId) : ClassifiedTree :=
  ((ofObject a r field (cycleAware a r u) object).run {}).1

/-- Whether the unfolding of an object goes on into another one. -/
def UnfoldsInto (object inner : NodeId) : Prop :=
  .inPlace inner ∈ targets a r object ∨ .named inner ∈ targets a r object ∧ ¬ OnCycle a r inner

/-- The finite unfolding of an object as a shape. -/
inductive Unfolds : NodeId → Classified → Prop
  | intro {object} (u : NodeId → Classified)
      (h : ∀ inner, UnfoldsInto a r object inner → Unfolds inner (u inner)) :
      Unfolds object (.nested (unfoldedWith a r field u object) 0)

end

/-! ## An object is read through its targets -/

/-- Whether a reading depends on nothing but the targets and what they are read as. -/
def ReadsOnly {α : Type} (ts : List ShapeTarget) (m : ShapeReader → Classifier α) : Prop :=
  ∃ f : List Classified → α, ∀ reader, m reader = f <$> ts.mapM reader.read

namespace ReadsOnly

variable {α β γ : Type} {ts us : List ShapeTarget}

theorem pure (x : α) : ReadsOnly [] fun _ => (Pure.pure x : Classifier α) :=
  ⟨fun _ => x, fun _ => rfl⟩

theorem read (t : ShapeTarget) : ReadsOnly [t] fun reader => reader.read t := by
  refine ⟨fun cs => cs.headD (.invalid .illegalCall), fun reader => ?_⟩
  simp [List.mapM_cons]

theorem map {m : ShapeReader → Classifier α} (f : α → β) (h : ReadsOnly ts m) :
    ReadsOnly ts fun reader => f <$> m reader := by
  obtain ⟨g, hg⟩ := h
  exact ⟨f ∘ g, fun reader => by simp only [hg, Functor.map_map, Function.comp_def]⟩

theorem length_mapM_run (reader : ShapeReader) (ts : List ShapeTarget) (s : Expansion) :
    ((ts.mapM reader.read).run s).run.1.length = ts.length := by
  induction ts generalizing s with
  | nil => rfl
  | cons t ts ih => simp [List.mapM_cons, ih]

theorem append {m : ShapeReader → Classifier α} {k : ShapeReader → Classifier β} (f : α → β → γ)
    (hm : ReadsOnly ts m) (hk : ReadsOnly us k) :
    ReadsOnly (ts ++ us) fun reader => do return f (← m reader) (← k reader) := by
  obtain ⟨g, hg⟩ := hm
  obtain ⟨g', hg'⟩ := hk
  refine ⟨fun cs => f (g (cs.take ts.length)) (g' (cs.drop ts.length)), fun reader => ?_⟩
  ext s
  · simp [hg, hg', List.take_left' (length_mapM_run reader ts s),
      List.drop_left' (length_mapM_run reader ts s)]
  · simp [hg, hg']

end ReadsOnly

section

variable (a : Arena) (r : Resolver) (field : String)

theorem ofShape_readsOnly (argument : Child) :
    ReadsOnly (argumentTargets a r argument) fun reader => ofShape a r field reader argument := by
  unfold argumentTargets ofShape
  cases a.unparenthesized argument with
  | none => exact .pure _
  | some id =>
      simp only
      cases a.form? id with
      | none => exact .pure _
      | some form =>
          cases form with
          | objectLiteral elements => exact .read (.inPlace id)
          | identifier name =>
              simp only
              cases r.resolve name with
              | objectLiteral object => exact .read (.named object)
              | _ => exact .pure _
          | propertyAccess target name optional =>
              simp only
              split
              · split <;> exact .pure _
              · exact .pure _
          | _ => exact .pure _

/-- An array has the targets of its elements; without an argument there are none. -/
theorem ofArrayOf_readsOnly {value : ShapeReader → Child → Classifier (Classified × Bool)}
    {ts : List ShapeTarget} {argument : Child} (hnone : argument = none → ts = [])
    (h : ReadsOnly ts fun reader => value reader argument) :
    ReadsOnly ts fun reader => ofArrayOf (value reader) argument := by
  unfold ofArrayOf
  cases argument with
  | none =>
      rw [hnone rfl]
      exact .pure _
  | some id => exact h.map fun element => element.1.inArray

theorem valueTargetsIn_none (n : Nat) : valueTargetsIn a r n none = [] := by
  cases n with
  | zero => rfl
  | succ n =>
      simp [valueTargetsIn, leafTargets, Arena.stripRequired, Arena.stripRequiredIn]

theorem ofCall_readsOnly {n : Nat}
    (ih : ∀ e, ReadsOnly (valueTargetsIn a r n e) fun reader => ofValueIn a r field reader n e)
    (callee : Child) (arguments : List Child) :
    ReadsOnly (callTargets a r (valueTargetsIn a r n) callee arguments) fun reader =>
      ofCall a r field reader (ofValueIn a r field reader n) callee arguments := by
  unfold callTargets ofCall
  simp only
  split
  · rw [‹validatorName? a r callee = _›]
    refine ofArrayOf_readsOnly (fun h => ?_) (ih _)
    rw [h]
    exact valueTargetsIn_none a r n
  · rw [‹validatorName? a r callee = _›]
    exact ofShape_readsOnly a r field _
  · rw [‹validatorName? a r callee = _›]
    exact ofShape_readsOnly a r field _
  · split <;> first | contradiction | exact .pure _

theorem ofLeaf_readsOnly {n : Nat}
    (ih : ∀ e, ReadsOnly (valueTargetsIn a r n e) fun reader => ofValueIn a r field reader n e)
    (e : Child) :
    ReadsOnly (leafTargets a r (valueTargetsIn a r n) e) fun reader =>
      ofLeaf a r field reader (ofValueIn a r field reader n) e := by
  unfold leafTargets ofLeaf
  cases a.form? e with
  | none => exact .pure _
  | some form =>
      cases form with
      | call callee arguments optional => exact ofCall_readsOnly a r field ih callee arguments
      | _ => exact .pure _

theorem ofValueIn_readsOnly (n : Nat) (e : Child) :
    ReadsOnly (valueTargetsIn a r n e) fun reader => ofValueIn a r field reader n e := by
  induction n generalizing e with
  | zero => exact .pure _
  | succ n ih =>
      exact (ofLeaf_readsOnly a r field ih (a.stripRequired e).1).map
        fun c => (c, (a.stripRequired e).2)

theorem ofElement_readsOnly (element : NodeId) :
    ReadsOnly (elementTargets a r element) fun reader => ofElement a r field reader element := by
  unfold elementTargets ofElement
  cases a.propertyNameText (a.memberName element) with
  | none => exact .pure _
  | some key =>
      simp only
      cases a.form? element with
      | none => exact .pure _
      | some form =>
          cases form with
          | propertyAssignment name value =>
              exact (ofValueIn_readsOnly a r field (a.size + 1) value).map
                fun entry : Classified × Bool =>
                  some (key, DeclaredProperty.mk element entry.2 entry.1)
          | _ => exact .pure _

theorem ofElements_readsOnly (elements : List NodeId) :
    ReadsOnly (elements.flatMap (elementTargets a r)) fun reader =>
      ofElements a r field reader elements := by
  induction elements with
  | nil => exact .pure _
  | cons element rest ih =>
      exact .append (fun property properties => property.toList ++ properties)
        (ofElement_readsOnly a r field element) ih

/-- The properties of an object depend on nothing but what its targets are read as. -/
theorem ofObject_readsOnly (object : NodeId) :
    ReadsOnly (targets a r object) fun reader => ofObject a r field reader object := by
  unfold targets ofObject
  cases a.form? object with
  | none => exact .pure _
  | some form =>
      cases form with
      | objectLiteral elements => exact .map Entries.ofList (ofElements_readsOnly a r field elements)
      | _ => exact .pure _

end

/-! ## The unfolding is unique -/

section

variable (a : Arena) (r : Resolver) (field : String)

open Classical in
/-- What a target is read as where `u` unfolds its object. -/
noncomputable def readAs (u : NodeId → Classified) : ShapeTarget → Classified
  | .inPlace object => u object
  | .named object => if OnCycle a r object then .invalid .illegalReference else u object

theorem read_cycleAware (u : NodeId → Classified) (t : ShapeTarget) :
    (cycleAware a r u).read t = pure (readAs a r u t) := by
  cases t <;> rfl

/-- The properties of an object as a function of what its targets are read as. -/
theorem ofObject_eq (object : NodeId) :
    ∃ f : List Classified → ClassifiedTree,
      (∀ reader, ofObject a r field reader object = f <$> (targets a r object).mapM reader.read) ∧
        ∀ u, unfoldedWith a r field u object = f ((targets a r object).map (readAs a r u)) := by
  obtain ⟨f, hf⟩ := ofObject_readsOnly a r field object
  refine ⟨f, hf, fun u => ?_⟩
  have hread : (cycleAware a r u).read = fun t => pure (readAs a r u t) :=
    funext (read_cycleAware a r u)
  simp only [unfoldedWith, hf, hread, List.mapM_pure]
  rfl

variable {a r field}

theorem readAs_congr {u u' : NodeId → Classified} {object : NodeId}
    (h : ∀ inner, UnfoldsInto a r object inner → u inner = u' inner) {t : ShapeTarget}
    (ht : t ∈ targets a r object) : readAs a r u t = readAs a r u' t := by
  cases t with
  | inPlace inner => exact h inner (.inl ht)
  | named inner =>
      by_cases hc : OnCycle a r inner
      · simp [readAs, hc]
      · simp [readAs, hc, h inner (.inr ⟨ht, hc⟩)]

theorem Unfolds.unique {object : NodeId} {c c' : Classified} (h : Unfolds a r field object c)
    (h' : Unfolds a r field object c') : c = c' := by
  induction h generalizing c' with
  | @intro object u _ ih =>
      obtain ⟨u', h'⟩ := h'
      obtain ⟨f, -, hf⟩ := ofObject_eq a r field object
      rw [hf, hf]
      congr 2
      exact List.map_congr_left fun t ht =>
        readAs_congr (fun inner hinner => ih inner hinner (h' inner hinner)) ht

variable (a r field)

/-- What a target is read as in the unfolding. -/
def Reads : ShapeTarget → Classified → Prop
  | .inPlace object, c => Unfolds a r field object c
  | .named object, c =>
    OnCycle a r object ∧ c = .invalid .illegalReference ∨
      ¬ OnCycle a r object ∧ Unfolds a r field object c

/-- The properties of an object are its unfolding if its targets are read as in the unfolding. -/
theorem ofObject_unfolds (object : NodeId) :
    ∃ f : List Classified → ClassifiedTree,
      (∀ reader, ofObject a r field reader object = f <$> (targets a r object).mapM reader.read) ∧
        ∀ cs, List.Forall₂ (Reads a r field) (targets a r object) cs →
          Unfolds a r field object (.nested (f cs) 0) := by
  classical
  obtain ⟨f, hf, hunfolded⟩ := ofObject_eq a r field object
  refine ⟨f, hf, fun cs hcs => ?_⟩
  let u (inner : NodeId) : Classified :=
    if h : ∃ c, Unfolds a r field inner c then h.choose else .invalid .illegalReference
  have hu {inner c} (h : Unfolds a r field inner c) : Unfolds a r field inner (u inner) := by
    have hex : ∃ c, Unfolds a r field inner c := ⟨c, h⟩
    simp only [u, dif_pos hex]
    exact hex.choose_spec
  have hread {t c} (h : Reads a r field t c) : c = readAs a r u t := by
    cases t with
    | inPlace inner => exact h.unique (hu h)
    | named inner =>
        obtain ⟨hc, rfl⟩ | ⟨hc, h⟩ := h
        · simp [readAs, hc]
        · simpa [readAs, hc] using h.unique (hu h)
  have hmap {ts cs} (h : List.Forall₂ (Reads a r field) ts cs) :
      cs = ts.map (readAs a r u) := by
    induction h with
    | nil => rfl
    | cons h _ ih => rw [List.map_cons, hread h, ih]
  obtain rfl := hmap hcs
  rw [List.forall₂_map_right_iff, List.forall₂_same] at hcs
  rw [← hunfolded]
  refine .intro u fun inner hinner => ?_
  obtain h | ⟨h, hc⟩ := hinner
  · exact hcs _ h
  · exact hu ((hcs _ h).resolve_left fun h => hc h.1).2

end

end Classified

end PropContract
