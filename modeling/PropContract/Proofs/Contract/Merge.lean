import PropContract.Contract.Check
import PropContract.Proofs.Contract.Override

/-!
# What a model keeps

A model is built by two walks over the overrides: one looks for faults that no override covers, and
one merges. On a clean component they take the same turns, so the model loses no property but those
that an override leaves out.
-/

namespace PropContract

namespace Override

def isIgnore : Override → Bool
  | .ignore => true
  | _ => false

def leavesOut (a : Arena) (overrides : Entries Child) (key : String) : Bool :=
  (overrides.get? key).any fun v => (ofValue a v).isIgnore

/-- Only an object literal reads as an object. -/
theorem isObjectLiteral_of_ofValueIn {a : Arena} {n : Nat} {v : Child}
    {entries : List (String × Override)} (h : ofValueIn a n v = .object entries) :
    a.isObjectLiteral (a.unparenthesized v) = true := by
  cases n with
  | zero => cases h
  | succ n =>
      simp only [ofValueIn] at h
      split at h
      case h_5 hform => simp [Arena.isObjectLiteral, hform]
      case h_4 => split at h <;> cases h
      case h_3 => cases h
      case h_6 => cases h
      all_goals
        split at h
        · cases h
        · split at h <;> cases h

theorem ofValueIn_object {a : Arena} {n : Nat} {v : Child}
    (h : a.isObjectLiteral (a.unparenthesized v) = true) :
    ofValueIn a (n + 1) v =
      .object ((a.overrideEntries (a.unparenthesized v)).map fun (key, w) =>
        (key, ofValueIn a n w)) := by
  unfold Arena.isObjectLiteral at h
  split at h
  · rename_i hform
    simp [ofValueIn, hform]
  · cases h

end Override

namespace Classified

/-! ## The rules of merging -/

mutual

/-- The type of a declared entry under the override value of its property, if there is one. A fault
has no type unless an override replaces it. -/
inductive HasType (a : Arena) : Classified → Option Child → PropertyType → Prop
  | declared {type} : HasType a (.valid type) none type
  | shape {properties kept arrays} (h : Keeps a properties [] kept) :
      HasType a (.nested properties arrays) none ((PropertyType.shape kept).inArrays arrays)
  | shapeUnder {properties kept arrays v} (ho : a.isObjectLiteral (a.unparenthesized v))
      (h : Keeps a properties (a.overrideEntries (a.unparenthesized v)) kept) :
      HasType a (.nested properties arrays) (some v) ((PropertyType.shape kept).inArrays arrays)
  | replaced {entry v}
      (h : ∀ properties arrays, entry = .nested properties arrays →
        a.isObjectLiteral (a.unparenthesized v) = false) :
      HasType a entry (some v) (.override (Override.ofValue a v).type)

/-- The properties that are kept under the values of an override object: all in their order, with
their required marks, less those that the overrides leave out. -/
inductive Keeps (a : Arena) :
    List (String × DeclaredProperty Classified) → Entries Child → List (String × Property) → Prop
  | nil {overrides} : Keeps a [] overrides []
  | leftOut {key p rest overrides kept} (h : Override.leavesOut a overrides key = true)
      (hr : Keeps a rest overrides kept) : Keeps a ((key, p) :: rest) overrides kept
  | kept {key p rest overrides type kept} (h : Override.leavesOut a overrides key = false)
      (ht : HasType a p.entry (overrides.get? key) type) (hr : Keeps a rest overrides kept) :
      Keeps a ((key, p) :: rest) overrides ((key, { type, required := p.required }) :: kept)

end

variable {a : Arena}

/-- The keys that are kept are the declared ones less those that are left out. -/
theorem Keeps.keys_eq {properties overrides kept} (h : Keeps a properties overrides kept) :
    Entries.keys kept =
      (Entries.keys properties).filter fun key => !Override.leavesOut a overrides key := by
  induction properties generalizing kept with
  | nil =>
      cases h
      rfl
  | cons p rest ih =>
      cases h with
      | leftOut h hr => simpa [Entries.keys, h] using ih hr
      | kept h _ hr => simpa [Entries.keys, h] using ih hr

/-- Where no override covers a property, its entry is no fault: a fault has no type to keep. -/
theorem Keeps.not_invalid {properties overrides kept} (h : Keeps a properties overrides kept)
    {key : String} {p : DeclaredProperty Classified} (hp : (key, p) ∈ properties)
    (ho : overrides.get? key = none) (v : Violation) : p.entry ≠ .invalid v := by
  induction properties generalizing kept with
  | nil => cases hp
  | cons p' rest ih =>
      cases h with
      | leftOut h hr =>
          rcases List.mem_cons.mp hp with he | hp
          · cases he
            simp [Override.leavesOut, ho] at h
          · exact ih hr hp
      | kept _ ht hr =>
          rcases List.mem_cons.mp hp with he | hp
          · cases he
            rw [ho] at ht
            intro hv
            rw [hv] at ht
            cases ht
          · exact ih hr hp

/-! ## Merging follows the rules -/

theorem merge_ignore (entry : Classified) : merge entry (some .ignore) = none := by
  cases entry <;> rfl

/-- An override that does not go on into a shape replaces the declared type. -/
theorem merge_replaced {entry : Classified} {o : Override} (hi : o.isIgnore = false)
    (h : ∀ properties arrays entries, entry = .nested properties arrays → o ≠ .object entries) :
    merge entry (some o) = some (.override o.type) := by
  cases entry with
  | nested properties arrays =>
      cases o with
      | object entries => exact absurd rfl (h properties arrays entries rfl)
      | ignore => cases hi
      | _ => rfl
  | _ =>
      cases o with
      | ignore => cases hi
      | _ => rfl

/-- The outcome of merging one entry: left out, or a type by the rules. -/
def Merged (a : Arena) (entry : Classified) (v? : Option Child) (type? : Option PropertyType) :
    Prop :=
  match type? with
  | none => ∃ v, v? = some v ∧ (Override.ofValue a v).isIgnore = true
  | some type => (∀ v, v? = some v → (Override.ofValue a v).isIgnore = false) ∧
      HasType a entry v? type

theorem Merged.replaced {entry : Classified} {v : Child}
    (h : ∀ properties arrays, entry = .nested properties arrays →
      a.isObjectLiteral (a.unparenthesized v) = false) :
    Merged a entry (some v) (merge entry (some (Override.ofValue a v))) := by
  cases hi : (Override.ofValue a v).isIgnore with
  | true =>
      have ho : Override.ofValue a v = .ignore := by
        revert hi
        cases Override.ofValue a v <;> simp [Override.isIgnore]
      rw [ho, merge_ignore]
      exact ⟨v, rfl, by simp [ho, Override.isIgnore]⟩
  | false =>
      rw [merge_replaced hi]
      · refine ⟨?_, .replaced h⟩
        rintro w ⟨⟩
        exact hi
      · intro properties arrays entries he ho
        have := Override.isObjectLiteral_of_ofValueIn ho
        simp [h properties arrays he] at this

mutual

theorem merged_of_uncovered : (entry : Classified) → ∀ {node : NodeId} {v? : Option Child} {n : Nat},
    n ≤ maxMetaDepth → (∀ v, v? = some v → a.Accepts n v) → uncovered a entry node v? = [] →
    Merged a entry v? (merge entry (v?.map (Override.ofValueIn a (n + 1))))
  | .valid type, _, none, _, _, _, _ => ⟨nofun, .declared⟩
  | .invalid v, _, none, _, _, _, hu => by simp [uncovered] at hu
  | .nested properties arrays, _, none, n, hn, _, hu => by
      simp only [uncovered] at hu
      exact ⟨nofun, .shape (keeps_of_uncoveredAll properties hn nofun hu)⟩
  | .valid _, _, some v, n, hn, hv, _ => by
      rw [Option.map_some, (hv v rfl).ofValueIn_eq_ofValue hn]
      exact .replaced nofun
  | .invalid _, _, some v, n, hn, hv, _ => by
      rw [Option.map_some, (hv v rfl).ofValueIn_eq_ofValue hn]
      exact .replaced nofun
  | .nested properties arrays, _, some v, n, hn, hv, hu => by
      have hread := (hv v rfl).ofValueIn_eq_ofValue hn
      cases ho : a.isObjectLiteral (a.unparenthesized v) with
      | false =>
          rw [Option.map_some, hread]
          exact .replaced fun _ _ _ => ho
      | true =>
          simp only [uncovered, ho, ↓reduceIte] at hu
          obtain ⟨m, rfl, hentries⟩ := (hv v rfl).entry ho
          have hobject := Override.ofValueIn_object (n := m + 1) ho
          rw [Option.map_some, hobject]
          refine ⟨?_, .shapeUnder ho (keeps_of_uncoveredAll properties (by omega) hentries hu)⟩
          rintro w ⟨⟩
          simp [← hread, hobject, Override.isIgnore]

theorem keeps_of_uncoveredAll : (properties : List (String × DeclaredProperty Classified)) →
    ∀ {overrides : Entries Child} {n : Nat}, n ≤ maxMetaDepth →
    (∀ key v, (key, v) ∈ overrides → a.Accepts n v) → uncoveredAll a properties overrides = [] →
    Keeps a properties overrides
      (mergeAll properties (overrides.map fun (key, v) => (key, Override.ofValueIn a (n + 1) v)))
  | [], _, _, _, _, _ => .nil
  | (key, p) :: rest, overrides, n, hn, hv, hu => by
      simp only [uncoveredAll, List.append_eq_nil_iff] at hu
      have hrest := keeps_of_uncoveredAll rest hn hv hu.2
      have hentry := merged_of_uncovered p.entry hn
        (fun v h => hv key v (Entries.mem_of_get? h)) hu.1
      simp only [mergeAll, Entries.get?_map]
      split <;> rename_i hm <;> rw [hm] at hentry
      · obtain ⟨hkept, htype⟩ := hentry
        refine .kept ?_ htype hrest
        cases hg : overrides.get? key with
        | none => simp [Override.leavesOut, hg]
        | some v => simpa [Override.leavesOut, hg] using hkept v hg
      · obtain ⟨v, hg, hi⟩ := hentry
        exact .leftOut (by simp [Override.leavesOut, hg, hi]) hrest

end

/-! ## The model of a component -/

/-- What the properties of a model have of the declared ones: the rules of merging hold at every
level, the keys are the declared ones less those that are left out, and no fault was skipped. -/
structure KeptFrom (a : Arena) (tree : ClassifiedTree) (overrides : Entries Child)
    (kept : Entries Property) : Prop where
  keeps : Keeps a tree overrides kept
  keys_eq : kept.keys = tree.keys.filter fun key => !Override.leavesOut a overrides key
  not_invalid : ∀ key p, (key, p) ∈ tree → overrides.get? key = none → ∀ v, p.entry ≠ .invalid v

theorem Keeps.keptFrom {tree overrides kept} (h : Keeps a tree overrides kept) :
    KeptFrom a tree overrides kept :=
  ⟨h, h.keys_eq, fun _ _ hp ho v => h.not_invalid hp ho v⟩

end Classified

theorem Arena.overrides_eq_overrideEntries {a : Arena} {value object : Child}
    {overrides : Entries Child} (h : a.componentOverrides value = .properties object overrides) :
    overrides = a.overrideEntries object := by
  unfold Arena.componentOverrides at h
  split at h
  · cases h
    rfl
  · split at h
    · split at h <;> cases h
    · split at h
      · cases h
        rfl
      · cases h
        rfl

/-- A model keeps all that its component declares, less what the overrides leave out. -/
theorem checkContract_model_keptFrom {a : Arena} {scope : Scope} {names : FieldNames}
    {fileName : String} {root : Child} {model : ComponentModel}
    (h : (checkContract a scope names fileName root).model = some model) :
    ∃ component object overrides, chosenComponent a scope names root = some component ∧
      a.componentOverrides component.overrides = .properties object overrides ∧
      Classified.KeptFrom a
        (Classified.classify a (scope.resolver a) names.propTypes component.propTypes)
        overrides model.properties := by
  unfold checkContract at h
  split at h
  · cases h
  · rename_i component hcomponent
    split at h
    · cases h
    · cases h
    · rename_i object overrides hoverrides
      refine ⟨component, object, overrides, hcomponent, hoverrides, ?_⟩
      simp only [Option.ite_none_right_eq_some, List.isEmpty_iff, List.append_eq_nil_iff,
        Option.some.injEq] at h
      obtain ⟨⟨⟨_, huncovered⟩, hfindings⟩, rfl⟩ := h
      rw [Arena.overrides_eq_overrideEntries hoverrides] at huncovered ⊢
      have haccepts key v (hv : (key, v) ∈ a.overrideEntries object) : a.Accepts maxMetaDepth v :=
        Arena.Accepts.of_elementFindings hfindings hv
      exact (Classified.keeps_of_uncoveredAll _ (Nat.le_refl _) haccepts huncovered).keptFrom

/-- A module whose faults lie in a shape: an override in parentheses types one of them and leaves the
other one out. -/
def partlyOverridden : Module :=
  .parse "Card.jsx" <|
    "T.propTypes=\x7bx:PropTypes.shape(\x7by:f,z:g\x7d),w:h\x7d;" ++
    "T.viewModelMeta=\x7bx:(\x7by:B,z:'ignore'\x7d),w:'ignore'\x7d;export default T"

theorem checkContract_partlyOverridden :
    ∃ model, (checkContract partlyOverridden.arena (.ofModule partlyOverridden) {} "Card.jsx"
        (some partlyOverridden.root)).model = some model ∧
      model.properties.keys = ["x"] ∧
      ∃ component object overrides,
        chosenComponent partlyOverridden.arena (.ofModule partlyOverridden) {}
          (some partlyOverridden.root) = some component ∧
        partlyOverridden.arena.componentOverrides component.overrides =
          .properties object overrides ∧
        Classified.KeptFrom partlyOverridden.arena
          (Classified.classify partlyOverridden.arena
            (Scope.resolver (.ofModule partlyOverridden) partlyOverridden.arena) "propTypes"
            component.propTypes)
          overrides model.properties := by
  have hkeys : (checkContract partlyOverridden.arena (.ofModule partlyOverridden) {} "Card.jsx"
      (some partlyOverridden.root)).model.map (·.properties.keys) = some ["x"] := by
    decide +kernel
  obtain ⟨model, hmodel, hmodelKeys⟩ := Option.map_eq_some_iff.mp hkeys
  exact ⟨model, hmodel, hmodelKeys, checkContract_model_keptFrom hmodel⟩

end PropContract
