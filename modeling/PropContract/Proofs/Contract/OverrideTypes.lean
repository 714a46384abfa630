import PropContract.Proofs.Contract.Coverage
import PropContract.Proofs.Contract.Merge
import PropContract.Proofs.Contract.OverrideMeaning
import PropContract.Proofs.Stateful

/-!
# Types from overrides

Every type that a model takes from an override is the type that the value at the same path of keys gives.
A type is unknown only as the element of an array whose first element is missing or asks to be left out.
-/

namespace PropContract

open Stateful

/-- Whether a type has the override type `t` at the end of a path of keys, inside any number of arrays. -/
inductive PropertyType.Overridden : PropertyType → (path : List String) → OverrideType → Prop
  | here {t} : Overridden (.override t) [] t
  | element {type path t} (h : Overridden type path t) : Overridden (.arrayOf type) path t
  | property {properties key p path t} (hp : (key, p) ∈ properties) (h : Overridden p.type path t) :
      Overridden (.shape properties) (key :: path) t

theorem PropertyType.Overridden.of_inArrays {type : PropertyType} {path : List String} {t : OverrideType} :
    {depth : Nat} → (type.inArrays depth).Overridden path t → type.Overridden path t
  | 0, h => h
  | _ + 1, .element h => h.of_inArrays

/-- Whether a property is overridden by an array of elements of unknown type. -/
def PropertyType.isUnknownArray : PropertyType → Bool
  | .override (.arrayOf .unknown) => true
  | _ => false

theorem PropertyType.Overridden.of_isUnknownArray {type : PropertyType} (h : type.isUnknownArray = true) :
    type.Overridden [] (.arrayOf .unknown) := by
  unfold isUnknownArray at h
  split at h
  · exact .here
  · cases h

namespace Arena

/-- The value at the end of a path of keys that begins at an override value, if there is one. -/
def valueAlong? (a : Arena) : Option Child → (path : List String) → Option Child
  | v?, [] => v?
  | none, _ :: _ => none
  | some v, key :: rest =>
    if a.holdsObject v then a.valueAlong? (a.overrideAt? (a.unparenthesized v) key) rest else none

mutual

/-- The type that an override value gives. Of an array the first element counts; the elements are of
unknown type if there is none, or if it is the word for leaving out. No other value gives an unknown
type. -/
inductive Gives (a : Arena) : Child → OverrideType → Prop
  | named {v type nullable} (h : a.stringText (a.unparenthesized v) = some (type.word nullable)) :
      Gives a v (.named type nullable)
  | component {v name} (h : a.form? (a.unparenthesized v) = some (.identifier name)) :
      Gives a v (.component name)
  | emptyArray {v} (h : a.form? (a.unparenthesized v) = some (.arrayLiteral [])) :
      Gives a v (.arrayOf .unknown)
  | ignoredArray {v first rest} (h : a.form? (a.unparenthesized v) = some (.arrayLiteral (first :: rest)))
      (hfirst : a.stringText (a.unparenthesized first) = some ignoreWord) : Gives a v (.arrayOf .unknown)
  | array {v first rest element} (h : a.form? (a.unparenthesized v) = some (.arrayLiteral (first :: rest)))
      (hfirst : Gives a first element) : Gives a v (.arrayOf element)
  | object {v elements types} (h : a.form? (a.unparenthesized v) = some (.objectLiteral elements))
      (hentries : GivesEach a (a.overrideEntries (a.unparenthesized v)) types) : Gives a v (.object types)

/-- The types that the entries of an override object give under their names, less those that are left
out. -/
inductive GivesEach (a : Arena) : List (String × Child) → List (String × OverrideType) → Prop
  | nil : GivesEach a [] []
  | leftOut {key v entries types} (h : a.stringText (a.unparenthesized v) = some ignoreWord)
      (hs : GivesEach a entries types) : GivesEach a ((key, v) :: entries) types
  | cons {key v t entries types} (h : Gives a v t) (hs : GivesEach a entries types) :
      GivesEach a ((key, v) :: entries) ((key, t) :: types)

end

variable {a : Arena} {n : Nat} {v : Child}

theorem valueAlong?_none (path : List String) : a.valueAlong? none path = none := by
  cases path <;> rfl

theorem valueAlong?_cons (hv : a.holdsObject v = true) (key : String) (rest : List String) :
    a.valueAlong? (some v) (key :: rest) =
      a.valueAlong? ((a.overrideEntries (a.unparenthesized v)).get? key) rest := by
  rw [valueAlong?, if_pos hv, get?_overrideEntries]

/-! ## What a value means gives its type -/

theorem Means.stringText_of_ignore (h : a.Means v .ignore) :
    a.stringText (a.unparenthesized v) = some ignoreWord := by
  cases h with
  | ignore h => exact h

/-- An array gives its type by its first element, also where that is left out. -/
theorem Gives.of_first {first : Child} {rest : List Child} {o : Override}
    (h : a.form? (a.unparenthesized v) = some (.arrayLiteral (first :: rest))) (hfirst : a.Means first o)
    (hgives : o.isIgnore = false → a.Gives first o.type) : a.Gives v (.arrayOf o.type) := by
  cases o with
  | ignore => exact .ignoredArray h hfirst.stringText_of_ignore
  | _ => exact .array h (hgives rfl)

theorem GivesEach.of_first {key : String} {entries : List (String × Child)} {o : Override}
    {os : List (String × Override)} (h : a.Means v o) (hgives : o.isIgnore = false → a.Gives v o.type)
    (hs : a.GivesEach entries (Override.type.entryTypes os)) :
    a.GivesEach ((key, v) :: entries) (Override.type.entryTypes ((key, o) :: os)) := by
  cases o with
  | ignore => exact .leftOut h.stringText_of_ignore hs
  | _ => exact .cons (hgives rfl) hs

mutual

theorem Means.gives {v : Child} {o : Override} (h : a.Means v o) (ho : o.isIgnore = false) :
    a.Gives v o.type :=
  match h with
  | .named h => .named h
  | .component h => .component h
  | .emptyArray h => .emptyArray h
  | .array h hfirst => .of_first h hfirst hfirst.gives
  | .object h hentries => .object h hentries.gives

theorem MeansEach.gives {entries : List (String × Child)} {os : List (String × Override)}
    (h : a.MeansEach entries os) : a.GivesEach entries (Override.type.entryTypes os) :=
  match h with
  | .nil => .nil
  | .cons h hs => .of_first h h.gives hs.gives

end

/-! ## Values that pass -/

theorem Passes.accepts (h : a.Passes n v) : a.Accepts n v :=
  h.passes.imp_right fun ⟨name, hname⟩ => by simp [propertyNameText, hname]

/-- The entries of an object that passes pass one level further in. -/
theorem Passes.entry (hcomplete : a.Complete) (hlawful : a.Lawful) (h : a.Passes n v)
    (hobject : a.holdsObject v = true) : ∃ m, n = m + 1 ∧ ∀ key w,
      (a.overrideEntries (a.unparenthesized v)).get? key = some w → a.Passes m w := by
  obtain ⟨m, rfl, -⟩ := h.accepts.entry hobject
  refine ⟨m, rfl, fun key w hw => ?_⟩
  simp only [holdsObject, isObjectLiteral] at hobject
  split at hobject
  case h_2 => cases hobject
  rename_i elements hform
  rcases h.passes with hfindings | ⟨name, hname⟩
  · simp only [valueFindings, hform] at hfindings
    exact .of_elementFindings hcomplete hlawful hfindings (Entries.mem_of_get? hw)
  · rw [unparenthesized_eq_self (by simp [hname]), hname] at hform
    cases hform

/-- All values along the paths of a value that passes pass too. -/
theorem Passes.along (hcomplete : a.Complete) (hlawful : a.Lawful) (h : a.Passes n v) {path : List String}
    {w : Child} (hw : a.valueAlong? (some v) path = some w) : ∃ m ≤ n, a.Passes m w := by
  induction path generalizing n v with
  | nil =>
      cases hw
      exact ⟨n, Nat.le_refl n, h⟩
  | cons key rest ih =>
      by_cases hobject : a.holdsObject v = true
      · obtain ⟨m, rfl, hentries⟩ := h.entry hcomplete hlawful hobject
        rw [valueAlong?_cons hobject] at hw
        cases hget : (a.overrideEntries (a.unparenthesized v)).get? key with
        | none =>
            rw [hget, valueAlong?_none] at hw
            exact nomatch hw
        | some u =>
            rw [hget] at hw
            obtain ⟨k, hk, hpasses⟩ := ih (hentries key u hget) hw
            exact ⟨k, Nat.le_succ_of_le hk, hpasses⟩
      · rw [valueAlong?, if_neg hobject] at hw
        exact nomatch hw

/-- A value that passes is read as what it means. -/
theorem Passes.means_ofValue (hcomplete : a.Complete) (hlawful : a.Lawful) (h : a.Passes n v)
    (hn : n ≤ maxMetaDepth) : a.Means v (Override.ofValue a v) := by
  rw [← h.accepts.ofValueIn_eq_ofValue hn]
  exact h.means hcomplete hlawful

/-- A value that passes is the word for leaving out, or gives the type that it is read as. -/
theorem Passes.ignored_or_gives (hcomplete : a.Complete) (hlawful : a.Lawful) (h : a.Passes n v)
    (hn : n ≤ maxMetaDepth) :
    a.stringText (a.unparenthesized v) = some ignoreWord ∨ a.Gives v (Override.ofValue a v).type := by
  have hmeans := h.means_ofValue hcomplete hlawful hn
  cases ho : Override.ofValue a v with
  | ignore =>
      rw [ho] at hmeans
      exact .inl hmeans.stringText_of_ignore
  | _ =>
      rw [ho] at hmeans
      exact .inr (hmeans.gives rfl)

end Arena

/-! ## Declared types hold no overrides -/

namespace Classified

mutual

/-- Whether no declared type has an override in it. -/
def Plain : Classified → Prop
  | .valid type => ∀ path t, ¬ type.Overridden path t
  | .invalid _ => True
  | .nested properties _ => PlainAll properties

def PlainAll : List (String × DeclaredProperty Classified) → Prop
  | [] => True
  | (_, p) :: rest => Plain p.entry ∧ PlainAll rest

end

theorem plainAll_iff {properties : List (String × DeclaredProperty Classified)} :
    PlainAll properties ↔ ∀ e ∈ properties, Plain e.2.entry := by
  induction properties with
  | nil => simp [PlainAll]
  | cons e rest ih => simp [PlainAll, ih]

/-- Whether a reading has a good result, whatever was read before. -/
def Always {α : Type} (good : α → Prop) (m : Classifier α) : Prop :=
  ∀ s, good (m.run s).1

theorem Always.pure {α : Type} {good : α → Prop} {x : α} (h : good x) : Always good (Pure.pure x) :=
  fun _ => h

theorem Always.map {α β : Type} {good : α → Prop} {good' : β → Prop} {m : Classifier α} (h : Always good m)
    {f : α → β} (hf : ∀ x, good x → good' (f x)) : Always good' (f <$> m) :=
  fun s => hf _ (h s)

theorem Always.bind {α β : Type} {good : α → Prop} {good' : β → Prop} {m : Classifier α} (h : Always good m)
    {k : α → Classifier β} (hk : ∀ x, good x → Always good' (k x)) : Always good' (m >>= k) :=
  fun s => hk _ (h s) _

/-- What is read first does not matter to the result. -/
theorem Always.after {α β : Type} {good : β → Prop} {m : Classifier α} {k : α → Classifier β}
    (hk : ∀ x, Always good (k x)) : Always good (m >>= k) :=
  fun _ => hk _ _

theorem Always.ite {α : Type} {good : α → Prop} {p : Prop} [Decidable p] {m m' : Classifier α}
    (h : Always good m) (h' : Always good m') : Always good (if p then m else m') := by
  split <;> assumption

theorem Plain.inArray {c : Classified} (h : c.Plain) : c.inArray.Plain := by
  cases c with
  | valid type =>
      intro path t ht
      cases ht with
      | element ht => exact h path t ht
  | invalid v => trivial
  | nested properties arrays => exact h

section

variable {a : Arena} {r : Resolver} {field : String} {reader : ShapeReader}

theorem ofMember_plain (e : Child) : (ofMember a r e).Plain := by
  unfold ofMember
  split
  · split
    · exact fun path t h => nomatch h
    · split
      · trivial
      · split <;> trivial
  · trivial

theorem plain_enum (values : List EnumValue) : Plain (.valid (.enum values)) := fun _ _ h => nomatch h

theorem ofObjectEnum_plain (callee : Child) (arguments : List Child) :
    (ofObjectEnum a r callee arguments).Plain := by
  unfold ofObjectEnum
  extract_lets values?
  cases values? with
  | none => trivial
  | some values =>
      simp only
      split
      · trivial
      · split
        · exact plain_enum _
        · split <;> first | exact plain_enum _ | trivial
        · trivial

theorem ofOneOf_plain (argument : Child) : (ofOneOf a r argument).Plain := by
  unfold ofOneOf
  split
  case h_1 => trivial
  split
  case h_2 => exact plain_enum _
  case h_3 => split <;> first | exact plain_enum _ | trivial
  case h_4 => exact ofObjectEnum_plain _ _
  all_goals trivial

/-- Whether a reader gives plain shapes. -/
structure PlainReader (reader : ShapeReader) : Prop where
  inPlace : ∀ object, Always Plain (reader.inPlace object)
  named : ∀ object, Always Plain (reader.named object)

theorem plain_shape : Plain (.valid (.shape [])) := fun _ _ h => by
  cases h with
  | property hp => exact nomatch hp

theorem plain_shapeOf (component : String) : Plain (.valid (.shapeOf component)) := fun _ _ h => nomatch h

theorem ofShape_plain (hreader : PlainReader reader) (argument : Child) :
    Always Plain (ofShape a r field reader argument) := by
  unfold ofShape
  split
  case h_1 => exact .pure plain_shape
  split
  case h_1 => exact .pure plain_shape
  case h_2 => exact hreader.inPlace _
  case h_3 =>
    split
    · split
      · exact .pure (plain_shapeOf _)
      · exact .pure trivial
    · exact .pure trivial
  case h_5 =>
    split
    case h_1 => exact hreader.named _
    all_goals exact .pure trivial
  all_goals exact .pure trivial

variable {value : Child → Classifier (Classified × Bool)}

theorem ofArrayOf_plain (hvalue : ∀ e, Always (fun c => c.1.Plain) (value e)) (argument : Child) :
    Always Plain (ofArrayOf value argument) := by
  unfold ofArrayOf
  split
  · exact .pure trivial
  · exact (hvalue argument).map fun c hc => hc.inArray

theorem ofCall_plain (hreader : PlainReader reader) (hvalue : ∀ e, Always (fun c => c.1.Plain) (value e))
    (callee : Child) (arguments : List Child) :
    Always Plain (ofCall a r field reader value callee arguments) := by
  unfold ofCall
  simp only
  split
  case h_2 => exact ofArrayOf_plain hvalue _
  case h_3 => exact .pure (ofOneOf_plain _)
  case h_4 | h_5 => exact ofShape_plain hreader _
  all_goals exact .pure trivial

theorem ofLeaf_plain (hreader : PlainReader reader) (hvalue : ∀ e, Always (fun c => c.1.Plain) (value e))
    (e : Child) : Always Plain (ofLeaf a r field reader value e) := by
  unfold ofLeaf
  split
  case h_1 | h_2 => exact .pure (ofMember_plain _)
  case h_3 => exact ofCall_plain hreader hvalue _ _
  all_goals exact .pure trivial

theorem ofValueIn_plain (hreader : PlainReader reader) (n : Nat) (e : Child) :
    Always (fun c => c.1.Plain) (ofValueIn a r field reader n e) := by
  induction n generalizing e with
  | zero => exact .pure trivial
  | succ n ih => exact (ofLeaf_plain hreader ih _).map fun _ hc => hc

theorem ofElement_plain (hreader : PlainReader reader) (element : NodeId) :
    Always (fun property => PlainAll property.toList) (ofElement a r field reader element) := by
  unfold ofElement
  split
  · exact .pure trivial
  · split
    · exact (ofValueIn_plain hreader _ _).bind fun c hc => .pure ⟨hc, trivial⟩
    · exact .pure ⟨trivial, trivial⟩
    · exact .pure ⟨trivial, trivial⟩
    · exact .pure trivial

theorem plainAll_append {properties rest : List (String × DeclaredProperty Classified)} (h : PlainAll properties)
    (hrest : PlainAll rest) : PlainAll (properties ++ rest) := by
  rw [plainAll_iff] at h hrest ⊢
  exact fun e he => (List.mem_append.mp he).elim (h e) (hrest e)

theorem ofElements_plain (hreader : PlainReader reader) (elements : List NodeId) :
    Always PlainAll (ofElements a r field reader elements) := by
  induction elements with
  | nil => exact .pure trivial
  | cons element rest ih =>
      exact (ofElement_plain hreader element).bind fun property hproperty =>
        ih.bind fun properties hproperties => .pure (plainAll_append hproperty hproperties)

theorem ofObject_plain (hreader : PlainReader reader) (object : NodeId) :
    Always PlainAll (ofObject a r field reader object) := by
  unfold ofObject
  split
  · refine (ofElements_plain hreader _).map fun properties h => ?_
    rw [plainAll_iff] at h ⊢
    exact fun e he => h e (Entries.mem_of_mem_ofList he)
  · exact .pure trivial

theorem watching_plain {shape : NodeId → Classifier Classified} (h : ∀ object, Always Plain (shape object)) :
    PlainReader (watching shape) where
  inPlace := h
  named object := .after fun _ => .ite (.after fun _ => .pure trivial) <| .after fun _ =>
    (h object).bind fun _ hresult => .after fun _ => .after fun _ =>
      .ite (.after fun _ => .pure trivial) (.pure hresult)

theorem ofShapeObject_plain (level : Nat) (object : NodeId) :
    Always Plain (ofShapeObject a r field level object) := by
  have hpast : Always Plain pastLimit := .after fun _ => .pure trivial
  induction level generalizing object with
  | zero => exact hpast
  | succ level ih =>
      exact .after fun _ => .ite hpast <| .after fun _ =>
        (ofObject_plain (watching_plain ih) object).bind fun _ hproperties => .pure hproperties

/-- No declared type has an override in it. -/
theorem classify_plain (propTypes : Child) : PlainAll (classify a r field propTypes) := by
  unfold classify classification
  split
  · trivial
  · exact ofObject_plain (watching_plain (ofShapeObject_plain _)) _ _

end

/-! ## A model takes its types from the overrides -/

variable {a : Arena} {n : Nat}

mutual

/-- A type under an override value takes its override types from there. -/
theorem HasType.overridden (hcomplete : a.Complete) (hlawful : a.Lawful) {entry : Classified} {v? : Option Child}
    {type : PropertyType}
    (htype : HasType a entry v? type) (hplain : entry.Plain) {n : Nat} (hn : n ≤ maxMetaDepth)
    (hv : ∀ v, v? = some v → a.Passes n v ∧ (Override.ofValue a v).isIgnore = false)
    {path : List String} {t : OverrideType} (h : type.Overridden path t) :
    ∃ v, a.valueAlong? v? path = some v ∧ a.Gives v t := by
  match htype with
  | .declared => exact absurd h (hplain path t)
  | .shape hkeeps =>
      cases h.of_inArrays with
      | property hp h =>
          obtain ⟨v, hnone, -⟩ := hkeeps.overridden hcomplete hlawful hplain hn nofun hp h
          rw [Entries.get?_nil, Arena.valueAlong?_none] at hnone
          exact nomatch hnone
  | .shapeUnder hobject hkeeps =>
      obtain ⟨m, rfl, hentries⟩ := (hv _ rfl).1.entry hcomplete hlawful hobject
      cases h.of_inArrays with
      | property hp h =>
          rw [Arena.valueAlong?_cons hobject]
          exact hkeeps.overridden hcomplete hlawful hplain (Nat.le_of_succ_le hn) hentries hp h
  | .replaced _ =>
      cases h with
      | here => exact ⟨_, rfl, ((hv _ rfl).1.means_ofValue hcomplete hlawful hn).gives (hv _ rfl).2⟩

theorem Keeps.overridden (hcomplete : a.Complete) (hlawful : a.Lawful)
    {properties : List (String × DeclaredProperty Classified)} {overrides : Entries Child}
    {kept : List (String × Property)} (hkeeps : Keeps a properties overrides kept) (hplain : PlainAll properties)
    {n : Nat} (hn : n ≤ maxMetaDepth) (hv : ∀ key v, overrides.get? key = some v → a.Passes n v)
    {key : String} {p : Property} (hp : (key, p) ∈ kept) {path : List String} {t : OverrideType}
    (h : p.type.Overridden path t) :
    ∃ v, a.valueAlong? (overrides.get? key) path = some v ∧ a.Gives v t := by
  match hkeeps with
  | .nil => exact nomatch hp
  | .leftOut _ hrest => exact hrest.overridden hcomplete hlawful hplain.2 hn hv hp h
  | .kept hkept htype hrest =>
      rcases List.mem_cons.mp hp with heq | hp
      · cases heq
        refine htype.overridden hcomplete hlawful hplain.1 hn (fun v hget => ⟨hv _ v hget, ?_⟩) h
        simpa [Override.leavesOut, hget] using hkept
      · exact hrest.overridden hcomplete hlawful hplain.2 hn hv hp h

end

end Classified

namespace Arena

variable {a : Arena} {value object : Child} {overrides : Entries Child}

/-- The paths of a component's overrides begin in its object, if it has one. -/
theorem valueAlong?_overrides (h : a.componentOverrides value = .properties object overrides) (key : String)
    (path : List String) :
    a.valueAlong? (some value) (key :: path) = a.valueAlong? ((a.overrideEntries object).get? key) path := by
  have hnone (hvalue : a.holdsObject value = false) :
      a.valueAlong? (some value) (key :: path) = a.valueAlong? ((a.overrideEntries none).get? key) path := by
    rw [valueAlong?, hvalue, if_neg Bool.false_ne_true, overrideEntries_none, Entries.get?_nil,
      valueAlong?_none]
  unfold componentOverrides at h
  split at h
  · rename_i hid
    cases h
    exact hnone (by rw [holdsObject, hid]; rfl)
  · rename_i id hid
    split at h
    · split at h <;> cases h
    · split at h
      · rename_i hobject
        cases h
        rw [valueAlong?_cons (by rwa [holdsObject, hid]), hid]
      · rename_i hobject
        cases h
        exact hnone (by rw [holdsObject, hid]; exact Bool.eq_false_iff.mpr hobject)

end Arena

/-- Where there is a model, the component has an object of overrides or none, without faults, and the model
keeps what they leave of the declared types. -/
theorem checkContract_model_keeps {a : Arena} {scope : Scope} {names : FieldNames} {fileName : String}
    {root : Child} {model : ComponentModel}
    (h : (checkContract a scope names fileName root).model = some model) :
    ∃ component object, chosenComponent a scope names root = some component ∧
      a.componentOverrides component.overrides = .properties object (a.overrideEntries object) ∧
      a.overrideFindings object = [] ∧
      Classified.Keeps a (Classified.classify a (scope.resolver a) names.propTypes component.propTypes)
        (a.overrideEntries object) model.properties := by
  unfold checkContract at h
  split at h
  · cases h
  · rename_i component hcomponent
    split at h
    · cases h
    · cases h
    · rename_i object overrides hoverrides
      simp only [Option.ite_none_right_eq_some, List.isEmpty_iff, List.append_eq_nil_iff,
        Option.some.injEq] at h
      obtain ⟨⟨⟨_, huncovered⟩, hfindings⟩, rfl⟩ := h
      obtain rfl := Arena.overrides_eq_overrideEntries hoverrides
      refine ⟨component, object, hcomponent, hoverrides, hfindings, ?_⟩
      exact Classified.keeps_of_uncoveredAll _ (Nat.le_refl _)
        (fun key v hv => Arena.Accepts.of_elementFindings hfindings hv) huncovered

namespace Module

/-- In a module without errors, every type that its model takes from an override is the type that the
component's overrides give at the same path of keys. Every other value on such a path gives its type, too,
if it is not the word for leaving out. -/
theorem model_overridden_gives (fileName text : String) (names : FieldNames) :
    let m := Module.parse fileName text
    m.errors = [] → ∀ model,
      (checkContract m.arena (.ofModule m) names fileName (some m.root)).model = some model →
      ∃ component, chosenComponent m.arena (.ofModule m) names (some m.root) = some component ∧
        (∀ path t, (PropertyType.shape model.properties).Overridden path t →
          ∃ v, m.arena.valueAlong? (some component.overrides) path = some v ∧ m.arena.Gives v t) ∧
        ∀ key path v, m.arena.valueAlong? (some component.overrides) (key :: path) = some v →
          m.arena.stringText (m.arena.unparenthesized v) = some ignoreWord ∨
            m.arena.Gives v (Override.ofValue m.arena v).type := by
  intro m herrors model hmodel
  obtain ⟨component, object, hcomponent, hoverrides, hfindings, hkeeps⟩ := checkContract_model_keeps hmodel
  have hlawful : m.arena.Lawful := lawful_parse fileName text
  have hcomplete : m.arena.Complete := (spanned_parse fileName text herrors).complete hlawful
  have hpasses (key : String) (v : Child) (hv : (m.arena.overrideEntries object).get? key = some v) :
      m.arena.Passes maxMetaDepth v :=
    .of_elementFindings hcomplete hlawful hfindings (Entries.mem_of_get? hv)
  have halong (key : String) (path : List String) :
      m.arena.valueAlong? (some component.overrides) (key :: path) =
        m.arena.valueAlong? ((m.arena.overrideEntries object).get? key) path :=
    Arena.valueAlong?_overrides hoverrides key path
  refine ⟨component, hcomponent, fun path t h => ?_, fun key path v hv => ?_⟩
  · cases h with
    | property hp h =>
        rw [halong]
        exact hkeeps.overridden hcomplete hlawful (Classified.classify_plain _) (Nat.le_refl _) hpasses hp h
  · rw [halong] at hv
    cases hget : (m.arena.overrideEntries object).get? key with
    | none =>
        rw [hget, Arena.valueAlong?_none] at hv
        exact nomatch hv
    | some w =>
        rw [hget] at hv
        obtain ⟨n, hn, hvalue⟩ := (hpasses key w hget).along hcomplete hlawful hv
        exact hvalue.ignored_or_gives hcomplete hlawful hn

/-- Overrides on two levels, with an empty array among them. -/
def overriddenTwice : Module :=
  .parse "Card.jsx" <|
    "C.propTypes=\x7bx:f,y:PropTypes.shape(\x7bz:g\x7d)\x7d;" ++
    "C.viewModelMeta=\x7bx:[],y:\x7bz:[('int?')]\x7d\x7d;export default C"

theorem model_overridden_gives_twice :
    overriddenTwice.errors = [] ∧ ∃ model,
      (checkContract overriddenTwice.arena (.ofModule overriddenTwice) {} "Card.jsx"
        (some overriddenTwice.root)).model = some model ∧
      ∃ component, chosenComponent overriddenTwice.arena (.ofModule overriddenTwice) {}
          (some overriddenTwice.root) = some component ∧
        (∀ path t, (PropertyType.shape model.properties).Overridden path t →
          ∃ v, overriddenTwice.arena.valueAlong? (some component.overrides) path = some v ∧
            overriddenTwice.arena.Gives v t) ∧
        ∀ key path v, overriddenTwice.arena.valueAlong? (some component.overrides) (key :: path) = some v →
          overriddenTwice.arena.stringText (overriddenTwice.arena.unparenthesized v) = some ignoreWord ∨
            overriddenTwice.arena.Gives v (Override.ofValue overriddenTwice.arena v).type := by
  obtain ⟨herrors, hmodel⟩ : overriddenTwice.errors = [] ∧
      (checkContract overriddenTwice.arena (.ofModule overriddenTwice) {} "Card.jsx"
        (some overriddenTwice.root)).model.isSome = true := by
    decide +kernel
  obtain ⟨model, hmodel⟩ := Option.isSome_iff_exists.mp hmodel
  exact ⟨herrors, model, hmodel, model_overridden_gives _ _ {} herrors model hmodel⟩

/-- An array of the word for leaving out. -/
def ignoredElement : Module :=
  .parse "Card.jsx" "C.propTypes=\x7bx:f\x7d;C.viewModelMeta=\x7bx:['ignore']\x7d;export default C"

/-- Not only an empty array has elements of unknown type. -/
theorem model_ignoredElement :
    ignoredElement.errors = [] ∧ ∃ model,
      (checkContract ignoredElement.arena (.ofModule ignoredElement) {} "Card.jsx"
        (some ignoredElement.root)).model = some model ∧
      (PropertyType.shape model.properties).Overridden ["x"] (.arrayOf .unknown) ∧
      ∃ component v first, chosenComponent ignoredElement.arena (.ofModule ignoredElement) {}
          (some ignoredElement.root) = some component ∧
        ignoredElement.arena.valueAlong? (some component.overrides) ["x"] = some v ∧
        ignoredElement.arena.form? (ignoredElement.arena.unparenthesized v) = some (.arrayLiteral [first]) := by
  have hunknown : (checkContract ignoredElement.arena (.ofModule ignoredElement) {} "Card.jsx"
      (some ignoredElement.root)).model.any (fun model =>
        model.properties.any fun property => property.1 == "x" && property.2.type.isUnknownArray) = true := by
    decide +kernel
  obtain ⟨model, hmodel, hproperties⟩ := (Option.any_eq_true _ _).mp hunknown
  obtain ⟨⟨key, p⟩, hp, hx⟩ := List.any_eq_true.mp hproperties
  obtain ⟨hkey, htype⟩ := (Bool.and_eq_true _ _).mp hx
  obtain rfl : key = "x" := beq_iff_eq.mp hkey
  exact ⟨by decide +kernel, model, hmodel, .property hp (.of_isUnknownArray htype),
    { name := some "C", propTypes := some 6, overrides := some 16 }, some 14, some 13, by decide +kernel⟩

end Module

end PropContract
