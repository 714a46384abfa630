import Mathlib.Data.List.Basic
import PropContract.Contract.Check
import PropContract.Proofs.Entries

/-!
# Which faults overrides cover

A fault lies at the end of a path of keys. An override object covers a path by what stands under its
first key, and what no path covers is reported in the order of the declarations.
-/

namespace PropContract

namespace Arena

/-- The value that an override object gives to a key: of entries with that name, the last one. -/
def overrideAt? (a : Arena) (object : Child) (key : String) : Option Child :=
  Entries.get? ((a.literalElements object).filterMap a.overrideEntry?).reverse key

def holdsObject (a : Arena) (v : Child) : Bool :=
  a.isObjectLiteral (a.unparenthesized v)

/-- Whether an override object covers a path: it has an entry for the first key, and this is no object,
or the path ends there, or the object covers the rest of the path. -/
def covers (a : Arena) : Child → (path : List String) → Bool
  | _, [] => false
  | object, key :: rest =>
    match a.overrideAt? object key with
    | none => false
    | some v => !a.holdsObject v || rest.isEmpty || a.covers (a.unparenthesized v) rest

/-- Whether an override object has an entry at the very end of a path. -/
def mentions (a : Arena) : Child → (path : List String) → Bool
  | _, [] => false
  | object, key :: rest =>
    match a.overrideAt? object key with
    | none => false
    | some v => rest.isEmpty || (a.holdsObject v && a.mentions (a.unparenthesized v) rest)

/-- Down to `n` levels, `wider` has all the entries of `object`: objects where those are objects, and
other values where those are others. It may have more entries on each level. -/
def ExtendsTo (a b : Arena) : (n : Nat) → (object wider : Child) → Prop
  | 0, _, _ => True
  | n + 1, object, wider => ∀ key v, a.overrideAt? object key = some v →
    ∃ w, b.overrideAt? wider key = some w ∧ a.holdsObject v = b.holdsObject w ∧
      (a.holdsObject v → ExtendsTo a b n (a.unparenthesized v) (b.unparenthesized w))

/-- Whether an override object in `b` adds keys to one in `a` and changes none. -/
def Extends (a : Arena) (object : Child) (b : Arena) (wider : Child) : Prop :=
  ∀ n, ExtendsTo a b n object wider

variable {a b : Arena}

theorem get?_overrideEntries (object : Child) (key : String) :
    (a.overrideEntries object).get? key = a.overrideAt? object key :=
  Entries.get?_ofList _ key

theorem overrideEntries_none : a.overrideEntries none = [] := rfl

theorem covers_none (path : List String) : a.covers none path = false := by
  cases path <;> rfl

/-- An entry at the end of a path covers it, whatever it is. -/
theorem covers_of_mentions {object : Child} {path : List String} (h : a.mentions object path) :
    a.covers object path := by
  induction path generalizing object with
  | nil => exact h
  | cons key rest ih =>
      unfold mentions at h
      unfold covers
      cases hv : a.overrideAt? object key with
      | none => simp [hv] at h
      | some v =>
          simp only [hv, Bool.or_eq_true, Bool.and_eq_true] at h ⊢
          rcases h with h | ⟨_, h⟩
          · exact Or.inl (Or.inr h)
          · exact Or.inr (ih h)

/-- An object with more keys covers more paths. -/
theorem ExtendsTo.covers {path : List String} : ∀ {n : Nat} {object wider : Child},
    path.length ≤ n → ExtendsTo a b n object wider → a.covers object path →
    b.covers wider path := by
  induction path with
  | nil =>
      intro n object wider _ _ h
      exact h
  | cons key rest ih =>
      intro n object wider hn hext h
      obtain ⟨n, rfl⟩ : ∃ k, n = k + 1 := ⟨n - 1, by simp at hn; omega⟩
      unfold Arena.covers at h ⊢
      cases hv : a.overrideAt? object key with
      | none => simp [hv] at h
      | some v =>
          obtain ⟨w, hw, hkind, hinner⟩ := hext key v hv
          simp only [hv, Bool.or_eq_true, Bool.not_eq_true'] at h
          simp only [hw, Bool.or_eq_true, Bool.not_eq_true', ← hkind]
          rcases h with (h | h) | h
          · exact Or.inl (Or.inl h)
          · exact Or.inl (Or.inr h)
          · cases ho : a.holdsObject v with
            | false => exact Or.inl (Or.inl rfl)
            | true => exact Or.inr (ih (by simpa using hn) (hinner ho) h)

end Arena

namespace Classified

/-- A leaf without a type: the keys that lead to it, what is wrong, and the node of its property. -/
structure Fault where
  path : List String
  violation : Violation
  node : NodeId
deriving DecidableEq, Repr

namespace Fault

def under (key : String) (f : Fault) : Fault := { f with path := key :: f.path }

def finding (f : Fault) : Finding := { violation := f.violation, node := some f.node }

@[simp] theorem under_path (key : String) (f : Fault) : (f.under key).path = key :: f.path := rfl

@[simp] theorem under_finding (key : String) (f : Fault) : (f.under key).finding = f.finding := rfl

end Fault

mutual

def entryFaults : Classified → (node : NodeId) → List Fault
  | .valid _, _ => []
  | .invalid v, node => [{ path := [], violation := v, node }]
  | .nested properties _, _ => faults properties

/-- The faults of a tree, a shape's faults in the place of its property. -/
def faults : List (String × DeclaredProperty Classified) → List Fault
  | [] => []
  | (key, p) :: rest => (entryFaults p.entry p.node).map (·.under key) ++ faults rest

end

variable {a : Arena}

/-- The faults of a tree that an override object does not cover. -/
def openFaults (a : Arena) (tree : ClassifiedTree) (object : Child) : List Fault :=
  (faults tree).filter fun f => !a.covers object f.path

theorem openFaults_none (tree : ClassifiedTree) : openFaults a tree none = faults tree := by
  simp [openFaults, Arena.covers_none]

theorem openFaults_cons (key : String) (p : DeclaredProperty Classified) (rest : ClassifiedTree)
    (object : Child) :
    openFaults a ((key, p) :: rest) object =
      ((entryFaults p.entry p.node).filter fun f => !a.covers object (key :: f.path)).map
          (·.under key) ++ openFaults a rest object := by
  simp [openFaults, faults, List.filter_append, List.filter_map, Function.comp_def]

theorem path_ne_nil : (tree : List (String × DeclaredProperty Classified)) → {f : Fault} →
    f ∈ faults tree → f.path ≠ []
  | (key, p) :: rest, f, hf => by
      rcases List.mem_append.mp hf with hf | hf
      · obtain ⟨g, _, rfl⟩ := List.mem_map.mp hf
        simp
      · exact path_ne_nil rest hf

mutual

/-- Under a value, an entry has the faults whose paths the value's key does not cover. -/
theorem uncovered_eq : (entry : Classified) → (node : NodeId) → (object : Child) →
    (key : String) →
    uncovered a entry node (a.overrideAt? object key) =
      ((entryFaults entry node).filter fun f => !a.covers object (key :: f.path)).map Fault.finding
  | .valid _, _, object, key => by
      cases a.overrideAt? object key <;> rfl
  | .invalid v, node, object, key => by
      cases hv : a.overrideAt? object key with
      | none => simp [uncovered, entryFaults, Arena.covers, hv, Fault.finding]
      | some w => simp [uncovered, entryFaults, Arena.covers, hv]
  | .nested properties _, node, object, key => by
      cases hv : a.overrideAt? object key with
      | none =>
          have h := uncoveredAll_eq properties none
          rw [Arena.overrideEntries_none, openFaults_none] at h
          simp [uncovered, entryFaults, Arena.covers, hv, h]
      | some v =>
          have h := uncoveredAll_eq properties (a.unparenthesized v)
          cases ho : a.holdsObject v with
          | false =>
              have ho' : a.isObjectLiteral (a.unparenthesized v) = false := ho
              simp [uncovered, entryFaults, Arena.covers, hv, ho, ho']
          | true =>
              have ho' : a.isObjectLiteral (a.unparenthesized v) = true := ho
              simp only [uncovered, ho', ↓reduceIte, h, openFaults, entryFaults]
              -- No fault of a shape lies at the shape's own key.
              congr 1
              apply List.filter_congr
              intro f hf
              have hpath : f.path.isEmpty = false := by
                simpa using path_ne_nil properties hf
              simp [Arena.covers, hv, ho, hpath]

theorem uncoveredAll_eq : (tree : List (String × DeclaredProperty Classified)) →
    (object : Child) →
    uncoveredAll a tree (a.overrideEntries object) = (openFaults a tree object).map Fault.finding
  | [], _ => rfl
  | (key, p) :: rest, object => by
      rw [openFaults_cons, uncoveredAll, uncoveredAll_eq rest object, Arena.get?_overrideEntries,
        uncovered_eq p.entry p.node object key]
      simp [Function.comp_def]

end

/-! ## Coverage is exact and grows with the overrides -/

/-- The faults that are reported are exactly those whose paths the overrides do not cover, in preorder.
A key that the overrides mention has no fault left, and more keys only leave fewer faults. -/
theorem uncoveredAll_exact (a : Arena) (tree : ClassifiedTree) (object : Child) :
    uncoveredAll a tree (a.overrideEntries object) =
        ((faults tree).filter fun f => !a.covers object f.path).map Fault.finding ∧
      (∀ f ∈ openFaults a tree object, a.mentions object f.path = false) ∧
      ∀ (b : Arena) (wider : Child), a.Extends object b wider →
        (uncoveredAll b tree (b.overrideEntries wider)).Sublist
          (uncoveredAll a tree (a.overrideEntries object)) := by
  refine ⟨uncoveredAll_eq tree object, ?_, ?_⟩
  · intro f hf
    have hcovers := (List.mem_filter.mp hf).2
    cases hm : a.mentions object f.path with
    | false => rfl
    | true => simp [Arena.covers_of_mentions hm] at hcovers
  · intro b wider hext
    rw [uncoveredAll_eq, uncoveredAll_eq]
    apply List.Sublist.map
    apply List.monotone_filter_right
    intro f hf
    cases hc : a.covers object f.path with
    | false => rfl
    | true => simp [(hext f.path.length).covers (Nat.le_refl _) hc] at hf

/-- A table with the override objects of `x: {y: B}` at node 6 and of `x: {y: B, z: B}, z: B` at
node 11. -/
def narrowAndWide : Arena where
  nodes := #[.identifier "x", .identifier "y", .identifier "B",
    .propertyAssignment 1 (some 2), .objectLiteral [3],
    .propertyAssignment 0 (some 4), .objectLiteral [5],
    .identifier "z", .propertyAssignment 7 (some 2), .objectLiteral [3, 8],
    .propertyAssignment 0 (some 9), .objectLiteral [10, 8]].map fun form =>
      { start := 0, stop := 0, form }

theorem narrowAndWide_extends : narrowAndWide.Extends (some 6) narrowAndWide (some 11) := by
  have houter : ∀ key v, narrowAndWide.overrideAt? (some 6) key = some v →
      key = "x" ∧ v = some 4 := by
    intro key v h
    have hentries : (narrowAndWide.literalElements (some 6)).filterMap
        narrowAndWide.overrideEntry? = [("x", some 4)] := by decide +kernel
    simpa [Arena.overrideAt?, hentries, Entries.get?_cons, eq_comm] using h
  have hinner : ∀ key v, narrowAndWide.overrideAt? (narrowAndWide.unparenthesized (some 4)) key =
      some v → key = "y" ∧ v = some 2 := by
    intro key v h
    rw [show narrowAndWide.unparenthesized (some 4) = some 4 by decide +kernel] at h
    have hentries : (narrowAndWide.literalElements (some 4)).filterMap
        narrowAndWide.overrideEntry? = [("y", some 2)] := by decide +kernel
    simpa [Arena.overrideAt?, hentries, Entries.get?_cons, eq_comm] using h
  intro n
  cases n with
  | zero => trivial
  | succ n =>
      intro key v h
      obtain ⟨rfl, rfl⟩ := houter key v h
      refine ⟨some 9, by decide +kernel, by decide +kernel, fun _ => ?_⟩
      cases n with
      | zero => trivial
      | succ n =>
          intro key v h
          obtain ⟨rfl, rfl⟩ := hinner key v h
          refine ⟨some 2, by decide +kernel, by decide +kernel, fun ho => ?_⟩
          exact absurd ho (by decide +kernel)

/-- A shape in an array and two faults beside the one that both objects cover. -/
def threeFaults : ClassifiedTree :=
  let property (node : NodeId) (entry : Classified) : DeclaredProperty Classified :=
    { node, required := false, entry }
  [("x", property 20 <| .nested
      [("y", property 21 (.invalid .object)), ("z", property 22 (.invalid .array))] 1),
   ("z", property 23 (.invalid .oneOfType))]

theorem uncoveredAll_narrowAndWide :
    narrowAndWide.Extends (some 6) narrowAndWide (some 11) ∧
      uncoveredAll narrowAndWide threeFaults (narrowAndWide.overrideEntries (some 6)) =
        [{ violation := .array, node := some 22 }, { violation := .oneOfType, node := some 23 }] ∧
      (uncoveredAll narrowAndWide threeFaults
        (narrowAndWide.overrideEntries (some 11))).Sublist
        (uncoveredAll narrowAndWide threeFaults (narrowAndWide.overrideEntries (some 6))) :=
  ⟨narrowAndWide_extends, by decide +kernel,
    (uncoveredAll_exact narrowAndWide threeFaults (some 6)).2.2 _ _ narrowAndWide_extends⟩

end Classified

end PropContract
