import PropContract.Proofs.Entries
import PropContract.Proofs.Stateful
import PropContract.Proofs.Tree.Renumber

/-!
# Declared types under other numbers

What the validators of a props object say depends neither on the numbers of its nodes nor on how many nodes there
are. Objects that refer to themselves are found by number, so different nodes must keep different numbers.
-/

namespace PropContract

variable {φ : NodeId → NodeId} {a b : Arena} {c e : Child} {form : Form} {n : Nat}

namespace Arena.Renumbers

variable (hab : Renumbers φ a b)

section

include hab

theorem literalValueIn (h : Copied φ a b c) : b.literalValueIn n (c.map φ) = a.literalValueIn n c := by
  induction n generalizing c with
  | zero => rfl
  | succ n ih =>
      obtain ⟨heq, hcopied⟩ := hab.unparenthesized h
      rw [Arena.literalValueIn, Arena.literalValueIn, heq, hcopied.form?]
      rcases hform : a.form? (a.unparenthesized c) with - | form
      · rfl
      · cases form
        case literal kind text => cases kind <;> rfl
        case constant word => cases word <;> rfl
        case prefixUnary operator operand =>
          have hoperand := ih (hcopied.child hform (List.mem_singleton_self operand))
          simp only [Option.map_some, Form.renumber]
          split <;> simp_all
        all_goals rfl

theorem literalValue (h : Copied φ a b c) : b.literalValue (c.map φ) = a.literalValue c := by
  rw [← hab.source.linksEnd.value _ _ (Nat.le_max_left a.size b.size),
    ← hab.target.linksEnd.value _ _ (Nat.le_max_right a.size b.size), hab.literalValueIn h]

theorem stripRequiredIn {required : Bool} (h : Copied φ a b c) :
    b.stripRequiredIn n (c.map φ) required =
        ((a.stripRequiredIn n c required).1.map φ, (a.stripRequiredIn n c required).2) ∧
      Copied φ a b (a.stripRequiredIn n c required).1 := by
  induction n generalizing c required with
  | zero => exact ⟨congrArg (·, required) (hab.unparenthesized h).1, (hab.unparenthesized h).2⟩
  | succ n ih =>
      obtain ⟨heq, hcopied⟩ := hab.unparenthesized h
      rw [Arena.stripRequiredIn, Arena.stripRequiredIn, heq, hcopied.form?]
      rcases hform : a.form? (a.unparenthesized c) with - | form
      · exact ⟨rfl, hcopied⟩
      · cases form
        case propertyAccess target name optional =>
          have hname := (hcopied.child hform (e := name) (by simp [Form.children])).identifierText
          simp only [Option.map_some, Form.renumber, hname]
          split
          · exact ih (hcopied.child hform (e := target) (by simp [Form.children]))
          · exact ⟨rfl, hcopied⟩
        all_goals exact ⟨rfl, hcopied⟩

theorem stripRequired (h : Copied φ a b c) :
    b.stripRequired (c.map φ) = ((a.stripRequired c).1.map φ, (a.stripRequired c).2) ∧
      Copied φ a b (a.stripRequired c).1 := by
  rw [← hab.source.linksEnd.required _ _ (Nat.le_max_left a.size b.size),
    ← hab.target.linksEnd.required _ _ (Nat.le_max_right a.size b.size)]
  exact hab.stripRequiredIn h

end

/-! ## Enumerations -/

theorem filterMap_literalElements {α : Type} {f g : Child → Option α} (h : Copied φ a b c)
    (hfg : ∀ e, Copied φ a b e → g (e.map φ) = f e) :
    (b.literalElements (c.map φ)).filterMap g = (a.literalElements c).filterMap f := by
  rw [h.literalElements.1, List.filterMap_map]
  exact List.filterMap_congr fun e he => hfg e (h.literalElements.2 e he)

variable {id : NodeId} (h : Copied φ a b (some id))

include h

theorem arrayValues (hab : Renumbers φ a b) : b.arrayValues (φ id) = a.arrayValues id :=
  filterMap_literalElements h fun _ => hab.literalValue

theorem objectKeys : b.objectKeys (φ id) = a.objectKeys id := by
  refine filterMap_literalElements h fun e he => ?_
  rw [he.memberName.1, he.memberName.2.propertyNameText]

theorem objectValues (hab : Renumbers φ a b) : b.objectValues (φ id) = a.objectValues id := by
  refine filterMap_literalElements h fun e he => ?_
  simp only [he.form?]
  rcases hform : a.form? e with - | form
  · rfl
  · cases form
    case propertyAssignment name value =>
      exact hab.literalValue (he.child hform (e := value) (by simp [Form.children]))
    all_goals rfl

end Arena.Renumbers

/-! ## Resolvers -/

def Reference.renumber (φ : NodeId → NodeId) : Reference → Reference
  | .objectLiteral id => .objectLiteral (φ id)
  | .arrayLiteral id => .arrayLiteral (φ id)
  | .imported module => .imported module
  | .unresolved => .unresolved

/-- Whether names lead to the same trees in both tables. -/
structure Resolver.Renumbers (φ : NodeId → NodeId) (a b : Arena) (r r' : Resolver) : Prop where
  resolve : ∀ name, r'.resolve name = (r.resolve name).renumber φ
  object : ∀ name id, r.resolve name = .objectLiteral id → Arena.Copied φ a b (some id)
  array : ∀ name id, r.resolve name = .arrayLiteral id → Arena.Copied φ a b (some id)
  validators : r'.isValidatorNamespace = r.isValidatorNamespace

/-! ## Classified trees -/

namespace Classified

mutual

def renumber (φ : NodeId → NodeId) : Classified → Classified
  | .valid type => .valid type
  | .invalid violation => .invalid violation
  | .nested properties arrays => .nested (renumberAll φ properties) arrays

def renumberAll (φ : NodeId → NodeId) :
    List (String × DeclaredProperty Classified) → List (String × DeclaredProperty Classified)
  | [] => []
  | (key, p) :: rest =>
    (key, { p with node := φ p.node, entry := p.entry.renumber φ }) :: renumberAll φ rest

end

def renumberProperty (φ : NodeId → NodeId) (p : DeclaredProperty Classified) : DeclaredProperty Classified :=
  { p with node := φ p.node, entry := p.entry.renumber φ }

theorem renumberAll_eq_map (properties : List (String × DeclaredProperty Classified)) :
    renumberAll φ properties = properties.map fun (key, p) => (key, renumberProperty φ p) := by
  induction properties with
  | nil => rfl
  | cons property rest ih => exact congrArg _ ih

theorem renumber_inArray (entry : Classified) : entry.inArray.renumber φ = (entry.renumber φ).inArray := by
  cases entry <;> rfl

end Classified

/-- An expansion whose objects have other numbers. -/
def Expansion.renumber (φ : NodeId → NodeId) (s : Expansion) : Expansion :=
  { s with active := s.active.map φ, cyclic := s.cyclic.map φ }

/-- Whether a program does under other numbers what `m` does, with a result that `f` renumbers. -/
def Follows {α β : Type} (φ : NodeId → NodeId) (f : α → β) (m : Classifier α) (m' : Classifier β) : Prop :=
  ∀ s : Expansion, m'.run (s.renumber φ) = (f (m.run s).1, (m.run s).2.renumber φ)

namespace Follows

variable {α β γ δ : Type} {f : α → β} {g : γ → δ}

theorem pure {x : α} {y : β} (h : y = f x) : Follows φ f (Pure.pure x) (Pure.pure y) := fun s => by
  rw [h]
  rfl

theorem bind {m : Classifier α} {m' : Classifier β} {k : α → Classifier γ} {k' : β → Classifier δ}
    (h : Follows φ f m m') (hk : ∀ x, Follows φ g (k x) (k' (f x))) : Follows φ g (m >>= k) (m' >>= k') := fun s => by
  rw [Stateful.run_bind, Stateful.run_bind, h s]
  exact hk _ _

theorem get : Follows φ (Expansion.renumber φ) (get : Classifier Expansion) get := fun _ => rfl

theorem update {change change' : Expansion → Expansion}
    (h : ∀ s : Expansion, change' (s.renumber φ) = (change s).renumber φ) :
    Follows φ id (modify change : Classifier PUnit) (modify change') :=
  fun s => congrArg (PUnit.unit, ·) (h s)

end Follows

theorem contains_map (hφ : Function.Injective φ) (ids : List NodeId) (id : NodeId) :
    (ids.map φ).contains (φ id) = ids.contains id := by
  rw [Bool.eq_iff_iff, List.contains_iff_mem, List.contains_iff_mem, List.mem_map_of_injective hφ]

theorem insert_map (hφ : Function.Injective φ) (ids : List NodeId) (id : NodeId) :
    (ids.map φ).insert (φ id) = (ids.insert id).map φ := by
  rw [List.insert, List.insert, contains_map hφ]
  split <;> rfl

namespace Classified

open Arena (Copied Renumbers)

/-! ## Validators -/

theorem firstArgument_map (arguments : List Child) :
    firstArgument (arguments.map (·.map φ)) = (firstArgument arguments).map φ := by
  cases arguments <;> rfl

theorem copied_firstArgument {arguments : List Child} (h : ∀ e ∈ arguments, Copied φ a b e) :
    Copied φ a b (firstArgument arguments) := by
  cases arguments with
  | nil => exact .missing
  | cons first rest => exact h first List.mem_cons_self

/-- The enumeration of the values that `values` reads off an object. -/
def enumOf (a : Arena) (r : Resolver) (values : NodeId → List EnumValue) (argument : Child) : Classified :=
  match a.unparenthesized argument with
  | none => .invalid .missingReference
  | some id =>
    match a.form? id with
    | some (.objectLiteral _) => .valid (.enum (values id))
    | some (.identifier name) =>
      match r.resolve name with
      | .objectLiteral object => .valid (.enum (values object))
      | .imported _ => .invalid .importedObject
      | .arrayLiteral _ => .invalid .illegalReference
      | .unresolved => .invalid .missingReference
    | _ => .invalid .missingReference

/-- What a function of objects gives of each. -/
def valuesOf? (a : Arena) (callee : Child) : Option (NodeId → List EnumValue) :=
  match a.accessChain callee with
  | some ["Object", "keys"] => some a.objectKeys
  | some ["Object", "values"] => some a.objectValues
  | _ => none

theorem ofObjectEnum_eq (a : Arena) (r : Resolver) (callee : Child) (arguments : List Child) :
    ofObjectEnum a r callee arguments =
      match valuesOf? a callee with
      | none => .invalid .illegalCall
      | some values => enumOf a r values (firstArgument arguments) := rfl

section

variable {r r' : Resolver} (hab : Renumbers φ a b) (hr : r.Renumbers φ a b r')

include hab hr

theorem validatorName?_copied (h : Copied φ a b c) : validatorName? b r' (c.map φ) = validatorName? a r c := by
  rw [validatorName?, validatorName?, hab.accessChain h, hr.validators]

theorem ofMember_copied (h : Copied φ a b c) : ofMember b r' (c.map φ) = (ofMember a r c).renumber φ := by
  rw [ofMember, ofMember, validatorName?_copied hab hr h]
  repeat' split
  all_goals rfl

theorem enumOf_copied {values values' : NodeId → List EnumValue}
    (hvalues : ∀ id, Copied φ a b (some id) → values' (φ id) = values id) (h : Copied φ a b c) :
    enumOf b r' values' (c.map φ) = (enumOf a r values c).renumber φ := by
  obtain ⟨heq, hcopied⟩ := hab.unparenthesized h
  rw [enumOf, enumOf, heq]
  rcases hobject : a.unparenthesized c with - | id
  · rfl
  · rw [hobject] at hcopied
    simp only [Option.map_some]
    rw [hcopied.form?_some]
    rcases a.form? (some id) with - | form
    · rfl
    · cases form
      case objectLiteral => simp only [Option.map_some, Form.renumber, hvalues id hcopied, renumber]
      case identifier name =>
        simp only [Option.map_some, Form.renumber, hr.resolve]
        rcases hresolve : r.resolve name with object | array | module | -
        · simp only [Reference.renumber, hvalues object (hr.object name object hresolve), renumber]
        all_goals rfl
      all_goals rfl

omit hr in
theorem valuesOf?_copied (h : Copied φ a b c) :
    valuesOf? a c = none ∧ valuesOf? b (c.map φ) = none ∨
      ∃ values values', valuesOf? a c = some values ∧ valuesOf? b (c.map φ) = some values' ∧
        ∀ id, Copied φ a b (some id) → values' (φ id) = values id := by
  rw [valuesOf?, valuesOf?, hab.accessChain h]
  split
  · exact .inr ⟨_, _, rfl, rfl, fun _ => Renumbers.objectKeys⟩
  · exact .inr ⟨_, _, rfl, rfl, fun _ h => Renumbers.objectValues h hab⟩
  · exact .inl ⟨rfl, rfl⟩

theorem ofObjectEnum_copied (h : Copied φ a b c) {arguments : List Child}
    (harguments : ∀ e ∈ arguments, Copied φ a b e) :
    ofObjectEnum b r' (c.map φ) (arguments.map (·.map φ)) = (ofObjectEnum a r c arguments).renumber φ := by
  rw [ofObjectEnum_eq, ofObjectEnum_eq, firstArgument_map]
  obtain ⟨hnone, hnone'⟩ | ⟨values, values', hvalues, hvalues', heq⟩ := valuesOf?_copied hab h
  · rw [hnone, hnone']
    rfl
  · rw [hvalues, hvalues']
    exact enumOf_copied hab hr heq (copied_firstArgument harguments)

theorem ofOneOf_copied (h : Copied φ a b c) : ofOneOf b r' (c.map φ) = (ofOneOf a r c).renumber φ := by
  obtain ⟨heq, hcopied⟩ := hab.unparenthesized h
  rw [ofOneOf, ofOneOf, heq]
  rcases hargument : a.unparenthesized c with - | id
  · rfl
  · rw [hargument] at hcopied
    simp only [Option.map_some]
    rw [hcopied.form?_some]
    rcases hid : a.form? (some id) with - | form
    · rfl
    · cases form
      case arrayLiteral => simp only [Option.map_some, Form.renumber, Renumbers.arrayValues hcopied hab, renumber]
      case identifier name =>
        simp only [Option.map_some, Form.renumber, hr.resolve]
        rcases hresolve : r.resolve name with object | array | module | -
        case arrayLiteral =>
          simp only [Reference.renumber, Renumbers.arrayValues (hr.array name array hresolve) hab, renumber]
        all_goals rfl
      case call callee arguments optional =>
        exact ofObjectEnum_copied hab hr (hcopied.child hid (by simp [Form.children]))
          fun e he => hcopied.child hid (List.mem_cons_of_mem _ he)
      all_goals rfl

end

/-! ## Shapes -/

/-- Whether a reader follows another on objects that stand in both tables. -/
structure ReadsAlike (φ : NodeId → NodeId) (a b : Arena) (reader reader' : ShapeReader) : Prop where
  inPlace : ∀ id, Copied φ a b (some id) → Follows φ (renumber φ) (reader.inPlace id) (reader'.inPlace (φ id))
  named : ∀ id, Copied φ a b (some id) → Follows φ (renumber φ) (reader.named id) (reader'.named (φ id))

theorem follows_ofReference (hφ : Function.Injective φ) {shape shape' : NodeId → Classifier Classified} {id : NodeId}
    (h : Follows φ (renumber φ) (shape id) (shape' (φ id))) :
    Follows φ (renumber φ) (ofReference shape id) (ofReference shape' (φ id)) := by
  refine .bind .get fun s => ?_
  dsimp only [Expansion.renumber]
  rw [contains_map hφ]
  split
  · refine .bind (.update fun s => ?_) fun _ => .pure rfl
    rw [Expansion.renumber, Expansion.renumber, insert_map hφ]
  · refine .bind (.update fun s => rfl) fun _ => .bind h fun result => ?_
    refine .bind (.update fun s => ?_) fun _ => .bind .get fun s => ?_
    · rw [Expansion.renumber, Expansion.renumber, List.map_erase hφ]
    · dsimp only [Expansion.renumber]
      rw [contains_map hφ]
      split
      · refine .bind (.update fun s => ?_) fun _ => .pure rfl
        rw [Expansion.renumber, Expansion.renumber, List.map_erase hφ]
      · exact .pure rfl

section

variable {r r' : Resolver} (hab : Renumbers φ a b) (hr : r.Renumbers φ a b r') (field : String)
  {reader reader' : ShapeReader} (hreader : ReadsAlike φ a b reader reader')

include hab hr hreader

theorem follows_ofShape (h : Copied φ a b c) :
    Follows φ (renumber φ) (ofShape a r field reader c) (ofShape b r' field reader' (c.map φ)) := by
  obtain ⟨heq, hcopied⟩ := hab.unparenthesized h
  rw [ofShape, ofShape, heq]
  rcases hargument : a.unparenthesized c with - | id
  · exact .pure rfl
  · rw [hargument] at hcopied
    have hform := hcopied.form?
    have hchain := hab.accessChain hcopied
    simp only [Option.map_some] at hform hchain ⊢
    rw [hform, hchain]
    rcases a.form? (some id) with - | form
    · exact .pure rfl
    · cases form
      case objectLiteral => exact hreader.inPlace id hcopied
      case propertyAccess =>
        simp only [Option.map_some, Form.renumber]
        repeat' split
        all_goals exact .pure rfl
      case identifier name =>
        simp only [Option.map_some, Form.renumber, hr.resolve]
        rcases hresolve : r.resolve name with object | array | module | -
        · exact hreader.named object (hr.object name object hresolve)
        all_goals exact .pure rfl
      all_goals exact .pure rfl

omit hab hr hreader in
theorem follows_ofArrayOf {value value' : Child → Classifier (Classified × Bool)}
    (hvalue : Follows φ (Prod.map (renumber φ) id) (value c) (value' (c.map φ))) :
    Follows φ (renumber φ) (ofArrayOf value c) (ofArrayOf value' (c.map φ)) := by
  rw [ofArrayOf, ofArrayOf, Option.isNone_map]
  split
  · exact .pure rfl
  · exact .bind hvalue fun element => .pure (renumber_inArray element.1).symm

theorem follows_ofCall {value value' : Child → Classifier (Classified × Bool)}
    (hvalue : ∀ e, Copied φ a b e → Follows φ (Prod.map (renumber φ) id) (value e) (value' (e.map φ)))
    (h : Copied φ a b c) {arguments : List Child} (harguments : ∀ e ∈ arguments, Copied φ a b e) :
    Follows φ (renumber φ) (ofCall a r field reader value c arguments)
      (ofCall b r' field reader' value' (c.map φ) (arguments.map (·.map φ))) := by
  have hargument := copied_firstArgument harguments
  rw [ofCall, ofCall, validatorName?_copied hab hr h, firstArgument_map]
  split
  · exact .pure rfl
  · exact follows_ofArrayOf (hvalue _ hargument)
  · exact .pure (ofOneOf_copied hab hr hargument)
  · exact follows_ofShape hab hr field hreader hargument
  · exact follows_ofShape hab hr field hreader hargument
  · exact .pure rfl

theorem follows_ofLeaf {value value' : Child → Classifier (Classified × Bool)}
    (hvalue : ∀ e, Copied φ a b e → Follows φ (Prod.map (renumber φ) id) (value e) (value' (e.map φ)))
    (h : Copied φ a b c) :
    Follows φ (renumber φ) (ofLeaf a r field reader value c) (ofLeaf b r' field reader' value' (c.map φ)) := by
  rw [ofLeaf, ofLeaf, h.form?]
  rcases hform : a.form? c with - | form
  · exact .pure rfl
  · cases form
    case propertyAccess => exact .pure (ofMember_copied hab hr h)
    case elementAccess => exact .pure (ofMember_copied hab hr h)
    case call callee arguments optional =>
      exact follows_ofCall hab hr field hreader hvalue (h.child hform (by simp [Form.children]))
        fun e he => h.child hform (List.mem_cons_of_mem _ he)
    all_goals exact .pure rfl

theorem follows_ofValueIn (h : Copied φ a b c) :
    Follows φ (Prod.map (renumber φ) id) (ofValueIn a r field reader n c)
      (ofValueIn b r' field reader' n (c.map φ)) := by
  induction n generalizing c with
  | zero => exact .pure rfl
  | succ n ih =>
      obtain ⟨heq, hcopied⟩ := hab.stripRequired h
      rw [ofValueIn, ofValueIn, heq]
      exact .bind (follows_ofLeaf hab hr field hreader (fun _ => ih) hcopied) fun _ => .pure rfl

end

section

variable (r : Resolver) (field : String) (reader : ShapeReader) {m : Nat}

theorem ofLeaf_congr {value value' : Child → Classifier (Classified × Bool)}
    (h : ∀ form, a.form? c = some form → ∀ e ∈ form.children, value e = value' e)
    (hnone : value none = value' none) :
    ofLeaf a r field reader value c = ofLeaf a r field reader value' c := by
  rw [ofLeaf, ofLeaf]
  split
  case h_3 callee arguments optional hform =>
    have hargument : value (firstArgument arguments) = value' (firstArgument arguments) := by
      cases arguments with
      | nil => exact hnone
      | cons first rest => exact h _ hform first (by simp [Form.children])
    rw [ofCall, ofCall, ofArrayOf, ofArrayOf, hargument]
  all_goals rfl

/-- A value that is missing is no validator. -/
theorem ofValueIn_of_reach (h : a.Forest) (hc : a.reach c = 0) :
    ofValueIn a r field reader n c = pure (.invalid .illegalIdentifier, false) := by
  cases n with
  | zero => rfl
  | succ n =>
      have hreach := Nat.le_zero.mp (hc ▸ h.reach_unparenthesized c)
      have hform := Arena.form?_of_reach hreach
      have hstrip : a.stripRequired c = (a.unparenthesized c, false) := by
        rw [Arena.stripRequired, Arena.stripRequiredIn, hform]
      have hleaf : ofLeaf a r field reader (ofValueIn a r field reader n) (a.unparenthesized c) =
          pure (.invalid .illegalIdentifier) := by
        rw [ofLeaf, hform]
      rw [ofValueIn, hstrip]
      dsimp only
      rw [hleaf]
      rfl

theorem ofValueIn_eq (h : a.Forest) (hn : a.reach c ≤ n) (hm : a.reach c ≤ m) :
    ofValueIn a r field reader n c = ofValueIn a r field reader m c := by
  induction n generalizing c m with
  | zero =>
      have hc := Nat.le_zero.mp hn
      rw [ofValueIn_of_reach r field reader h hc, ofValueIn_of_reach r field reader h hc]
  | succ n ih =>
      cases m with
      | zero =>
          have hc := Nat.le_zero.mp hm
          rw [ofValueIn_of_reach r field reader h hc, ofValueIn_of_reach r field reader h hc]
      | succ m =>
          have hle := h.reach_stripRequired c
          have hleaf := ofLeaf_congr (c := (a.stripRequired c).1) r field reader
            (fun form hform e he => by
              have hlt := h.reach_lt hform he
              exact ih (m := m) (by omega) (by omega))
            (ih (m := m) (c := none) (Nat.zero_le _) (Nat.zero_le _))
          rw [ofValueIn, ofValueIn]
          dsimp only
          rw [hleaf]

end

section

variable {r r' : Resolver} (hab : Renumbers φ a b) (hr : r.Renumbers φ a b r') (field : String)

section

variable {reader reader' : ShapeReader} (hreader : ReadsAlike φ a b reader reader')

include hab hr hreader

theorem follows_ofValue (h : Copied φ a b c) :
    Follows φ (Prod.map (renumber φ) id) (ofValue a r field reader c) (ofValue b r' field reader' (c.map φ)) := by
  have hfollows := follows_ofValueIn (n := max a.size b.size + 1) hab hr field hreader h
  have hreach := a.reach_le c
  have hreach' := b.reach_le (c.map φ)
  rwa [ofValueIn_eq (m := a.size + 1) r field reader hab.source (by omega) (by omega),
    ofValueIn_eq (m := b.size + 1) r' field reader' hab.target (by omega) (by omega)] at hfollows

theorem follows_ofElement {id : NodeId} (h : Copied φ a b (some id)) :
    Follows φ (Option.map fun (key, p) => (key, renumberProperty φ p)) (ofElement a r field reader id)
      (ofElement b r' field reader' (φ id)) := by
  obtain ⟨hname, hcopied⟩ := h.memberName
  have hkey := hcopied.propertyNameText
  have hform := h.form?
  rw [← hname] at hkey
  simp only [Option.map_some] at hkey hform
  rw [ofElement, ofElement, hkey, hform]
  split
  · exact .pure rfl
  · rcases hid : a.form? (some id) with - | form
    · exact .pure rfl
    · cases form
      case propertyAssignment name value =>
        refine .bind (follows_ofValue hab hr field hreader (h.child hid (e := value) (by simp [Form.children])))
          fun _ => .pure rfl
      all_goals exact .pure rfl

theorem follows_ofElements {ids : List NodeId} (h : ∀ id ∈ ids, Copied φ a b (some id)) :
    Follows φ (renumberAll φ) (ofElements a r field reader ids) (ofElements b r' field reader' (ids.map φ)) := by
  induction ids with
  | nil => exact .pure rfl
  | cons id ids ih =>
      obtain ⟨hid, hids⟩ := List.forall_mem_cons.mp h
      refine .bind (follows_ofElement hab hr field hreader hid) fun property => .bind (ih hids) fun rest => .pure ?_
      rw [renumberAll_eq_map, renumberAll_eq_map, List.map_append, Option.toList_map]

theorem follows_ofObject {id : NodeId} (h : Copied φ a b (some id)) :
    Follows φ (renumberAll φ) (ofObject a r field reader id) (ofObject b r' field reader' (φ id)) := by
  rw [ofObject, ofObject, h.form?_some]
  rcases hid : a.form? (some id) with - | form
  · exact .pure rfl
  · cases form
    case objectLiteral elements =>
      refine .bind (follows_ofElements hab hr field hreader fun e he => h.child hid (List.mem_map_of_mem he))
        fun properties => .pure ?_
      rw [renumberAll_eq_map, renumberAll_eq_map, Entries.ofList_map]
    all_goals exact .pure rfl

end

include hab hr

theorem follows_ofShapeObject (level : Nat) {id : NodeId} (h : Copied φ a b (some id)) :
    Follows φ (renumber φ) (ofShapeObject a r field level id) (ofShapeObject b r' field level (φ id)) := by
  induction level generalizing id with
  | zero => exact .bind (.update fun _ => rfl) fun _ => .pure rfl
  | succ level ih =>
      have hreader : ReadsAlike φ a b (watching (ofShapeObject a r field level))
          (watching (ofShapeObject b r' field level)) :=
        ⟨fun _ h => ih h, fun _ h => follows_ofReference hab.injective (ih h)⟩
      refine .bind .get fun s => ?_
      dsimp only [Expansion.renumber]
      split
      · exact .bind (.update fun _ => rfl) fun _ => .pure rfl
      · exact .bind (.update fun _ => rfl) fun _ => .bind (follows_ofObject hab hr field hreader h) fun _ => .pure rfl

theorem classify_copied (h : Copied φ a b c) :
    classify b r' field (c.map φ) = renumberAll φ (classify a r field c) := by
  obtain ⟨heq, hcopied⟩ := hab.unparenthesized h
  rw [classify, classify, classification, classification, heq]
  rcases hobject : a.unparenthesized c with - | id
  · rfl
  · rw [hobject] at hcopied
    have hreader : ReadsAlike φ a b (watching (ofShapeObject a r field maxShapeDepth))
        (watching (ofShapeObject b r' field maxShapeDepth)) :=
      ⟨fun _ h => follows_ofShapeObject hab hr field _ h,
        fun _ h => follows_ofReference hab.injective (follows_ofShapeObject hab hr field _ h)⟩
    exact congrArg Prod.fst (follows_ofObject hab hr field hreader hcopied {})

end

end Classified

end PropContract
