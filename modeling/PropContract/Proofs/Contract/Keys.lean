import PropContract.Contract.Override
import PropContract.Proofs.Contract.EnumValues
import PropContract.Proofs.Contract.Renumber.Classify

/-!
# The keys of an object

Those who read an object literal property by property see every name once, where it first comes. The keys and
values of an enumeration are those of all its elements, so both agree exactly where no name comes twice.
-/

namespace PropContract

namespace Entries

variable {α : Type} {entries pairs : List (String × α)}

/-- Of the values under one name the last one, in the order in which the names first come. -/
def lastValues (pairs : List (String × α)) : List α :=
  (keys pairs).eraseDups.filterMap (get? pairs.reverse)

theorem map_snd_of_nodup (h : (keys entries).Nodup) :
    entries.map Prod.snd = (keys entries).filterMap (get? entries) := by
  induction entries with
  | nil => rfl
  | cons e rest ih =>
      obtain ⟨k, v⟩ := e
      obtain ⟨hnot, hrest⟩ := List.nodup_cons.mp h
      have hget : ∀ key ∈ keys rest, get? ((k, v) :: rest) key = get? rest key := fun key hkey => by
        rw [get?_cons, if_neg]
        rintro rfl
        exact hnot hkey
      have hhead : get? ((k, v) :: rest) k = some v := by rw [get?_cons, if_pos rfl]
      change v :: rest.map Prod.snd = (k :: keys rest).filterMap (get? ((k, v) :: rest))
      rw [ih hrest, List.filterMap_cons_some hhead, List.filterMap_congr hget]

/-- The last values are those that stay when the pairs are put one after the other. -/
theorem lastValues_eq (pairs : List (String × α)) : lastValues pairs = (ofList pairs).map Prod.snd := by
  have hkeys := keys_ofList pairs
  have hnodup : (ofList pairs).keys.Nodup := by
    rw [hkeys]
    exact nodup_eraseDups _
  rw [map_snd_of_nodup hnodup, hkeys, lastValues]
  exact List.filterMap_congr fun key _ => (get?_ofList pairs key).symm

/-- All values are the last ones exactly where no name comes twice. -/
theorem map_snd_eq_lastValues_iff : pairs.map Prod.snd = lastValues pairs ↔ (keys pairs).Nodup := by
  rw [lastValues_eq]
  constructor
  · intro h
    have hlength : (keys pairs).eraseDups.length = (keys pairs).length := by
      have hvalues := congrArg List.length h
      rw [List.length_map, List.length_map] at hvalues
      rw [← keys_ofList, keys, keys, List.length_map, List.length_map, hvalues]
    exact (eraseDups_eq_self_iff _).mp ((eraseDups_sublist _).eq_of_length hlength)
  · intro h
    rw [ofList_of_nodup h]

end Entries

namespace Arena

variable {a : Arena} {r : Resolver} {argument source : Child} {id object : NodeId} {elements : List NodeId}
  {key method : String} {ks : List String} {pairs : List (String × EnumValue)}

/-! ## Elements with a name -/

/-- Whether an element gives a value to a name that is written out: an assignment, a name alone or a method. -/
inductive HasKey (a : Arena) : (element : NodeId) → (key : String) → Prop
  | assignment {element name : NodeId} {value : Child} {key : String}
      (h : a.form? (some element) = some (.propertyAssignment name value))
      (hkey : a.propertyNameText (some name) = some key) : HasKey a element key
  | shorthand {element name : NodeId} {key : String} (h : a.form? (some element) = some (.shorthandProperty name))
      (hkey : a.propertyNameText (some name) = some key) : HasKey a element key
  | method {element : NodeId} {name body : Child} {key : String}
      (h : a.form? (some element) = some (.methodDeclaration name body))
      (hkey : a.propertyNameText name = some key) : HasKey a element key

/-- Whether an element assigns a literal to a name. -/
inductive Assigns (a : Arena) : (element : NodeId) → String × EnumValue → Prop
  | mk {element name : NodeId} {value : Child} {key : String} {v : EnumValue}
      (h : a.form? (some element) = some (.propertyAssignment name value))
      (hkey : a.propertyNameText (some name) = some key) (hv : a.Says value v) : Assigns a element (key, v)

theorem HasKey.name (h : a.HasKey id key) : a.propertyNameText (a.memberName (some id)) = some key := by
  cases h with
  | assignment h hkey => rwa [memberName, h]
  | shorthand h hkey => rwa [memberName, h]
  | method h hkey => rwa [memberName, h]

theorem Assigns.hasKey {pair : String × EnumValue} (h : a.Assigns id pair) : a.HasKey id pair.1 := by
  obtain ⟨h, hkey, -⟩ := h
  exact .assignment h hkey

theorem HasKey.overrideEntry? (h : a.HasKey id key) : (a.overrideEntry? (some id)).map Prod.fst = some key := by
  rw [Arena.overrideEntry?, h.name]
  cases h with
  | assignment h _ => simp [h]
  | shorthand h _ => simp [h]
  | method h _ => simp [h]

theorem HasKey.ofElement (h : a.HasKey id key) (r : Resolver) (field : String) (reader : ShapeReader)
    (s : Expansion) : ((Classified.ofElement a r field reader id).run s).1.map Prod.fst = some key := by
  rw [Classified.ofElement, h.name]
  cases h with
  | assignment h _ =>
      simp only [h]
      rfl
  | shorthand h _ =>
      simp only [h]
      rfl
  | method h _ =>
      simp only [h]
      rfl

/-- What comes of elements with names, one for each. -/
theorem filterMap_eq_map {α β : Type} {R : NodeId → β → Prop} {f : Child → Option α} {g : β → α} {bs : List β}
    (hfg : ∀ id b, R id b → f (some id) = some (g b)) (h : List.Forall₂ R elements bs) :
    (elements.map some).filterMap f = bs.map g := by
  induction h with
  | nil => rfl
  | cons hkey _ ih => rw [List.map_cons, List.filterMap_cons_some (hfg _ _ hkey), ih, List.map_cons]

/-- The names that elements assign to are their names. -/
theorem keys_of_assigns (hkeys : List.Forall₂ a.HasKey elements ks) (hpairs : List.Forall₂ a.Assigns elements pairs) :
    Entries.keys pairs = ks := by
  induction hkeys generalizing pairs with
  | nil =>
      cases hpairs
      rfl
  | cons hkey _ ih =>
      cases hpairs with
      | cons hpair hrest =>
          have hname := hkey.name.symm.trans hpair.hasKey.name
          rw [Entries.keys, List.map_cons, ← Option.some.inj hname]
          exact congrArg _ (ih hrest)

/-! ## The readers of an object -/

section

variable (hobject : a.form? (some object) = some (.objectLiteral elements))

include hobject

theorem literalElements_of_object : a.literalElements (some object) = elements.map some := by
  rw [literalElements, hobject]

theorem objectKeys_eq (h : List.Forall₂ a.HasKey elements ks) : a.objectKeys object = ks.map .string := by
  rw [objectKeys, literalElements_of_object hobject]
  exact filterMap_eq_map (fun id key hkey => by rw [hkey.name, Option.map_some]) h

theorem objectValues_eq (hlinks : a.LinksEnd) (h : List.Forall₂ a.Assigns elements pairs) :
    a.objectValues object = pairs.map Prod.snd := by
  rw [objectValues, literalElements_of_object hobject]
  refine filterMap_eq_map (fun id pair hpair => ?_) h
  obtain ⟨hform, -, hv⟩ := hpair
  rw [hform]
  exact hlinks.literalValue_eq_some_iff.mpr hv

theorem keys_overrideEntries (h : List.Forall₂ a.HasKey elements ks) :
    (a.overrideEntries (some object)).keys = ks.eraseDups := by
  rw [overrideEntries, literalElements_of_object hobject, Entries.keys_ofList, Entries.keys, List.map_filterMap,
    filterMap_eq_map (fun id key hkey => hkey.overrideEntry?) h, List.map_id']

omit hobject in
theorem keys_ofElements (h : List.Forall₂ a.HasKey elements ks) (r : Resolver) (field : String)
    (reader : ShapeReader) (s : Expansion) :
    Entries.keys ((Classified.ofElements a r field reader elements).run s).1 = ks := by
  induction h generalizing s with
  | nil => rfl
  | @cons element key _ _ hkey _ ih =>
      obtain ⟨property, hproperty, rfl⟩ := Option.map_eq_some_iff.mp (hkey.ofElement r field reader s)
      rw [Classified.ofElements, Stateful.run_bind, Stateful.run_bind, Stateful.run_pure, hproperty, Entries.keys,
        List.map_append]
      exact congrArg _ (ih _)

theorem keys_ofObject (h : List.Forall₂ a.HasKey elements ks) (r : Resolver) (field : String)
    (reader : ShapeReader) (s : Expansion) :
    Entries.keys ((Classified.ofObject a r field reader object).run s).1 = ks.eraseDups := by
  rw [Classified.ofObject, hobject]
  dsimp only
  rw [Stateful.run_bind, Stateful.run_pure, Entries.keys_ofList, keys_ofElements h]

end

/-! ## Enumerations -/

/-- Whether an expression stands for an object literal: it is the literal, or a name of it. -/
inductive Denotes (a : Arena) (r : Resolver) : Child → NodeId → Prop
  | literal {e : Child} {object : NodeId} {elements : List NodeId} (h : a.unparenthesized e = some object)
      (hform : a.form? (some object) = some (.objectLiteral elements)) : Denotes a r e object
  | name {e : Child} {id object : NodeId} {name : String} (h : a.unparenthesized e = some id)
      (hform : a.form? (some id) = some (.identifier name)) (hname : r.resolve name = .objectLiteral object) :
      Denotes a r e object

/-- Whether an expression calls a function of `Object` on an object literal. -/
inductive CallsObject (a : Arena) (r : Resolver) (method : String) : Child → NodeId → Prop
  | mk {e callee source : Child} {call object : NodeId} {rest : List Child} {optional : Bool}
      (h : a.unparenthesized e = some call) (hform : a.form? (some call) = some (.call callee (source :: rest) optional))
      (hcallee : a.accessChain callee = some ["Object", method]) (hsource : a.Denotes r source object) :
      CallsObject a r method e object

theorem Denotes.enumOf (h : a.Denotes r source object) (values : NodeId → List EnumValue) :
    Classified.enumOf a r values source = .valid (.enum (values object)) := by
  cases h with
  | literal h hform => simp only [Classified.enumOf, h, hform]
  | name h hform hname => simp only [Classified.enumOf, h, hform, hname]

theorem CallsObject.ofOneOf (h : a.CallsObject r method argument object) {values : NodeId → List EnumValue}
    (hvalues : ∀ callee, a.accessChain callee = some ["Object", method] →
      Classified.valuesOf? a callee = some values) :
    Classified.ofOneOf a r argument = .valid (.enum (values object)) := by
  obtain ⟨h, hform, hcallee, hsource⟩ := h
  simp only [Classified.ofOneOf, h, hform]
  rw [Classified.ofObjectEnum_eq, hvalues _ hcallee]
  exact hsource.enumOf values

theorem CallsObject.keys (h : a.CallsObject r "keys" argument object) :
    Classified.ofOneOf a r argument = .valid (.enum (a.objectKeys object)) :=
  h.ofOneOf fun callee hcallee => by simp only [Classified.valuesOf?, hcallee]

theorem CallsObject.values (h : a.CallsObject r "values" argument object) :
    Classified.ofOneOf a r argument = .valid (.enum (a.objectValues object)) :=
  h.ofOneOf fun callee hcallee => by simp only [Classified.valuesOf?, hcallee]

end Arena

namespace Module

open Arena

theorem map_string_injective : Function.Injective (List.map EnumValue.string) :=
  List.map_injective_iff.mpr fun _ _ h => EnumValue.string.inj h

/-- Of an object whose elements all have names, an override and a shape have every name once, where it first
comes. The enumeration of its keys has a key for every element, and that of its values all the values: they
are the names, and the last value of each, exactly where no name comes twice. -/
theorem object_readers (fileName text : String) {object : NodeId} {elements : List NodeId} {ks : List String}
    (hobject : (Module.parse fileName text).arena.form? (some object) = some (.objectLiteral elements))
    (hkeys : List.Forall₂ (Module.parse fileName text).arena.HasKey elements ks) :
    let a := (Module.parse fileName text).arena
    (a.overrideEntries (some object)).keys = ks.eraseDups ∧
      (∀ r field reader s, Entries.keys ((Classified.ofObject a r field reader object).run s).1 = ks.eraseDups) ∧
      (∀ r argument, a.CallsObject r "keys" argument object →
        Classified.ofOneOf a r argument = .valid (.enum (ks.map .string)) ∧
        (Classified.ofOneOf a r argument = .valid (.enum (ks.eraseDups.map .string)) ↔ ks.Nodup)) ∧
      ∀ pairs, List.Forall₂ a.Assigns elements pairs → ∀ r argument, a.CallsObject r "values" argument object →
        Classified.ofOneOf a r argument = .valid (.enum (pairs.map Prod.snd)) ∧
        (Classified.ofOneOf a r argument = .valid (.enum (Entries.lastValues pairs)) ↔ ks.Nodup) := by
  have hlinks := (forest_arena fileName text).linksEnd
  generalize (Module.parse fileName text).arena = a at hobject hkeys hlinks ⊢
  refine ⟨keys_overrideEntries hobject hkeys, keys_ofObject hobject hkeys, fun r argument hcall => ?_,
    fun pairs hpairs r argument hcall => ?_⟩
  · rw [hcall.keys, objectKeys_eq hobject hkeys, ← Entries.eraseDups_eq_self_iff]
    simp only [Classified.valid.injEq, PropertyType.enum.injEq, true_and]
    exact (map_string_injective.eq_iff).trans eq_comm
  · rw [hcall.values, objectValues_eq hobject hlinks hpairs, ← keys_of_assigns hkeys hpairs,
      ← Entries.map_snd_eq_lastValues_iff]
    simp only [Classified.valid.injEq, PropertyType.enum.injEq, true_and]

/-- An object with a name that comes twice. -/
def repeated : Module :=
  .parse "A.js" "x = oneOf(Object.values(\x7ba: 'b', c: 'd', a: 'e'\x7d))"

theorem repeated_forms :
    repeated.arena.form? (some 14) = some (.objectLiteral [7, 10, 13]) ∧
    repeated.arena.form? (some 7) = some (.propertyAssignment 5 (some 6)) ∧
    repeated.arena.propertyNameText (some 5) = some "a" ∧
    repeated.arena.form? (some 6) = some (.literal .string "b") ∧
    repeated.arena.form? (some 10) = some (.propertyAssignment 8 (some 9)) ∧
    repeated.arena.propertyNameText (some 8) = some "c" ∧
    repeated.arena.form? (some 9) = some (.literal .string "d") ∧
    repeated.arena.form? (some 13) = some (.propertyAssignment 11 (some 12)) ∧
    repeated.arena.propertyNameText (some 11) = some "a" ∧
    repeated.arena.form? (some 12) = some (.literal .string "e") ∧
    repeated.arena.form? (some 15) = some (.call (some 4) [some 14] false) ∧
    repeated.arena.accessChain (some 4) = some ["Object", "values"] := by
  decide +kernel

theorem object_readers_repeated :
    repeated.arena.form? (some 14) = some (.objectLiteral [7, 10, 13]) ∧
      List.Forall₂ repeated.arena.HasKey [7, 10, 13] ["a", "c", "a"] ∧
      List.Forall₂ repeated.arena.Assigns [7, 10, 13]
        [("a", .string "b"), ("c", .string "d"), ("a", .string "e")] ∧
      (repeated.arena.overrideEntries (some 14)).keys = ["a", "c"] ∧
      ∀ r, repeated.arena.CallsObject r "values" (some 15) 14 ∧
        Classified.ofOneOf repeated.arena r (some 15) =
          .valid (.enum [.string "b", .string "d", .string "e"]) ∧
        Classified.ofOneOf repeated.arena r (some 15) ≠ .valid (.enum [.string "e", .string "d"]) := by
  obtain ⟨hobject, hfirst, hfirstName, hfirstValue, hsecond, hsecondName, hsecondValue, hthird, hthirdName,
    hthirdValue, hcall, hcallee⟩ := repeated_forms
  have hpairs : List.Forall₂ repeated.arena.Assigns [7, 10, 13]
      [("a", .string "b"), ("c", .string "d"), ("a", .string "e")] :=
    .cons (.mk hfirst hfirstName (.string hfirstValue)) <|
      .cons (.mk hsecond hsecondName (.string hsecondValue)) <|
        .cons (.mk hthird hthirdName (.string hthirdValue)) .nil
  have hkeys : List.Forall₂ repeated.arena.HasKey [7, 10, 13] ["a", "c", "a"] :=
    .cons (.assignment hfirst hfirstName) <| .cons (.assignment hsecond hsecondName) <|
      .cons (.assignment hthird hthirdName) .nil
  have hvalues (r : Resolver) : repeated.arena.CallsObject r "values" (some 15) 14 :=
    .mk (unparenthesized_of_form?_ne hcall nofun) hcall hcallee
      (.literal (unparenthesized_of_form?_ne hobject nofun) hobject)
  obtain ⟨hentries, -, -, henum⟩ :=
    object_readers "A.js" "x = oneOf(Object.values(\x7ba: 'b', c: 'd', a: 'e'\x7d))" hobject hkeys
  refine ⟨hobject, hkeys, hpairs, hentries, fun r => ⟨hvalues r, ?_⟩⟩
  obtain ⟨hall, hlast⟩ := henum _ hpairs r _ (hvalues r)
  exact ⟨hall, fun h => absurd (hlast.mp h) (by decide)⟩

/-- Without an error, the keys of an object are an enumeration with a name twice that an override of it has
once. -/
theorem keys_twice :
    let m := Module.parse "A.js" "x = oneOf(Object.keys(\x7ba: 1, a: 2\x7d))"
    m.errors = [] ∧ m.arena.form? (some 11) = some (.objectLiteral [7, 10]) ∧
      List.Forall₂ m.arena.HasKey [7, 10] ["a", "a"] ∧
      (m.arena.overrideEntries (some 11)).keys = ["a"] ∧
      ∀ r, m.arena.CallsObject r "keys" (some 12) 11 ∧
        Classified.ofOneOf m.arena r (some 12) = .valid (.enum [.string "a", .string "a"]) := by
  intro m
  obtain ⟨herrors, hobject, hfirst, hfirstName, hsecond, hsecondName, hcall, hcallee⟩ :
      m.errors = [] ∧ m.arena.form? (some 11) = some (.objectLiteral [7, 10]) ∧
        m.arena.form? (some 7) = some (.propertyAssignment 5 (some 6)) ∧
        m.arena.propertyNameText (some 5) = some "a" ∧
        m.arena.form? (some 10) = some (.propertyAssignment 8 (some 9)) ∧
        m.arena.propertyNameText (some 8) = some "a" ∧
        m.arena.form? (some 12) = some (.call (some 4) [some 11] false) ∧
        m.arena.accessChain (some 4) = some ["Object", "keys"] := by
    decide +kernel
  have hkeys : List.Forall₂ m.arena.HasKey [7, 10] ["a", "a"] :=
    .cons (.assignment hfirst hfirstName) <| .cons (.assignment hsecond hsecondName) .nil
  have hcalls (r : Resolver) : m.arena.CallsObject r "keys" (some 12) 11 :=
    .mk (unparenthesized_of_form?_ne hcall nofun) hcall hcallee
      (.literal (unparenthesized_of_form?_ne hobject nofun) hobject)
  refine ⟨herrors, hobject, hkeys, keys_overrideEntries hobject hkeys, fun r => ⟨hcalls r, ?_⟩⟩
  rw [(hcalls r).keys, objectKeys_eq hobject hkeys]
  rfl

end Module

end PropContract
