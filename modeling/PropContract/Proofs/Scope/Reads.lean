import Mathlib.Data.List.Induction
import PropContract.Proofs.Entries
import PropContract.Proofs.Scope.Order
import PropContract.Scope.Basic

/-!
# What a scope says

The scope of a module is what its declarations and exports say: a name stands where it first came, with
the node and value of its first declaration and the flags of all of them.
-/

namespace PropContract

/-- The flags that one of several declarations has. -/
def SymbolFlags.unions (fs : List SymbolFlags) : SymbolFlags where
  isVariable := fs.any (·.isVariable)
  isClass := fs.any (·.isClass)
  isFunction := fs.any (·.isFunction)
  isImport := fs.any (·.isImport)
  isExported := fs.any (·.isExported)
  isConst := fs.any (·.isConst)

theorem SymbolFlags.unions_singleton (f : SymbolFlags) : unions [f] = f := by
  simp [unions]

theorem SymbolFlags.unions_concat (fs : List SymbolFlags) (f : SymbolFlags) :
    unions (fs ++ [f]) = (unions fs).union f := by
  simp [unions, union]

namespace Scope

open Entries (eraseDups_concat nodup_eraseDups)

variable {s : Symbol} {d : Declaration} {ds : List Declaration} {symbols : List Symbol} {key : String}

/-! ## One name -/

/-- The declarations of one name among others. -/
def declarationsOf (key : String) (ds : List Declaration) : List Declaration :=
  ds.filter (·.name == key)

/-- Whether an import says which module it is from. -/
def Sourced (d : Declaration) : Prop :=
  ∀ source, d.source = some source → source.module?.isSome

/-- Whether a symbol is the first of some declarations, with the flags of all and the source of the
first import. -/
structure Sums (ds : List Declaration) (s : Symbol) : Prop where
  first : ∃ d, ds.head? = some d ∧ s.name = d.name ∧ s.node = d.node ∧ s.initializer = d.initializer
  flags : s.flags = .unions (ds.map (·.flags))
  source : s.source = ds.findSome? (·.source)

theorem sums_singleton (d : Declaration) : Sums [d] d where
  first := ⟨d, rfl, rfl, rfl, rfl⟩
  flags := (SymbolFlags.unions_singleton d.flags).symm
  source := by simp [List.findSome?_cons]; cases d.source <;> rfl

/-- One more declaration of the name. -/
theorem Sums.merge (h : Sums ds s) (hds : ∀ d ∈ ds, Sourced d) : Sums (ds ++ [d]) (merge s d) where
  first := by
    obtain ⟨first, hfirst, hrest⟩ := h.first
    exact ⟨first, by rw [List.head?_append, hfirst]; rfl, hrest⟩
  flags := by
    rw [List.map_append, List.map_singleton, SymbolFlags.unions_concat, ← h.flags]
    rfl
  source := by
    have hd : [d].findSome? (·.source) = d.source := (sums_singleton d).source.symm
    rw [List.findSome?_append, hd, ← h.source, Scope.merge]
    cases hsource : s.source with
    | none => simp
    | some source =>
        obtain ⟨d', hd', heq⟩ := List.exists_of_findSome?_eq_some (h.source.symm.trans hsource)
        have hsome : source.module?.isSome := hds d' hd' source heq
        simp [hsome]

/-! ## One declaration -/

theorem names_declare (symbols : List Symbol) (d : Declaration) :
    (declare symbols d).map (·.name) =
      if d.name ∈ symbols.map (·.name) then symbols.map (·.name) else symbols.map (·.name) ++ [d.name] := by
  induction symbols with
  | nil => rfl
  | cons s symbols ih =>
      rw [declare]
      by_cases hname : s.name = d.name
      · simp [hname, merge]
      · rw [if_neg hname, List.map_cons, ih]
        rw [List.map_cons]
        by_cases hmem : d.name ∈ symbols.map (·.name)
        · rw [if_pos hmem, if_pos (List.mem_cons_of_mem _ hmem)]
        · have hnot : d.name ∉ s.name :: symbols.map (·.name) :=
            List.not_mem_cons_of_ne_of_not_mem (Ne.symm hname) hmem
          rw [if_neg hmem, if_neg hnot, List.cons_append]

theorem find?_declare (symbols : List Symbol) (d : Declaration) (key : String) :
    (declare symbols d).find? (·.name == key) =
      if d.name = key then some ((symbols.find? (·.name == key)).elim d (merge · d))
      else symbols.find? (·.name == key) := by
  induction symbols with
  | nil =>
      by_cases hkey : d.name = key <;> simp [declare, hkey]
  | cons s symbols ih =>
      rw [declare]
      by_cases hname : s.name = d.name
      · rw [if_pos hname]
        by_cases hkey : d.name = key
        · simp [merge, hname, hkey]
        · simp [merge, hname, hkey]
      · rw [if_neg hname, List.find?_cons, List.find?_cons, ih]
        by_cases hkey : s.name = key
        · have hne : d.name ≠ key := fun h => hname (hkey.trans h.symm)
          simp only [hkey, beq_self_eq_true, if_neg hne]
        · simp only [beq_false_of_ne hkey]

/-! ## All declarations -/

/-- Whether symbols are what declarations say: every name once, where it first came, and for each name
the sum of its declarations. -/
structure Collects (ds : List Declaration) (symbols : List Symbol) : Prop where
  names : symbols.map (·.name) = (ds.map (·.name)).eraseDups
  found : ∀ key s, symbols.find? (·.name == key) = some s → Sums (declarationsOf key ds) s

theorem declarationsOf_concat (key : String) (ds : List Declaration) (d : Declaration) :
    declarationsOf key (ds ++ [d]) = declarationsOf key ds ++ if d.name = key then [d] else [] := by
  by_cases hkey : d.name = key <;> simp [declarationsOf, hkey]

/-- Where no name comes twice, a symbol is found under its name. -/
theorem find?_name (hnodup : (symbols.map (·.name)).Nodup) (hs : s ∈ symbols) :
    symbols.find? (·.name == s.name) = some s := by
  induction symbols with
  | nil => exact nomatch hs
  | cons s' symbols ih =>
      obtain ⟨hnot, hnodup⟩ := List.nodup_cons.mp hnodup
      rcases List.mem_cons.mp hs with rfl | hs
      · simp
      · have hne : s'.name ≠ s.name := fun heq => hnot (List.mem_map.mpr ⟨s, hs, heq.symm⟩)
        rw [List.find?_cons, beq_false_of_ne hne]
        exact ih hnodup hs

/-- A name without declarations is not found, and the other way round. -/
theorem Collects.find?_eq_none (h : Collects ds symbols) (hnone : symbols.find? (·.name == key) = none) :
    declarationsOf key ds = [] := by
  rw [declarationsOf, List.filter_eq_nil_iff]
  intro d hd hkey
  have hmem : d.name ∈ symbols.map (·.name) := by
    rw [h.names, List.mem_eraseDups]
    exact List.mem_map_of_mem hd
  obtain ⟨s, hs, hname⟩ := List.mem_map.mp hmem
  exact List.find?_eq_none.mp hnone s hs (by rw [hname]; exact hkey)

/-- One more declaration, of a new name or of one that is there. -/
theorem Collects.declare (h : Collects ds symbols) (hds : ∀ d ∈ ds, Sourced d) (d : Declaration) :
    Collects (ds ++ [d]) (declare symbols d) where
  names := by
    rw [names_declare, List.map_append, List.map_singleton, eraseDups_concat, h.names]
    simp only [List.mem_eraseDups]
  found key s hs := by
    rw [find?_declare] at hs
    rw [declarationsOf_concat]
    by_cases hkey : d.name = key
    · rw [if_pos hkey] at hs ⊢
      cases hfind : symbols.find? (·.name == key) with
      | none =>
          rw [hfind] at hs
          obtain rfl := Option.some.inj hs
          rw [h.find?_eq_none hfind]
          exact sums_singleton _
      | some s' =>
          rw [hfind] at hs
          obtain rfl := Option.some.inj hs
          exact (h.found key s' hfind).merge fun d hd => hds d (List.mem_of_mem_filter hd)
    · rw [if_neg hkey] at hs ⊢
      rw [List.append_nil]
      exact h.found key s hs

theorem collects_foldl (ds : List Declaration) (hds : ∀ d ∈ ds, Sourced d) :
    Collects ds (ds.foldl Scope.declare []) := by
  induction ds using List.reverseRecOn with
  | nil => exact ⟨rfl, fun key s hs => nomatch hs⟩
  | append_singleton ds d ih =>
      have hds' : ∀ d ∈ ds, Sourced d := fun d' hd' => hds d' (List.mem_append_left _ hd')
      rw [List.foldl_concat]
      exact (ih hds').declare hds' d

/-! ## Exported names -/

theorem mem_markExported {exports : List Export} (hs : s ∈ markExported exports symbols) :
    ∃ s' ∈ symbols, s = { s' with flags := { s'.flags with
      isExported := s'.flags.isExported || exports.any (·.localName == some s'.name) } } := by
  obtain ⟨s', hs', rfl⟩ := List.mem_map.mp hs
  refine ⟨s', hs', ?_⟩
  cases hany : exports.any (·.localName == some s'.name) <;> simp

theorem names_markExported (exports : List Export) (symbols : List Symbol) :
    (markExported exports symbols).map (·.name) = symbols.map (·.name) := by
  rw [markExported, List.map_map]
  congr 1
  funext s
  simp only [Function.comp_apply]
  split <;> rfl

end Scope

/-! ## A module -/

/-- Whether a statement imports all of the validator library under a name. -/
def Arena.NamesValidators (a : Arena) (statement : NodeId) (name : String) : Prop :=
  ∃ defaultName ns named specifier,
    a.form? (some statement) = some (.importDeclaration defaultName ns named specifier) ∧
      a.form? specifier = some (.literal .string validatorModule) ∧
      (a.form? defaultName = some (.identifier name) ∨ a.form? ns = some (.identifier name))

namespace Module

/-- Whether a module declares these names, one statement after the other. -/
def Declares (m : Module) (ds : List Declaration) : Prop :=
  ∃ dss, List.Forall₂ m.arena.Declares m.statements dss ∧ ds = dss.flatten

/-- Whether a symbol of a module that declares `ds` is what these declarations and the exports say. -/
structure ReadsSymbol (m : Module) (ds : List Declaration) (s : Symbol) : Prop where
  first : ∃ d, ds.find? (·.name == s.name) = some d ∧ s.node = d.node ∧ s.initializer = d.initializer
  flags : { s.flags with isExported := false } =
    SymbolFlags.unions ((Scope.declarationsOf s.name ds).map (·.flags))
  exported : s.flags.isExported = true ↔
    ∃ statement ∈ m.statements, ∃ x, m.arena.Counts statement x ∧ x.localName = some s.name
  source : s.source = (Scope.declarationsOf s.name ds).findSome? (·.source)

/-- Whether a scope is what the declarations `ds`, the exports and the imports of a module say. -/
structure Reads (m : Module) (ds : List Declaration) (scope : Scope) : Prop where
  names : scope.symbols.map (·.name) = (ds.map (·.name)).eraseDups
  lookup : ∀ name s, scope.lookup name = some s ↔ s ∈ scope.symbols ∧ s.name = name
  symbols : ∀ s ∈ scope.symbols, m.ReadsSymbol ds s
  exports : ∀ x, x ∈ scope.exports ↔ ∃ statement ∈ m.statements, m.arena.Counts statement x
  order : scope.exports.Pairwise fun x y => x.node ≠ y.node ∧ m.arena.Precedes x.node y.node
  validators : ∀ name, name ∈ scope.validatorNames ↔
    ∃ statement ∈ m.statements, m.arena.NamesValidators statement name

end Module

namespace Arena

variable {a : Arena}

/-- No declaration is an export by itself, and every import says which module it is from. -/
theorem Imports.sourced {module : String} {imported : String → String} {node localName : Child}
    {ds : List Declaration} (h : a.Imports module imported node localName ds) :
    ∀ d ∈ ds, d.flags.isExported = false ∧ Scope.Sourced d := by
  cases h with
  | name hnode hname =>
      intro d hd
      obtain rfl := List.mem_singleton.mp hd
      exact ⟨rfl, fun source hsource => Option.some.inj hsource ▸ rfl⟩
  | nothing hname => exact nofun

theorem ImportsSpecifier.sourced {module : String} {id : NodeId} {ds : List Declaration}
    (h : a.ImportsSpecifier module id ds) : ∀ d ∈ ds, d.flags.isExported = false ∧ Scope.Sourced d := by
  cases h with
  | same hform himports => exact himports.sourced
  | renamed hform himported himports => exact himports.sourced

theorem DeclaresVariable.sourced {flags : SymbolFlags} (hflags : flags.isExported = false) {id : NodeId}
    {ds : List Declaration} (h : a.DeclaresVariable flags id ds) :
    ∀ d ∈ ds, d.flags.isExported = false ∧ Scope.Sourced d := by
  intro d hd
  cases h with
  | plain hform hname =>
      obtain rfl := List.mem_singleton.mp hd
      exact ⟨hflags, fun source hsource => nomatch hsource⟩
  | pattern hform hname hbinds =>
      obtain ⟨text, -, rfl⟩ := List.mem_map.mp hd
      exact ⟨hflags, fun source hsource => nomatch hsource⟩

theorem mem_flatten_of_forall₂ {α β : Type} {R : α → List β → Prop} {P : β → Prop}
    (hR : ∀ x ys, R x ys → ∀ y ∈ ys, P y) {xs : List α} {yss : List (List β)} (h : List.Forall₂ R xs yss) :
    ∀ y ∈ yss.flatten, P y := by
  induction h with
  | nil => exact nofun
  | cons hxy _ ih =>
      intro y hy
      rw [List.flatten_cons, List.mem_append] at hy
      exact hy.elim (hR _ _ hxy y) (ih y)

theorem Declares.sourced {statement : NodeId} {ds : List Declaration} (h : a.Declares statement ds) :
    ∀ d ∈ ds, d.flags.isExported = false ∧ Scope.Sourced d := by
  cases h with
  | ofVariables hform hvariables => exact mem_flatten_of_forall₂ (fun _ _ h => h.sourced rfl) hvariables
  | ofClass hform hname =>
      intro d hd
      obtain rfl := List.mem_singleton.mp hd
      exact ⟨rfl, fun source hsource => nomatch hsource⟩
  | ofFunction hform hname =>
      intro d hd
      obtain rfl := List.mem_singleton.mp hd
      exact ⟨rfl, fun source hsource => nomatch hsource⟩
  | ofImport hform hmodule hdefault hns hnamed =>
      intro d hd
      rcases List.mem_append.mp hd with hd | hd
      · exact (List.mem_append.mp hd).elim (hdefault.sourced d) (hns.sourced d)
      · exact mem_flatten_of_forall₂ (fun _ _ h => ImportsSpecifier.sourced h) hnamed d hd
  | nothing hnothing => exact nofun

theorem mem_validatorNames_iff (hlawful : a.Lawful) {statement : NodeId} {name : String} :
    name ∈ a.validatorNames statement ↔ a.NamesValidators statement name := by
  constructor
  · intro hname
    rw [validatorNames] at hname
    split at hname
    · rename_i defaultName ns named specifier hform
      obtain ⟨_, -, hspecifier⟩ := hlawful.of_form? hform
      split at hname
      · rename_i hmodule
        refine ⟨defaultName, ns, named, specifier, hform, ?_, ?_⟩
        · obtain rfl | ⟨text, htext⟩ := hspecifier
          · cases hmodule
          · rw [stringText_of_form? htext] at hmodule
            rw [htext, Option.some.inj hmodule]
        · rw [← identifierText_eq_some, ← identifierText_eq_some]
          simpa only [List.mem_append, Option.mem_toList] using hname
      · cases hname
    · cases hname
  · rintro ⟨defaultName, ns, named, specifier, hform, hmodule, hname⟩
    rw [← identifierText_eq_some, ← identifierText_eq_some] at hname
    rw [validatorNames, hform]
    simp only [stringText_of_form? hmodule, if_true, List.mem_append, Option.mem_toList]
    exact hname

end Arena

namespace Module

variable {m : Module} {ds : List Declaration}

/-- A module has one reading. -/
theorem declares_iff (hforest : m.arena.Forest) (hlawful : m.arena.Lawful) (hcomplete : m.arena.Complete) :
    m.Declares ds ↔ ds = m.statements.flatMap m.arena.declarations := by
  constructor
  · rintro ⟨dss, hdss, rfl⟩
    exact (Arena.flatMap_of_forall₂ (fun _ _ h => Arena.Declares.eq hforest h) hdss).symm
  · rintro rfl
    refine ⟨m.statements.map m.arena.declarations, ?_, List.flatMap_def ..⟩
    exact Arena.forall₂_map fun statement _ => Arena.declares hforest hlawful hcomplete statement

theorem Declares.sourced (h : m.Declares ds) : ∀ d ∈ ds, d.flags.isExported = false ∧ Scope.Sourced d := by
  obtain ⟨dss, hdss, rfl⟩ := h
  exact Arena.mem_flatten_of_forall₂ (fun _ _ h => Arena.Declares.sourced h) hdss

/-- What a symbol says in the end. -/
theorem readsSymbol (hlawful : m.arena.Lawful) {symbols : List Symbol} (hcollects : Scope.Collects ds symbols)
    (hnodup : (symbols.map (·.name)).Nodup) (hds : ∀ d ∈ ds, d.flags.isExported = false) {s : Symbol}
    (hs : s ∈ Scope.markExported (m.statements.flatMap m.arena.exports) symbols) : m.ReadsSymbol ds s := by
  obtain ⟨s', hs', rfl⟩ := Scope.mem_markExported hs
  have hsums := hcollects.found _ _ (Scope.find?_name hnodup hs')
  have hexported : s'.flags.isExported = false := by
    rw [hsums.flags]
    refine List.any_eq_false.mpr fun f hf => ?_
    obtain ⟨d, hd, rfl⟩ := List.mem_map.mp hf
    rw [hds d (List.mem_of_mem_filter hd)]
    exact Bool.false_ne_true
  refine ⟨?_, ?_, ?_, hsums.source⟩
  · obtain ⟨d, hd, -, hnode, hinitializer⟩ := hsums.first
    exact ⟨d, by rw [← List.head?_filter]; exact hd, hnode, hinitializer⟩
  · rw [← hsums.flags, ← hexported]
  · rw [hexported, Bool.false_or, List.any_eq_true]
    simp only [List.mem_flatMap, Arena.mem_exports_iff hlawful, beq_iff_eq]
    constructor
    · rintro ⟨x, ⟨statement, hstatement, hcounts⟩, hname⟩
      exact ⟨statement, hstatement, x, hcounts, hname⟩
    · rintro ⟨statement, hstatement, x, hcounts, hname⟩
      exact ⟨x, ⟨statement, hstatement, hcounts⟩, hname⟩

/-- Without errors, a module declares one list of names, and its scope is what these declarations, its
counted exports and its imports of the validator library say. -/
theorem reads_ofModule (fileName text : String) (h : (Module.parse fileName text).errors = []) :
    ∃ ds, (∀ ds', (Module.parse fileName text).Declares ds' ↔ ds' = ds) ∧
      (Module.parse fileName text).Reads ds (Scope.ofModule (Module.parse fileName text)) := by
  have hforest := forest_arena fileName text
  have hlawful := lawful_parse fileName text
  have hspanned := spanned_parse fileName text h
  obtain ⟨t, statements, -, harena, -, hroot, -⟩ := exists_moves fileName text
  rw [← harena] at hroot
  generalize Module.parse fileName text = m at hforest hlawful hspanned hroot
  have hstatements : m.statements = statements := by rw [Module.statements, Arena.statements, hroot]
  have hiff (ds : List Declaration) : m.Declares ds ↔ ds = m.statements.flatMap m.arena.declarations :=
    declares_iff hforest hlawful (hspanned.complete hlawful)
  refine ⟨m.statements.flatMap m.arena.declarations, hiff, ?_⟩
  have hds := ((hiff _).mpr rfl).sourced
  generalize hcollected : m.statements.flatMap m.arena.declarations = ds at hds
  have hcollects := Scope.collects_foldl ds fun d hd => (hds d hd).2
  have hnodup : ((ds.foldl Scope.declare []).map (·.name)).Nodup := by
    rw [hcollects.names]
    exact Entries.nodup_eraseDups _
  have hscope : Scope.ofModule m =
      { symbols := Scope.markExported (m.statements.flatMap m.arena.exports) (ds.foldl Scope.declare [])
        exports := m.statements.flatMap m.arena.exports
        validatorNames := (m.statements.flatMap m.arena.validatorNames).eraseDups } := by
    rw [Scope.ofModule, Scope.add, hcollected]
    rfl
  rw [hscope]
  exact
  { names := (Scope.names_markExported _ _).trans hcollects.names
    lookup := fun name s => by
      constructor
      · intro hs
        rw [Scope.lookup] at hs
        exact ⟨List.mem_of_find?_eq_some hs, by simpa using List.find?_some hs⟩
      · rintro ⟨hs, rfl⟩
        exact Scope.find?_name (by rwa [Scope.names_markExported]) hs
    symbols := fun s hs => readsSymbol hlawful hcollects hnodup (fun d hd => (hds d hd).1) hs
    exports := fun x => by simp only [List.mem_flatMap, Arena.mem_exports_iff hlawful]
    order := hstatements ▸ hspanned.describes.pairwise_exports hforest hroot
    validators := fun name => by
      simp only [List.mem_eraseDups, List.mem_flatMap, Arena.mem_validatorNames_iff hlawful] }

theorem reads_ofModule_repeated :
    let m := Module.parse "A.js"
      "import P, \x7b string as s \x7d from 'prop-types'; export default A; var [a, \x7b b: A \x7d] = s, A = 1;"
    m.errors = [] ∧ ∃ ds, (∀ ds', m.Declares ds' ↔ ds' = ds) ∧ m.Reads ds (Scope.ofModule m) := by
  have herrors : (Module.parse "A.js"
      "import P, \x7b string as s \x7d from 'prop-types'; export default A; var [a, \x7b b: A \x7d] = s, A = 1;").errors
      = [] := by decide +kernel
  exact ⟨herrors, reads_ofModule _ _ herrors⟩

end Module

end PropContract
