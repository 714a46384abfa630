import PropContract.Command.Run
import PropContract.Proofs.File.Tree
import PropContract.Proofs.Stateful

/-!
# What a run writes

A run reads until everything is checked, and writes only if nothing is wrong. The models go to places by
their names: of the models with one place, the last one stays.
-/

namespace PropContract

namespace Run

variable {α β : Type} {t t' u : FileTree} {x : α} {y : β} {folder : String}

/-- Programs over a tree of files. -/
abbrev OnTree := ExceptT RunError (StateM FileTree)

/-! ## Ends of programs -/

/-- Whether a program succeeds on a tree with this result and leaves this tree behind. -/
def Ends (p : OnTree α) (t : FileTree) (x : α) (t' : FileTree) : Prop :=
  p.run.run t = (.ok x, t')

theorem ends_pure {z : α} : Ends (pure x) t z t' ↔ z = x ∧ t' = t := by
  constructor
  · rintro ⟨⟩
    exact ⟨rfl, rfl⟩
  · rintro ⟨rfl, rfl⟩
    rfl

theorem not_ends_throw {e : RunError} : ¬ Ends (throw e : OnTree α) t x t' := by
  rintro ⟨⟩

theorem ends_bind {p : OnTree α} {k : α → OnTree β} :
    Ends (p >>= k) t y u ↔ ∃ x t', Ends p t x t' ∧ Ends (k x) t' y u := by
  rw [Ends, ExceptT.run_bind, Stateful.run_bind]
  constructor
  · intro h
    cases hp : p.run.run t with
    | mk result t' =>
        rw [hp] at h
        cases result with
        | error e => cases h
        | ok x => exact ⟨x, t', hp, h⟩
  · rintro ⟨x, t', hp, hk⟩
    rw [hp]
    exact hk

/-- A program that comes to a result has an end. -/
theorem exists_ends {p : OnTree α} {f : α → Bool} (h : (p.run.run t).1.toOption.any f = true) :
    ∃ x, Ends p t x (p.run.run t).2 ∧ f x = true := by
  cases hp : (p.run.run t).1 with
  | error e => simp [hp, Except.toOption] at h
  | ok x => exact ⟨x, Prod.ext hp rfl, by simpa [hp, Except.toOption] using h⟩

/-! ## Programs that only read -/

/-- Whether a program leaves the tree as it is where it succeeds. -/
def Reads (p : OnTree α) : Prop :=
  ∀ t x t', Ends p t x t' → t' = t

theorem reads_pure : Reads (pure x) := fun _ _ _ h => (ends_pure.mp h).2

theorem reads_throw {e : RunError} : Reads (throw e : OnTree α) := fun _ _ _ h => absurd h not_ends_throw

theorem Reads.bind {p : OnTree α} {k : α → OnTree β} (hp : Reads p) (hk : ∀ x, Reads (k x)) :
    Reads (p >>= k) := by
  intro t y u h
  obtain ⟨x, t', hx, hy⟩ := ends_bind.mp h
  exact (hk x _ _ _ hy).trans (hp _ _ _ hx)

theorem Reads.ite {c : Prop} [Decidable c] {p q : OnTree α} (hp : Reads p) (hq : Reads q) :
    Reads (if c then p else q) := by
  split
  · exact hp
  · exact hq

theorem Reads.mapM {f : α → OnTree β} (hf : ∀ x, Reads (f x)) (xs : List α) : Reads (xs.mapM f) := by
  induction xs with
  | nil => exact reads_pure
  | cons x xs ih =>
      rw [List.mapM_cons]
      exact (hf x).bind fun _ => ih.bind fun _ => reads_pure

theorem reads_isFile (path : String) : Reads (FileSystem.isFile path) := by
  rintro t x t' ⟨⟩
  rfl

theorem reads_isFolder (path : String) : Reads (FileSystem.isFolder path) := by
  rintro t x t' ⟨⟩
  rfl

theorem reads_readText? (path : String) : Reads (FileSystem.readText? path) := by
  rintro t x t' ⟨⟩
  rfl

theorem reads_filesBelow? (path : String) : Reads (FileSystem.filesBelow? path) := by
  rintro t x t' ⟨⟩
  rfl

theorem reads_readConfig (path : String) : Reads (readConfig path) := by
  refine (reads_readText? path).bind fun text => ?_
  cases text with
  | none => exact reads_throw
  | some text =>
      cases h : Config.parse text with
      | ok config => simp only [h]; exact reads_pure
      | error cause => simp only [h]; exact reads_throw

theorem reads_configPath? (workingFolder : String) (given : Option String) :
    Reads (configPath? workingFolder given) := by
  cases given with
  | none => exact (reads_isFile _).bind fun _ => reads_pure
  | some given =>
      exact (reads_isFolder _).bind fun _ => (reads_isFile _).bind fun _ => reads_pure.ite reads_throw

theorem reads_options (args : Arguments) (workingFolder : String) : Reads (options args workingFolder) := by
  refine Reads.bind ?_ fun ⟨config, configFolder⟩ => ?_
  · refine (reads_configPath? _ _).bind fun path => ?_
    cases path with
    | none => exact reads_pure
    | some path => exact (reads_readConfig path).bind fun _ => reads_pure
  · cases h : Options.resolve args config configFolder workingFolder with
    | ok o => simp only [h]; exact reads_pure
    | error e => simp only [h]; exact reads_throw

theorem reads_filesAt (o : Options) (path : String) : Reads (filesAt o path) := by
  refine (reads_isFile path).bind fun _ => reads_pure.ite ?_
  refine (reads_isFolder path).bind fun _ => Reads.ite ?_ reads_throw
  refine (reads_filesBelow? path).bind fun files => ?_
  cases files with
  | none => exact reads_throw
  | some files => exact reads_pure

theorem reads_files (args : Arguments) (workingFolder : String) (o : Options) :
    Reads (files args workingFolder o) :=
  (Reads.mapM (reads_filesAt o) _).bind fun _ => reads_pure

theorem reads_checkFile (names : FieldNames) (path : String) : Reads (checkFile names path) := by
  refine (reads_readText? path).bind fun source => ?_
  cases source with
  | none => exact reads_throw
  | some source => exact reads_pure

/-! ## Writing models -/

theorem ends_writeModel {model : ComponentModel} {written : String}
    (h : Ends (writeModel folder model) t written t') :
    written = modelPath folder model ∧ ∃ place, t.place? (modelPath folder model) = some place ∧
      t.Writes t' place (modelText model).toUTF8 := by
  obtain ⟨done, u, hwrite, h⟩ := ends_bind.mp h
  have hrun : (FileSystem.write (modelPath folder model) (modelText model).toUTF8 : OnTree Bool).run.run t =
      (t.write? (modelPath folder model) (modelText model).toUTF8).elim (.ok false, t) fun t' => (.ok true, t') := by
    change StateT.run (ExceptT.run (ExceptT.lift (FileTree.replaceBy _))) t = _
    rw [ExceptT.run_lift, Stateful.run_map, FileTree.replaceBy, Stateful.run_bind, Stateful.run_get]
    cases t.write? (modelPath folder model) (modelText model).toUTF8 <;> rfl
  rw [Ends, hrun] at hwrite
  cases hput : t.write? (modelPath folder model) (modelText model).toUTF8 with
  | some t'' =>
      rw [hput] at hwrite
      cases hwrite
      obtain ⟨rfl, rfl⟩ := ends_pure.mp h
      exact ⟨rfl, FileTree.writes_of_write? hput⟩
  | none =>
      rw [hput] at hwrite
      cases hwrite
      exact absurd h not_ends_throw

/-- What is different after models have been written one after the other: in every place there is the last
model that goes there. -/
structure Stores (folder : String) (models : List ComponentModel) (t t' : FileTree) : Prop where
  folders : ∀ other, t'.folderAt other = t.folderAt other
  places : ∀ m ∈ models, ∃ place, t.place? (modelPath folder m) = some place
  last : ∀ before m after, models = before ++ m :: after → ∀ place,
    t.place? (modelPath folder m) = some place → (∀ n ∈ after, t.place? (modelPath folder n) ≠ some place) →
      t'.get? place = some (.file (modelText m).toUTF8)
  others : ∀ place content, (∀ m ∈ models, t.place? (modelPath folder m) ≠ some place) →
    t.get? place = some (.file content) → t'.get? place = some (.file content)

theorem stores_mapM {models : List ComponentModel} {written : List String}
    (h : Ends (models.mapM (writeModel folder)) t written t') :
    written = models.map (modelPath folder) ∧ Stores folder models t t' := by
  induction models generalizing t written with
  | nil =>
      obtain ⟨rfl, rfl⟩ := ends_pure.mp h
      exact ⟨rfl, fun _ => rfl, by simp, by simp, fun _ _ _ hfile => hfile⟩
  | cons m models ih =>
      rw [List.mapM_cons] at h
      obtain ⟨path, u, hm, h⟩ := ends_bind.mp h
      obtain ⟨paths, v, hmodels, h⟩ := ends_bind.mp h
      obtain ⟨rfl, rfl⟩ := ends_pure.mp h
      obtain ⟨rfl, place, hplace, hwrites⟩ := ends_writeModel hm
      obtain ⟨rfl, hstores⟩ := ih hmodels
      have hpaths (path : String) : u.place? path = t.place? path :=
        FileTree.place?_congr hwrites.folders path
      refine ⟨rfl, ⟨fun other => ?_, fun n hn => ?_, ?_, fun other content hnone hfile => ?_⟩⟩
      · rw [hstores.folders, hwrites.folders]
      · rcases List.mem_cons.mp hn with rfl | hn
        · exact ⟨place, hplace⟩
        · obtain ⟨place, hplace⟩ := hstores.places n hn
          exact ⟨place, hpaths _ ▸ hplace⟩
      · intro before n after hsplit other hother hafter
        cases before with
        | nil =>
            cases hsplit
            obtain rfl := Option.some.inj (hplace.symm.trans hother)
            exact hstores.others place _ (fun n hn => hpaths _ ▸ hafter n hn) hwrites.here
        | cons first before =>
            cases hsplit
            exact hstores.last before n after rfl other (hpaths _ ▸ hother) fun n hn => hpaths _ ▸ hafter n hn
      · have hne : other ≠ place := by
          rintro rfl
          exact hnone m (List.mem_cons_self ..) hplace
        refine hstores.others other content (fun n hn => ?_) (hwrites.others other content hne hfile)
        rw [hpaths]
        exact hnone n (List.mem_cons_of_mem _ hn)

theorem stores_writeModels {models : List ComponentModel} {written : List String}
    (h : Ends (writeModels folder models) t written t') :
    written = models.map (modelPath folder) ∧ ∃ u, Stores folder models u t' := by
  obtain ⟨made, u, -, h⟩ := ends_bind.mp h
  split at h
  · obtain ⟨hwritten, hstores⟩ := stores_mapM h
    exact ⟨hwritten, u, hstores⟩
  · exact absurd h not_ends_throw

/-- The last of the elements with a property. -/
theorem exists_last {P : α → Prop} {xs : List α} (h : ∃ x ∈ xs, P x) :
    ∃ before x after, xs = before ++ x :: after ∧ P x ∧ ∀ y ∈ after, ¬ P y := by
  induction xs with
  | nil => simp at h
  | cons x xs ih =>
      by_cases hrest : ∃ y ∈ xs, P y
      · obtain ⟨before, y, after, rfl, hy, hafter⟩ := ih hrest
        exact ⟨x :: before, y, after, rfl, hy, hafter⟩
      · have hx : P x := by simpa [hrest] using h
        exact ⟨[], x, xs, rfl, hx, fun y hy hP => hrest ⟨y, hy, hP⟩⟩

/-- Whether the file at the path of a model has the text of a model. -/
def HasText (folder : String) (t : FileTree) (m kept : ComponentModel) : Prop :=
  t.read? (modelPath folder m) = some (modelText kept).toUTF8

instance (m kept : ComponentModel) : Decidable (HasText folder t m kept) :=
  inferInstanceAs (Decidable (_ = _))

/-- At the path of every model there is the text of the last model whose path leads to the same place. -/
theorem Stores.hasText {models : List ComponentModel} (h : Stores folder models t t') {m : ComponentModel}
    (hm : m ∈ models) :
    ∃ before kept after, models = before ++ kept :: after ∧
      t'.place? (modelPath folder kept) = t'.place? (modelPath folder m) ∧
      (∀ n ∈ after, t'.place? (modelPath folder n) ≠ t'.place? (modelPath folder m)) ∧
      HasText folder t' m kept := by
  have hpaths (path : String) : t'.place? path = t.place? path := FileTree.place?_congr h.folders path
  obtain ⟨place, hplace⟩ := h.places m hm
  obtain ⟨before, kept, after, hsplit, hkept, hafter⟩ :=
    exists_last (P := fun n => t.place? (modelPath folder n) = some place) ⟨m, hm, hplace⟩
  refine ⟨before, kept, after, hsplit, ?_, fun n hn => ?_, ?_⟩
  · rw [hpaths, hpaths, hkept, hplace]
  · rw [hpaths, hpaths, hplace]
    exact hafter n hn
  · have hfile := h.last before kept after hsplit place hkept hafter
    simp [HasText, FileTree.read?, FileTree.find?, hpaths, hplace, hfile]

/-- All models are there if and only if those whose paths lead to one place have one text. -/
theorem Stores.all_iff {models : List ComponentModel} (h : Stores folder models t t') :
    (∀ m ∈ models, HasText folder t' m m) ↔ ∀ m ∈ models, ∀ n ∈ models,
      t'.place? (modelPath folder m) = t'.place? (modelPath folder n) → modelText m = modelText n := by
  constructor
  · intro hall m hm n hn hplace
    have hm' := hall m hm
    have hn' := hall n hn
    rw [HasText, FileTree.read?, FileTree.find?, hplace] at hm'
    rw [HasText, FileTree.read?, FileTree.find?, hm'] at hn'
    exact String.toByteArray_inj.mp (Option.some.inj hn')
  · intro hsame m hm
    obtain ⟨before, kept, after, hsplit, hplace, -, htext⟩ := h.hasText hm
    have hkept : kept ∈ models := by simp [hsplit]
    rw [HasText, hsame m hm kept hkept hplace.symm]
    exact htext

/-! ## Whole runs -/

/-- What checking and writing does where it succeeds. With a diagnostic in any file, nothing is written.
Otherwise a path is written for every model, and at the path there is the last model that goes to the same
place. So all models are there if and only if no two different ones go to one place. -/
structure Effect (folder : String) (t t' : FileTree) (result : RunResult) : Prop where
  failed : result.hasErrors = true → result.written = [] ∧ t' = t
  written : result.hasErrors = false → result.written = result.models.map (modelPath folder)
  last : result.hasErrors = false → ∀ m ∈ result.models,
    ∃ before kept after, result.models = before ++ kept :: after ∧
      t'.place? (modelPath folder kept) = t'.place? (modelPath folder m) ∧
      (∀ n ∈ after, t'.place? (modelPath folder n) ≠ t'.place? (modelPath folder m)) ∧
      HasText folder t' m kept
  all : result.hasErrors = false → ((∀ m ∈ result.models, HasText folder t' m m) ↔
    ∀ m ∈ result.models, ∀ n ∈ result.models,
      t'.place? (modelPath folder m) = t'.place? (modelPath folder n) → modelText m = modelText n)

theorem effect_check {names : FieldNames} {paths : List String} {result : RunResult}
    (h : Ends (check names (some folder) paths) t result t') : Effect folder t t' result := by
  obtain ⟨files, u, hfiles, hmodels⟩ := ends_bind.mp h
  obtain rfl : u = t := Reads.mapM (reads_checkFile names) _ _ _ _ hfiles
  dsimp only at hmodels
  split at hmodels
  · rename_i herrors
    obtain ⟨rfl, rfl⟩ := ends_pure.mp hmodels
    have hnone {P : Prop} (hnone : RunResult.hasErrors { files } = false) : P :=
      absurd (hnone.symm.trans herrors) Bool.false_ne_true
    exact ⟨fun _ => ⟨rfl, rfl⟩, hnone, hnone, hnone⟩
  · rename_i herrors
    obtain ⟨written, v, hwrite, hend⟩ := ends_bind.mp hmodels
    obtain ⟨rfl, rfl⟩ := ends_pure.mp hend
    obtain ⟨rfl, w, hstores⟩ := stores_writeModels hwrite
    exact ⟨fun herrors' => absurd herrors' herrors, fun _ => rfl, fun _ m hm => hstores.hasText hm,
      fun _ => hstores.all_iff⟩

end Run

open Run

theorem run_outcome {args : Arguments} {workingFolder folder : String} {t t' : FileTree} {o : Options}
    {result : RunResult} (ho : Ends (options args workingFolder) t o t) (hfolder : o.outputFolder = some folder)
    (hrun : Ends (run args workingFolder) t result t') : Effect folder t t' result := by
  obtain ⟨o', u, ho', hafter⟩ := ends_bind.mp hrun
  obtain ⟨rfl, rfl⟩ : o = o' ∧ t = u := by
    cases ho.symm.trans ho'
    exact ⟨rfl, rfl⟩
  obtain ⟨paths, u, hpaths, hcheck⟩ := ends_bind.mp hafter
  obtain rfl : u = t := reads_files _ _ _ _ _ _ hpaths
  rw [hfolder] at hcheck
  exact effect_check hcheck

/-- A file with a component of the name `Card`, whose only property has this type. -/
def cardFile (type : String) : FileTree :=
  .file ("Card.propTypes = \x7bx: PropTypes." ++ type ++ "\x7d; export default Card;").toUTF8

/-- A run over these files, with models in the folder `out`. -/
def runArguments (paths : List String) : Arguments := { paths, outputFolder := some "out" }

theorem run_outcome_card : ∃ o result t',
    Ends (options (runArguments ["Card.jsx"]) "/") (.folder [("Card.jsx", cardFile "string")]) o
      (.folder [("Card.jsx", cardFile "string")]) ∧
    o.outputFolder = some "/out" ∧
    Ends (run (runArguments ["Card.jsx"]) "/") (.folder [("Card.jsx", cardFile "string")]) result t' ∧
    result.hasErrors = false ∧ result.models.map (modelPath "/out") = ["/out/Card.json"] ∧
    result.written = ["/out/Card.json"] := by
  obtain ⟨o, ho, hfolder⟩ := exists_ends (p := options (runArguments ["Card.jsx"]) "/")
    (t := .folder [("Card.jsx", cardFile "string")]) (f := fun o => o.outputFolder == some "/out")
    (by decide +kernel)
  obtain ⟨result, hrun, hresult⟩ := exists_ends (p := run (runArguments ["Card.jsx"]) "/")
    (t := .folder [("Card.jsx", cardFile "string")])
    (f := fun r => !r.hasErrors && r.models.map (modelPath "/out") == ["/out/Card.json"]) (by decide +kernel)
  simp only [Bool.and_eq_true, Bool.not_eq_true', beq_iff_eq] at hresult hfolder
  rw [reads_options _ _ _ _ _ ho] at ho
  have hwritten := (run_outcome ho hfolder hrun).written hresult.1
  exact ⟨o, result, _, ho, hfolder, hrun, hresult.1, hresult.2, hwritten.trans hresult.2⟩

/-- Two files in two folders, with components of one name. -/
def twoCards : FileTree :=
  .folder [("a", .folder [("Card.jsx", cardFile "string")]), ("b", .folder [("Card.jsx", cardFile "number")])]

/-- A file among the paths is checked, whatever the options are. -/
theorem ends_filesAt {o : Options} {path : String} (h : (t.find? path).any (!·.isFolder) = true) :
    Ends (filesAt o path) t [path] t := by
  have hfile : Ends (FileSystem.isFile path) t true t := congrArg (fun found => (Except.ok found, t)) h
  exact ends_bind.mpr ⟨true, t, hfile, ends_pure.mpr ⟨rfl, rfl⟩⟩

/-- Of two components with one name, only the second one has its model on disk, though both are written. -/
theorem run_overwrites : ∃ result t',
    Ends (run (runArguments ["a/Card.jsx", "b/Card.jsx"]) "/") twoCards result t' ∧
    result.hasErrors = false ∧ result.written = ["/out/Card.json", "/out/Card.json"] ∧
    ∃ m ∈ result.models, ¬ HasText "/out" t' m m := by
  have hfiles (o : Options) : Ends (files (runArguments ["a/Card.jsx", "b/Card.jsx"]) "/" o) twoCards
      ["/a/Card.jsx", "/b/Card.jsx"] twoCards := by
    have hpaths : Ends (["/a/Card.jsx", "/b/Card.jsx"].mapM (filesAt o)) twoCards
        [["/a/Card.jsx"], ["/b/Card.jsx"]] twoCards := by
      simp only [List.mapM_cons, List.mapM_nil, ends_bind]
      exact ⟨_, _, ends_filesAt (by decide +kernel), _, _, ⟨_, _, ends_filesAt (by decide +kernel), _, _,
        ends_pure.mpr ⟨rfl, rfl⟩, ends_pure.mpr ⟨rfl, rfl⟩⟩, ends_pure.mpr ⟨rfl, rfl⟩⟩
    have hsorted : Path.sortedDistinct ["/a/Card.jsx", "/b/Card.jsx"] = ["/a/Card.jsx", "/b/Card.jsx"] := by
      rw [Path.sortedDistinct, List.mergeSort_of_pairwise (by decide +kernel)]
      decide +kernel
    have hjoined : ["a/Card.jsx", "b/Card.jsx"].map (Path.join "/") = ["/a/Card.jsx", "/b/Card.jsx"] := by
      decide +kernel
    refine ends_bind.mpr ⟨[["/a/Card.jsx"], ["/b/Card.jsx"]], twoCards, ?_, ends_pure.mpr ⟨hsorted.symm, rfl⟩⟩
    change Ends ((["a/Card.jsx", "b/Card.jsx"].map (Path.join "/")).mapM (filesAt o)) _ _ _
    rw [hjoined]
    exact hpaths
  obtain ⟨o, ho, hoptions⟩ := exists_ends (p := options (runArguments ["a/Card.jsx", "b/Card.jsx"]) "/")
    (t := twoCards) (f := fun o => o.outputFolder == some "/out" && o.names == {}) (by decide +kernel)
  rw [reads_options _ _ _ _ _ ho] at ho
  simp only [Bool.and_eq_true, beq_iff_eq] at hoptions
  obtain ⟨result, hcheck, hresult⟩ := exists_ends
    (p := check {} (some "/out") ["/a/Card.jsx", "/b/Card.jsx"]) (t := twoCards)
    (f := fun r => !r.hasErrors && r.written == ["/out/Card.json", "/out/Card.json"] && r.models.any fun m =>
      !decide (HasText "/out"
        ((check {} (some "/out") ["/a/Card.jsx", "/b/Card.jsx"] : OnTree RunResult).run.run twoCards).2 m m))
    (by decide +kernel)
  simp only [Bool.and_eq_true, Bool.not_eq_true', beq_iff_eq, List.any_eq_true, decide_eq_false_iff_not] at hresult
  obtain ⟨⟨herrors, hwritten⟩, m, hm, hlost⟩ := hresult
  refine ⟨result, _, ?_, herrors, hwritten, m, hm, hlost⟩
  refine ends_bind.mpr ⟨o, twoCards, ho, ends_bind.mpr ⟨_, _, hfiles o, ?_⟩⟩
  rw [hoptions.1, hoptions.2]
  exact hcheck

end PropContract
