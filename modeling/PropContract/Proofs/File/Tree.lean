import PropContract.File.Tree
import PropContract.Proofs.Entries

/-!
# Writing into trees of files

A file is written into a folder that is there. It replaces what is in its place and leaves all folders,
and so all paths, as they are.
-/

namespace PropContract.FileTree

variable {t t' : FileTree} {place other : List String} {name path : String} {content : ByteArray}

/-! ## Places -/

@[simp]
theorem get?_nil (t : FileTree) : t.get? [] = some t := by
  cases t <;> rfl

theorem get?_folder_cons (entries : List (String × FileTree)) (name : String) (rest : List String) :
    (folder entries).get? (name :: rest) = (Entries.get? entries name).bind (get? · rest) := rfl

theorem get?_append (t : FileTree) (place rest : List String) :
    t.get? (place ++ rest) = (t.get? place).bind (get? · rest) := by
  induction place generalizing t with
  | nil => simp
  | cons name place ih =>
      cases t with
      | file => rfl
      | folder entries =>
          simp only [List.cons_append, get?_folder_cons, Option.bind_assoc]
          exact Option.bind_congr fun u _ => ih u

theorem folderAt_folder_cons (entries : List (String × FileTree)) (name : String) (rest : List String) :
    (folder entries).folderAt (name :: rest) = (Entries.get? entries name).any (folderAt · rest) := by
  rw [folderAt, get?_folder_cons]
  cases Entries.get? entries name <;> rfl

/-- Whatever stands behind a place stands in a folder there. -/
theorem folderAt_of_get?_append {u : FileTree} {key : String} {rest : List String}
    (h : t.get? (place ++ key :: rest) = some u) : t.folderAt place = true := by
  rw [get?_append] at h
  obtain ⟨v, hv, hrest⟩ := Option.bind_eq_some_iff.mp h
  cases v with
  | file => cases hrest
  | folder entries => simp [folderAt, hv, isFolder]

/-- A folder stands in folders. -/
theorem folderAt_of_append {rest : List String} (h : t.folderAt (place ++ rest) = true) :
    t.folderAt place = true := by
  cases rest with
  | nil => rwa [List.append_nil] at h
  | cons key rest =>
      obtain ⟨u, hu, -⟩ := Option.any_eq_true _ _ |>.mp h
      exact folderAt_of_get?_append hu

/-! ## Putting into a folder -/

section

variable (hfolder : t.folderAt place = true)
include hfolder

/-- What is put into a folder is there. -/
theorem get?_put_self (new : FileTree) :
    (t.put (place ++ [name]) new).get? (place ++ [name]) = some new := by
  induction place generalizing t with
  | nil =>
      cases t with
      | file => cases hfolder
      | folder entries => simp [put, get?_folder_cons, Entries.get?_put]
  | cons key place ih =>
      cases t with
      | file => cases hfolder
      | folder entries =>
          rw [folderAt_folder_cons, Option.any_eq_true] at hfolder
          obtain ⟨u, hu, hplace⟩ := hfolder
          simp [put, get?_folder_cons, Entries.get?_put, hu, ih hplace]

/-- What is not behind the place stays, but for the folders on the way to it, which stay folders. -/
theorem get?_put_apart (new : FileTree) (hapart : ¬ place ++ [name] <+: other) :
    (t.put (place ++ [name]) new).get? other = t.get? other ∨
      (t.put (place ++ [name]) new).folderAt other = true ∧ t.folderAt other = true := by
  induction place generalizing t other with
  | nil =>
      cases t with
      | file => cases hfolder
      | folder entries =>
          cases other with
          | nil => exact Or.inr ⟨rfl, rfl⟩
          | cons key rest =>
              have hkey : key ≠ name := by
                rintro rfl
                exact hapart (by simp)
              exact Or.inl (by simp [put, get?_folder_cons, Entries.get?_put, hkey])
  | cons first place ih =>
      cases t with
      | file => cases hfolder
      | folder entries =>
          rw [folderAt_folder_cons, Option.any_eq_true] at hfolder
          obtain ⟨u, hu, hplace⟩ := hfolder
          cases other with
          | nil => exact Or.inr ⟨rfl, rfl⟩
          | cons key rest =>
              by_cases hkey : key = first
              · subst hkey
                have hrest : ¬ place ++ [name] <+: rest := by simpa using hapart
                have hsame := ih hplace hrest
                simpa [put, folderAt_folder_cons, get?_folder_cons, Entries.get?_put, hu] using hsame
              · exact Or.inl (by simp [put, get?_folder_cons, Entries.get?_put, hkey])

end

/-! ## Writing a file -/

/-- What is different after a file has been written. -/
structure Writes (t t' : FileTree) (place : List String) (content : ByteArray) : Prop where
  here : t'.get? place = some (file content)
  folders : ∀ other, t'.folderAt other = t.folderAt other
  others : ∀ other c, other ≠ place → t.get? other = some (file c) → t'.get? other = some (file c)

theorem writes_put (hfolder : t.folderAt place = true) (hnot : t.folderAt (place ++ [name]) = false) :
    Writes t (t.put (place ++ [name]) (file content)) (place ++ [name]) content := by
  have hbehind {key : String} {rest : List String} : t.get? (place ++ [name] ++ key :: rest) = none := by
    by_contra hsome
    obtain ⟨u, hu⟩ := Option.ne_none_iff_exists'.mp hsome
    rw [folderAt_of_get?_append hu] at hnot
    cases hnot
  refine ⟨get?_put_self hfolder _, fun other => ?_, fun other c hne hfile => ?_⟩
  · by_cases hprefix : place ++ [name] <+: other
    · obtain ⟨rest, rfl⟩ := hprefix
      rw [folderAt, get?_append, get?_put_self hfolder]
      cases rest with
      | nil => simp [isFolder, hnot]
      | cons key rest => rw [folderAt, hbehind]; rfl
    · rcases get?_put_apart hfolder (file content) hprefix with hsame | ⟨hput, hold⟩
      · rw [folderAt, hsame, folderAt]
      · rw [hput, hold]
  · by_cases hprefix : place ++ [name] <+: other
    · obtain ⟨rest, rfl⟩ := hprefix
      cases rest with
      | nil => simp at hne
      | cons key rest =>
          rw [hbehind] at hfile
          cases hfile
    · rcases get?_put_apart hfolder (file content) hprefix with hsame | ⟨-, hold⟩
      · rw [hsame, hfile]
      · simp [folderAt, hfile, isFolder] at hold

/-- The same paths lead to the same places. -/
theorem place?_congr (h : ∀ other, t'.folderAt other = t.folderAt other) (path : String) :
    t'.place? path = t.place? path := by
  have henter : t'.enter? = t.enter? := by
    funext place piece
    unfold enter?
    rw [h]
  rw [place?, place?, henter]

theorem pieces_ne_nil (path : String) : Path.pieces path ≠ [] := by
  simp [Path.pieces, List.splitOn_ne_nil]

/-- A path that does not lead to a folder leads into one. -/
theorem exists_folder_of_place? (h : t.place? path = some place) (hnot : t.folderAt place = false) :
    ∃ front name, place = front ++ [name] ∧ t.folderAt front = true := by
  rw [place?, ← List.dropLast_concat_getLast (pieces_ne_nil path), List.foldlM_append] at h
  obtain ⟨front, -, h⟩ := Option.bind_eq_some_iff.mp h
  simp only [List.foldlM_cons, List.foldlM_nil, bind_pure] at h
  unfold enter? at h
  split at h
  · rename_i hfront
    split at h
    · cases h
      simp [hfront] at hnot
    · cases h
      simp [hfront] at hnot
    · cases h
      have hparent : t.folderAt (front.dropLast ++ front.drop (front.length - 1)) = true := by
        rwa [List.dropLast_eq_take, List.take_append_drop]
      rw [folderAt_of_append hparent] at hnot
      cases hnot
    · split at h
      · cases h
        exact ⟨front, _, rfl, hfront⟩
      · cases h
  · cases h

/-- Writing a file puts it where its path leads. -/
theorem writes_of_write? (h : t.write? path content = some t') :
    ∃ place, t.place? path = some place ∧ Writes t t' place content := by
  obtain ⟨place, hplace, h⟩ := Option.bind_eq_some_iff.mp h
  split at h
  · cases h
  · rename_i hnot
    cases h
    obtain ⟨front, name, rfl, hfolder⟩ := exists_folder_of_place? hplace (by simpa using hnot)
    exact ⟨_, hplace, writes_put hfolder (by simpa using hnot)⟩

end PropContract.FileTree
