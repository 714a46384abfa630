import Mathlib.Data.List.Induction
import PropContract.Entries

/-!
# Entries: what putting and looking up do

The last value put under a name counts, and a name keeps the place where it first came.
-/

namespace PropContract.Entries

variable {α β : Type}

@[simp] theorem get?_nil (key : String) : get? ([] : Entries α) key = none := rfl

theorem get?_cons (k : String) (v : α) (rest : Entries α) (key : String) :
    get? ((k, v) :: rest) key = if key = k then some v else get? rest key := by
  by_cases h : key = k
  · simp [get?, h]
  · have hb : (key == k) = false := by simpa using h
    simp [get?, List.lookup_cons, hb, h]

theorem get?_put (entries : Entries α) (k : String) (v : α) (key : String) :
    (entries.put k v).get? key = if key = k then some v else entries.get? key := by
  induction entries with
  | nil => simp [put, get?_cons]
  | cons e rest ih =>
      obtain ⟨k', v'⟩ := e
      by_cases h : k' = k
      · subst h
        simp only [put, ↓reduceIte, get?_cons]
        split <;> rfl
      · simp only [put, h, ↓reduceIte, get?_cons, ih]
        by_cases hk : key = k'
        · subst hk; simp [h]
        · simp [hk]

theorem mem_of_get? {entries : Entries α} {key : String} {v : α}
    (h : entries.get? key = some v) : (key, v) ∈ entries := by
  induction entries with
  | nil => simp at h
  | cons e rest ih =>
      obtain ⟨k, w⟩ := e
      rw [get?_cons] at h
      split at h
      · rename_i hk
        cases h
        simp [hk]
      · exact List.mem_cons_of_mem _ (ih h)

theorem get?_map (f : α → β) (entries : Entries α) (key : String) :
    get? (entries.map fun (k, v) => (k, f v)) key = (entries.get? key).map f := by
  induction entries with
  | nil => rfl
  | cons e rest ih =>
      obtain ⟨k, v⟩ := e
      simp only [List.map_cons, get?_cons, ih]
      split <;> rfl

/-! ## Many pairs -/

theorem ofList_concat (pairs : List (String × α)) (k : String) (v : α) :
    ofList (pairs ++ [(k, v)]) = (ofList pairs).put k v := by
  simp [ofList, List.foldl_append]

theorem put_map (f : α → β) (entries : Entries α) (k : String) (v : α) :
    put (entries.map fun (k, v) => (k, f v)) k (f v) = (entries.put k v).map fun (k, v) => (k, f v) := by
  induction entries with
  | nil => rfl
  | cons e rest ih =>
      rw [List.map_cons, put, put]
      split
      · rfl
      · rw [ih, List.map_cons]

theorem ofList_map (f : α → β) (pairs : List (String × α)) :
    ofList (pairs.map fun (k, v) => (k, f v)) = (ofList pairs).map fun (k, v) => (k, f v) := by
  induction pairs using List.reverseRecOn with
  | nil => rfl
  | append_singleton pairs e ih =>
      obtain ⟨k, v⟩ := e
      rw [List.map_append, List.map_singleton, ofList_concat, ofList_concat, ih, put_map]

/-- Of the values under one name the last one counts. -/
theorem get?_ofList (pairs : List (String × α)) (key : String) :
    (ofList pairs).get? key = get? pairs.reverse key := by
  induction pairs using List.reverseRecOn with
  | nil => rfl
  | append_singleton pairs e ih =>
      obtain ⟨k, v⟩ := e
      rw [ofList_concat, get?_put, List.reverse_concat, get?_cons, ih]

theorem mem_put {entries : Entries α} {k : String} {v : α} {e : String × α}
    (h : e ∈ entries.put k v) : e = (k, v) ∨ e ∈ entries := by
  induction entries with
  | nil => exact Or.inl (List.mem_singleton.mp h)
  | cons e' rest ih =>
      obtain ⟨k', v'⟩ := e'
      unfold put at h
      split at h
      · rename_i hk
        rcases List.mem_cons.mp h with h | h
        · exact Or.inl (by rw [h, hk])
        · exact Or.inr (List.mem_cons_of_mem _ h)
      · rcases List.mem_cons.mp h with h | h
        · exact Or.inr (by rw [h]; exact List.mem_cons_self)
        · exact (ih h).imp_right (List.mem_cons_of_mem _)

theorem mem_of_mem_ofList {pairs : List (String × α)} {e : String × α} (h : e ∈ ofList pairs) :
    e ∈ pairs := by
  induction pairs using List.reverseRecOn with
  | nil => exact h
  | append_singleton pairs e' ih =>
      rw [ofList_concat] at h
      rcases mem_put h with h | h
      · simp [h]
      · exact List.mem_append_left _ (ih h)

theorem put_of_not_mem {entries : Entries α} {k : String} (v : α) (h : k ∉ entries.keys) :
    entries.put k v = entries ++ [(k, v)] := by
  induction entries with
  | nil => rfl
  | cons e rest ih =>
      obtain ⟨k', v'⟩ := e
      obtain ⟨hne, hrest⟩ := List.ne_and_not_mem_of_not_mem_cons h
      rw [put, if_neg (Ne.symm hne), ih hrest]
      rfl

/-- Pairs without a repeated name are put in their order. -/
theorem ofList_of_nodup {pairs : List (String × α)} (h : (keys pairs).Nodup) :
    ofList pairs = pairs := by
  induction pairs using List.reverseRecOn with
  | nil => rfl
  | append_singleton pairs e ih =>
      obtain ⟨k, v⟩ := e
      rw [keys, List.map_append, List.nodup_append] at h
      obtain ⟨hpairs, -, hdisjoint⟩ := h
      have hk : k ∉ keys pairs := fun hk => hdisjoint k hk k List.mem_cons_self rfl
      rw [ofList_concat, ih hpairs, put_of_not_mem v hk]

/-! ## Names in the order in which they first come -/

theorem eraseDups_concat (xs : List String) (x : String) :
    (xs ++ [x]).eraseDups = if x ∈ xs then xs.eraseDups else xs.eraseDups ++ [x] := by
  have hremove : [x].removeAll xs = if x ∈ xs then [] else [x] := by
    by_cases hmem : x ∈ xs <;> simp [List.removeAll, hmem]
  rw [List.eraseDups_append, hremove]
  split
  · rw [List.eraseDups_nil, List.append_nil]
  · rfl

theorem nodup_eraseDups (xs : List String) : xs.eraseDups.Nodup := by
  induction xs using List.reverseRecOn with
  | nil => exact List.nodup_nil
  | append_singleton xs x ih =>
      rw [eraseDups_concat]
      split
      · exact ih
      · rename_i hmem
        refine List.nodup_append.mpr ⟨ih, by simp, fun y hy z hz => ?_⟩
        rw [List.mem_singleton.mp hz]
        rintro rfl
        exact hmem (List.mem_eraseDups.mp hy)

theorem eraseDups_sublist (xs : List String) : xs.eraseDups.Sublist xs := by
  induction xs using List.reverseRecOn with
  | nil => exact .slnil
  | append_singleton xs x ih =>
      rw [eraseDups_concat]
      split
      · exact ih.trans (List.sublist_append_left xs [x])
      · exact ih.append_right [x]

theorem eraseDups_eq_self_iff (xs : List String) : xs.eraseDups = xs ↔ xs.Nodup := by
  constructor
  · intro h
    rw [← h]
    exact nodup_eraseDups xs
  · intro h
    induction xs using List.reverseRecOn with
    | nil => rfl
    | append_singleton xs x ih =>
        obtain ⟨hxs, -, hdisjoint⟩ := List.nodup_append.mp h
        rw [eraseDups_concat, if_neg fun hx => hdisjoint x hx x List.mem_cons_self rfl, ih hxs]

theorem keys_put (entries : Entries α) (k : String) (v : α) :
    (entries.put k v).keys = if k ∈ entries.keys then entries.keys else entries.keys ++ [k] := by
  induction entries with
  | nil => rfl
  | cons e rest ih =>
      obtain ⟨k', v'⟩ := e
      simp only [keys, put] at ih ⊢
      by_cases hk : k' = k
      · simp [hk]
      · simp only [hk, ↓reduceIte, List.map_cons, ih, List.mem_cons, Ne.symm hk, false_or]
        split
        · rename_i hmem
          simp [hmem]
        · rename_i hmem
          simp [hmem]

/-- Names keep the places where they first come. -/
theorem keys_ofList (pairs : List (String × α)) : (ofList pairs).keys = (keys pairs).eraseDups := by
  induction pairs using List.reverseRecOn with
  | nil => rfl
  | append_singleton pairs e ih =>
      obtain ⟨k, v⟩ := e
      rw [ofList_concat, keys_put, ih]
      simp only [keys, List.map_append, List.map_singleton, eraseDups_concat, List.mem_eraseDups]

end PropContract.Entries
