import PropContract.Contract.Override
import PropContract.Proofs.Arena
import PropContract.Proofs.Entries

/-!
# Overrides without faults

An override that passes its check is read the same at every larger number of levels: the check gives
up before the reading does.
-/

namespace PropContract

namespace Arena

variable {a : Arena}

/-! ## Values that pass -/

/-- An override value without faults on `n` levels, or a name that stands for itself. -/
def Accepts (a : Arena) (n : Nat) (v : Child) : Prop :=
  a.valueFindings n v = [] ∨ (a.propertyNameText v).isSome

theorem unparenthesized_of_name {v : Child} (h : (a.propertyNameText v).isSome) :
    a.unparenthesized v = v := by
  apply unparenthesized_eq_self
  intro e he
  simp [propertyNameText, he] at h

/-- What a name reads as does not depend on the levels. -/
theorem ofValueIn_name {v : Child} (h : (a.propertyNameText v).isSome) (m n : Nat) :
    Override.ofValueIn a (m + 1) v = Override.ofValueIn a (n + 1) v := by
  have hv := unparenthesized_of_name h
  unfold propertyNameText at h
  split at h
  case h_5 => simp at h
  all_goals
    rename_i hf
    simp [Override.ofValueIn, hv, hf]

theorem mem_literalElements_findings {object : Child} {value : Child → List Finding}
    (h : a.elementFindings value object = []) {element : Child}
    (he : element ∈ a.literalElements object) :
    (∃ name v, a.form? element = some (.propertyAssignment name v) ∧ value v = []) ∨
      ∃ name, a.form? element = some (.shorthandProperty name) := by
  have hf := List.flatMap_eq_nil_iff.mp h element he
  split at hf
  · rename_i name v hform
    exact Or.inl ⟨name, v, hform, hf⟩
  · rename_i name hform
    exact Or.inr ⟨name, hform⟩
  · cases hf

/-- An entry of an object without faults has a value that passes, or is a name alone. -/
theorem overrideEntries_cases {object : Child} {value : Child → List Finding}
    (h : a.elementFindings value object = []) {key : String} {v : Child}
    (hv : (key, v) ∈ a.overrideEntries object) :
    (∃ element name, a.form? element = some (.propertyAssignment name v) ∧ value v = []) ∨
      ∃ element name, a.form? element = some (.shorthandProperty name) ∧ v = some name ∧
        (a.propertyNameText v).isSome := by
  obtain ⟨element, he, hentry⟩ := List.mem_filterMap.mp (Entries.mem_of_mem_ofList hv)
  rcases mem_literalElements_findings h he with ⟨name, w, hform, hw⟩ | ⟨name, hform⟩
  · simp only [ overrideEntry?, hform, bind, Option.bind_eq_some_iff, pure, Option.some.injEq,
      Prod.mk.injEq] at hentry
    obtain ⟨_, _, -, rfl⟩ := hentry
    exact Or.inl ⟨element, name, hform, hw⟩
  · simp only [ overrideEntry?, hform, bind, Option.bind_eq_some_iff, pure, Option.some.injEq,
      Prod.mk.injEq] at hentry
    obtain ⟨k, hk, -, rfl⟩ := hentry
    refine Or.inr ⟨element, name, hform, rfl, ?_⟩
    simp [memberName, hform] at hk
    simp [hk]

/-- Every entry of an object without faults passes by itself. -/
theorem Accepts.of_elementFindings {object : Child} {n : Nat}
    (h : a.elementFindings (a.valueFindings n) object = []) {key : String} {v : Child}
    (hv : (key, v) ∈ a.overrideEntries object) : a.Accepts n v := by
  rcases overrideEntries_cases h hv with ⟨_, _, -, hvalue⟩ | ⟨_, _, -, -, hname⟩
  · exact Or.inl hvalue
  · exact Or.inr hname

/-- The entries of an override object without faults pass one level further in. -/
theorem Accepts.entry {n : Nat} {v : Child} (h : a.Accepts n v)
    (ho : a.isObjectLiteral (a.unparenthesized v)) :
    ∃ m, n = m + 1 ∧ ∀ key w,
      (key, w) ∈ a.overrideEntries (a.unparenthesized v) → a.Accepts m w := by
  simp only [isObjectLiteral] at ho
  split at ho
  case h_2 => cases ho
  rename_i elements hform
  rcases h with h | h
  · cases n with
    | zero => simp [valueFindings, hform] at h
    | succ m =>
        simp only [valueFindings, hform] at h
        exact ⟨m, rfl, fun key w hw => Accepts.of_elementFindings h hw⟩
  · rw [unparenthesized_of_name h] at hform
    simp [propertyNameText, hform] at h

/-- An override that passes on `n` levels reads the same on any larger number of them. -/
theorem Accepts.ofValueIn_eq {n : Nat} : {v : Child} → a.Accepts n v → ∀ m, n ≤ m →
    Override.ofValueIn a (m + 1) v = Override.ofValueIn a (n + 1) v := by
  induction n with
  | zero =>
      intro v h m _
      rcases h with h | h
      · have hnone : a.form? (a.unparenthesized v) = none := by
          by_contra hne
          simp [valueFindings, Option.isSome_iff_ne_none.mpr hne] at h
        simp [Override.ofValueIn, hnone]
      · exact ofValueIn_name h m 0
  | succ n ih =>
      intro v h m hm
      obtain ⟨m, rfl⟩ : ∃ k, m = k + 1 := ⟨m - 1, by omega⟩
      have hentry := h.entry
      rcases h with h | h
      case inr => exact ofValueIn_name h _ _
      simp only [valueFindings] at h
      rw [Override.ofValueIn, Override.ofValueIn]
      split at h
      case h_2 elements hform =>
        -- Every entry passes on one level less.
        obtain ⟨k, hk, hentries⟩ := hentry (by simp [isObjectLiteral, hform])
        cases hk
        simp only [hform, Override.object.injEq]
        apply List.map_congr_left
        rintro ⟨key, w⟩ hw
        rw [ih (hentries key w hw) m (by omega)]
      case h_5 elements hform =>
        simp only [hform]
        cases elements with
        | nil => rfl
        | cons first rest => simp only [ih (Or.inl h) m (by omega)]
      case h_7 => cases h
      all_goals
        rename_i hform
        simp only [hform]

theorem Accepts.ofValueIn_eq_ofValue {n : Nat} {v : Child} (h : a.Accepts n v)
    (hn : n ≤ maxMetaDepth) : Override.ofValueIn a (n + 1) v = Override.ofValue a v :=
  (h.ofValueIn_eq maxMetaDepth hn).symm

end Arena

end PropContract
