import PropContract.Proofs.Text.Boundary

/-!
# Texts with a common front

Two texts that have the same bytes up to an offset are read in the same way as long as reading stays in front
of it.
-/

namespace PropContract.Text.Source

/-- Whether two sources have the same bytes up to an offset. -/
structure Agree (t s : Source) (stop : Nat) : Prop where
  bytes : t.bytes.data.toList.take stop = s.bytes.data.toList.take stop
  le_left : stop ≤ t.size
  le_right : stop ≤ s.size

theorem agree_append (a b b' : String) : (ofString (a ++ b)).Agree (ofString (a ++ b')) a.utf8ByteSize where
  bytes := by
    rw [bytes_append, bytes_append, ← width_toList, width, List.take_left, List.take_left]
  le_left := by
    rw [size_ofString, String.utf8ByteSize_append]
    exact Nat.le_add_right _ _
  le_right := by
    rw [size_ofString, String.utf8ByteSize_append]
    exact Nat.le_add_right _ _

/-- A text has all its bytes in common with what goes on behind it. -/
theorem agree_front (a b : String) : (ofString (a ++ b)).Agree (ofString a) a.utf8ByteSize := by
  have happend := agree_append a b ""
  rwa [String.append_empty] at happend

variable {t s : Source} {pos start stop q n : Nat} {p : Char → Bool}

theorem Agree.symm (h : t.Agree s stop) : s.Agree t stop := ⟨h.bytes.symm, h.le_right, h.le_left⟩

/-- A search finds the first offset with the property. -/
theorem findIn_of_first (hle : pos ≤ q) (hlt : q < pos + n) (hq : p (s.charAt q) = true)
    (hfirst : ∀ i, pos ≤ i → i < q → p (s.charAt i) = false) : s.findIn p n pos = some q := by
  induction n generalizing pos with
  | zero => omega
  | succ n ih =>
      rw [findIn]
      rcases Nat.eq_or_lt_of_le hle with rfl | hlt'
      · rw [if_pos hq]
      · rw [if_neg (Bool.eq_false_iff.mp (hfirst pos (Nat.le_refl pos) hlt'))]
        exact ih hlt' (by omega) fun i hi => hfirst i (Nat.le_of_succ_le hi)

namespace Agree

variable (h : t.Agree s stop)

include h

theorem byte? (hpos : pos < stop) : s.byte? pos = t.byte? pos := by
  have hbyte (r : Source) : r.byte? pos = r.bytes.data.toList[pos]? := by
    rw [byte?_of_drop rfl, List.head?_drop]
  rw [hbyte, hbyte, ← List.getElem?_take_of_lt hpos, ← h.bytes, List.getElem?_take_of_lt hpos]

theorem charAt (hpos : pos < stop) : s.charAt pos = t.charAt pos := by
  rw [Source.charAt, h.byte? hpos, Source.charAt]

theorem slice (hq : q ≤ stop) : s.slice start q = t.slice start q := by
  have hextract : s.bytes.extract start q = t.bytes.extract start q := by
    apply ByteArray.ext
    apply Array.ext'
    rw [ByteArray.data_extract, ByteArray.data_extract, Array.toList_extract, Array.toList_extract,
      List.extract_eq_take_drop, List.extract_eq_take_drop, List.take_drop, List.take_drop]
    by_cases hle : start ≤ q
    · rw [Nat.add_sub_cancel' hle, ← Nat.min_eq_left hq, ← List.take_take, ← List.take_take, h.bytes]
    · rw [Nat.sub_eq_zero_of_le (Nat.le_of_not_le hle), Nat.add_zero]
      simp
  have hright := h.le_right
  have hleft := h.le_left
  rw [Source.slice, Source.slice, hextract]
  simp only [Nat.le_trans hq hright, Nat.le_trans hq hleft]

theorem findIn (hn : pos + n ≤ stop) : s.findIn p n pos = t.findIn p n pos := by
  induction n generalizing pos with
  | zero => rfl
  | succ n ih => rw [Source.findIn, Source.findIn, h.charAt (by omega), ih (by omega)]

/-- What a search finds in the common front of one text it finds in the other. -/
theorem find? (hq : t.find? p pos = some q) (hlt : q < stop) : s.find? p pos = some q := by
  obtain ⟨hle, -, hhere, hfirst⟩ := findIn_eq_some hq
  have hright := h.le_right
  refine findIn_of_first hle (by omega) ?_ fun i hi hiq => ?_
  · rw [h.charAt hlt]
    exact hhere
  · rw [h.charAt (Nat.lt_trans hiq hlt)]
    exact hfirst i hi hiq

/-- A run of bytes that does not go past the common front is one of the other text if it ends there too. -/
theorem skipWhile (hq : t.skipWhile p pos = q) (hle : q ≤ stop) (hend : p (s.charAt q) = false) :
    s.skipWhile p pos = q := by
  have hleft := h.le_left
  have hright := h.le_right
  have hpos : pos ≤ q := hq ▸ t.le_skipWhile p pos
  obtain ⟨-, -, -, hall⟩ := skipWhile_spec (s := t) (p := p) (Nat.le_trans hpos (Nat.le_trans hle hleft))
  rw [hq] at hall
  have hrun : ∀ i, pos ≤ i → i < q → (!p (s.charAt i)) = false := by
    intro i hi hiq
    rw [h.charAt (by omega), hall i hi hiq]
    rfl
  rw [Source.skipWhile]
  rcases Nat.eq_or_lt_of_le (Nat.le_trans hle hright) with hsize | hlt
  · have hnone : s.find? (fun c => !p c) pos = none := by
      cases hfind : s.find? (fun c => !p c) pos with
      | none => rfl
      | some r =>
          obtain ⟨hr, hlt, hhere⟩ := find?_eq_some hfind
          rw [hrun r hr (by omega)] at hhere
          cases hhere
    rw [hnone, Option.getD_none, ← hsize, Nat.max_eq_right hpos]
  · have hfind : s.find? (fun c => !p c) pos = some q :=
      findIn_of_first hpos (by omega) (by rw [hend]; rfl) hrun
    rw [hfind, Option.getD_some]

theorem skipBack (hpos : pos ≤ stop) : s.skipBack p pos = t.skipBack p pos := by
  induction pos with
  | zero => rfl
  | succ n ih => rw [Source.skipBack, Source.skipBack, h.charAt hpos, ih (Nat.le_of_succ_le hpos)]

/-- Bytes in front of the offset where the texts part stand in both. -/
theorem holdsAt {w : List UInt8} (hw : pos + w.length ≤ stop) : s.holdsAt pos w = t.holdsAt pos w := by
  induction w generalizing pos with
  | nil =>
      have hleft := h.le_left
      have hright := h.le_right
      rw [List.length_nil, Nat.add_zero] at hw
      simp only [Source.holdsAt, Nat.le_trans hw hleft, Nat.le_trans hw hright]
  | cons b w ih =>
      rw [List.length_cons] at hw
      rw [Source.holdsAt, Source.holdsAt, h.byte? (by omega), ih (by omega)]

end Agree

end PropContract.Text.Source
