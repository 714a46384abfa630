import PropContract.Proofs.Text.Boundary

/-!
# A text at the end of a larger one

Reading from an offset of the shorter text on is reading from the same place of the larger one.
-/

namespace PropContract.Text.Source

/-- Whether a source is `s` from an offset on. -/
structure EndsWith (t : Source) (offset : Nat) (s : Source) : Prop where
  bytes : t.bytes.data.toList.drop offset = s.bytes.data.toList
  le : offset ≤ t.size

theorem EndsWith.refl (s : Source) : s.EndsWith 0 s := ⟨rfl, Nat.zero_le _⟩

theorem endsWith_append (a b : String) : (ofString (a ++ b)).EndsWith a.utf8ByteSize (ofString b) where
  bytes := by
    rw [bytes_append, ← width_toList, bytes_toList]
    exact List.drop_left
  le := by
    rw [size_ofString, String.utf8ByteSize_append]
    exact Nat.le_add_right _ _

variable {t s : Source} {offset pos start stop n : Nat} {p : Char → Bool}

namespace EndsWith

variable (h : t.EndsWith offset s)

include h

theorem size : t.size = offset + s.size := by
  have hlength := congrArg List.length h.bytes
  have hle := h.le
  rw [List.length_drop] at hlength
  change t.size - offset = s.size at hlength
  omega

theorem size_sub : t.size - (offset + pos) = s.size - pos := by
  rw [h.size, Nat.add_sub_add_left]

theorem byte? : t.byte? (offset + pos) = s.byte? pos := by
  have hdrop : t.bytes.data.toList.drop (offset + pos) = s.bytes.data.toList.drop pos := by
    rw [← List.drop_drop, h.bytes]
  rw [byte?_of_drop hdrop, byte?_of_drop rfl]

theorem charAt : t.charAt (offset + pos) = s.charAt pos := by
  rw [Source.charAt, h.byte?, Source.charAt]

theorem slice : t.slice (offset + start) (offset + stop) = s.slice start stop := by
  have hextract : t.bytes.extract (offset + start) (offset + stop) = s.bytes.extract start stop := by
    apply ByteArray.ext
    apply Array.ext'
    rw [ByteArray.data_extract, ByteArray.data_extract, Array.toList_extract, Array.toList_extract,
      ← h.bytes, List.extract_eq_take_drop, List.extract_eq_take_drop, List.drop_drop,
      Nat.add_sub_add_left]
  rw [Source.slice, Source.slice, h.size, hextract]
  simp only [Nat.add_le_add_iff_left]

theorem holdsAt (w : List UInt8) : t.holdsAt (offset + pos) w = s.holdsAt pos w := by
  induction w generalizing pos with
  | nil => simp only [Source.holdsAt, h.size, Nat.add_le_add_iff_left]
  | cons b w ih =>
      rw [Source.holdsAt, Source.holdsAt, h.byte?]
      exact congrArg _ (@ih (pos + 1))

theorem startsWithAt (w : String) : t.startsWithAt (offset + pos) w = s.startsWithAt pos w :=
  h.holdsAt _

theorem findIn : t.findIn p n (offset + pos) = (s.findIn p n pos).map (offset + ·) := by
  induction n generalizing pos with
  | zero => rfl
  | succ n ih =>
      rw [Source.findIn, Source.findIn, h.charAt]
      split
      · rfl
      · exact @ih (pos + 1)

theorem find? : t.find? p (offset + pos) = (s.find? p pos).map (offset + ·) := by
  rw [Source.find?, Source.find?, h.size_sub]
  exact h.findIn

theorem skipWhile : t.skipWhile p (offset + pos) = offset + s.skipWhile p pos := by
  rw [Source.skipWhile, Source.skipWhile, h.find?, h.size, Nat.add_max_add_left]
  cases s.find? (fun c => !p c) pos <;> rfl

/-- Going back stays in the shorter text where something in it stops it. -/
theorem skipBack {q : Nat} (hq : q < pos) (hstop : p (s.charAt q) = false) :
    t.skipBack p (offset + pos) = offset + s.skipBack p pos := by
  induction pos with
  | zero => exact absurd hq (Nat.not_lt_zero _)
  | succ n ih =>
      rw [← Nat.add_assoc, Source.skipBack, Source.skipBack, h.charAt]
      split
      · rename_i hp
        rcases Nat.eq_or_lt_of_le (Nat.le_of_lt_succ hq) with rfl | hlt
        · rw [hstop] at hp
          exact absurd hp (by decide)
        · exact ih hlt
      · rfl

end EndsWith

end PropContract.Text.Source
