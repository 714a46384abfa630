import PropContract.Proofs.Text.Agree

/-!
# A text at the front of a larger one

What is found in the shorter text is found in the larger one. A run of bytes ends where the shorter text
does, if the character after it does not go on with the run.
-/

namespace PropContract.Text.Source

/-- Whether a source is `s`, the character `c`, and then anything. -/
structure Extends (t s : Source) (c : Char) : Prop where
  bytes : t.bytes.data.toList.take s.size = s.bytes.data.toList
  lt : s.size < t.size
  next : t.charAt s.size = c

theorem extends_append {a b : String} {c : Char} {cs : List Char} (hb : b.toList = c :: cs) (hc : c.toNat < 0x80) :
    (ofString (a ++ b)).Extends (ofString a) c where
  bytes := by
    rw [bytes_append, size_ofString, ← width_toList, bytes_toList]
    exact List.take_left
  lt := by
    rw [size_ofString, size_ofString, String.utf8ByteSize_append, ← width_toList b, hb, width_ascii hc]
    omega
  next := by
    have hdrop : (ofString (a ++ b)).bytes.data.toList.drop (ofString a).size = bytesOf (c :: cs) := by
      rw [bytes_append, size_ofString, ← width_toList, ← hb]
      exact List.drop_left
    rw [charAt_of_drop hdrop, bytesOf_cons, utf8EncodeChar_ascii hc]
    exact ofUInt8_ascii hc

variable {t s : Source} {c : Char} {pos start stop q : Nat} {p : Char → Bool}

namespace Extends

variable (h : t.Extends s c)

include h

theorem agree : s.Agree t s.size where
  bytes := by
    rw [h.bytes]
    exact List.take_length
  le_left := Nat.le_refl _
  le_right := Nat.le_of_lt h.lt

theorem byte? (hpos : pos < s.size) : t.byte? pos = s.byte? pos := h.agree.byte? hpos

theorem charAt (hpos : pos < s.size) : t.charAt pos = s.charAt pos := h.agree.charAt hpos

/-- A test tells nothing more at the end of the shorter text if the character after it fails. -/
theorem test (hp : p c = p '\x00') (hpos : pos ≤ s.size) : p (t.charAt pos) = p (s.charAt pos) := by
  rcases Nat.eq_or_lt_of_le hpos with rfl | hlt
  · rw [h.next, hp, charAt_of_size_le (Nat.le_refl _)]
  · rw [h.charAt hlt]

theorem slice (hstop : stop ≤ s.size) : t.slice start stop = s.slice start stop := h.agree.slice hstop

theorem skipWhile (hp : p c = false) (hpos : pos ≤ s.size) : t.skipWhile p pos = s.skipWhile p pos := by
  obtain ⟨-, hle, hstop, -⟩ := skipWhile_spec (p := p) hpos
  refine h.agree.skipWhile rfl hle ?_
  rcases Nat.eq_or_lt_of_le hle with heq | hlt
  · rw [heq, h.next, hp]
  · rw [h.charAt hlt, hstop hlt]

/-- The character after the shorter text goes on with nothing that begins in it. -/
theorem holdsAt {w : List UInt8} (hw : ∀ b ∈ w.tail, Char.ofUInt8 b ≠ c) (hpos : pos < s.size) :
    t.holdsAt pos w = s.holdsAt pos w := by
  have rest {w : List UInt8} {pos : Nat} (hw : ∀ b ∈ w, Char.ofUInt8 b ≠ c) (hpos : pos ≤ s.size) :
      t.holdsAt pos w = s.holdsAt pos w := by
    induction w generalizing pos with
    | nil =>
        rw [Source.holdsAt, Source.holdsAt, decide_eq_true hpos,
          decide_eq_true (Nat.le_trans hpos (Nat.le_of_lt h.lt))]
    | cons b w ih =>
        rw [Source.holdsAt, Source.holdsAt]
        rcases Nat.eq_or_lt_of_le hpos with rfl | hlt
        · have hshort : s.byte? s.size = none := by
            rw [byte?_of_drop s.rest_size.drop_bytes]
            rfl
          have hlong : (t.byte? s.size == some b) = false := by
            apply beq_eq_false_iff_ne.mpr
            intro heq
            refine hw b List.mem_cons_self (h.next.symm.trans ?_).symm
            rw [Source.charAt, heq]
            rfl
          rw [hshort, hlong]
          rfl
        · rw [h.byte? hlt, ih (fun b hb => hw b (List.mem_cons_of_mem _ hb)) hlt]
  cases w with
  | nil => exact rest (fun _ hb => absurd hb List.not_mem_nil) (Nat.le_of_lt hpos)
  | cons b w =>
      have htail : t.holdsAt (pos + 1) w = s.holdsAt (pos + 1) w := rest hw hpos
      rw [Source.holdsAt, Source.holdsAt, h.byte? hpos, htail]

end Extends

end PropContract.Text.Source
