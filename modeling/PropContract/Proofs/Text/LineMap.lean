import Mathlib.Data.List.TakeWhile
import PropContract.Proofs.Text.Boundary
import PropContract.Text.LineMap

/-!
# Lines and columns are exact

The line of an offset is how many lines end in front of it, and the column how many characters stand behind
the last of these ends. So the positions of a text come in the order of its offsets.
-/

namespace PropContract.Text

/-- Whether character `i` is a carriage return without a line feed. -/
def loneReturn (cs : List Char) (i : Nat) : Bool :=
  cs[i]? == some '\r' && cs[i + 1]? != some '\n'

/-- Whether a line ends behind character `i`: behind a line feed, alone or after a carriage return, and
behind a carriage return without a line feed. -/
def endsLine (cs : List Char) (i : Nat) : Bool :=
  cs[i]? == some '\n' || loneReturn cs i

namespace Position

/-- The position in front of character `k`: how many lines end before it, and how many characters stand
behind the last of these ends. -/
def before (cs : List Char) (k : Nat) : Position where
  line := (List.range k).countP (endsLine cs)
  column := ((List.range k).reverse.takeWhile fun i => !endsLine cs i).length

/-- Positions come in the order of lines, and in a line in the order of columns. -/
instance : LT Position where
  lt p q := p.line < q.line ∨ p.line = q.line ∧ p.column < q.column

variable {cs : List Char} {k m : Nat} {p q r : Position}

theorem lt_iff : p < q ↔ p.line < q.line ∨ p.line = q.line ∧ p.column < q.column := Iff.rfl

theorem ne_of_lt (h : p < q) : p ≠ q := by
  rintro rfl
  rw [lt_iff] at h
  omega

theorem lt_trans (h : p < q) (h' : q < r) : p < r := by
  rw [lt_iff] at *
  omega

/-- A character is one more column, or ends the line. -/
theorem before_succ (cs : List Char) (k : Nat) :
    before cs (k + 1) =
      if endsLine cs k then { line := (before cs k).line + 1, column := 0 }
      else { line := (before cs k).line, column := (before cs k).column + 1 } := by
  cases h : endsLine cs k <;> simp [before, List.range_succ, h]

theorem column_before_le (cs : List Char) (k : Nat) : (before cs k).column ≤ k := by
  induction k with
  | zero => exact Nat.le_refl 0
  | succ k ih =>
      rw [before_succ]
      split
      · exact Nat.zero_le _
      · exact Nat.succ_le_succ ih

theorem before_lt_succ (cs : List Char) (k : Nat) : before cs k < before cs (k + 1) := by
  rw [before_succ, lt_iff]
  split
  · exact .inl (Nat.lt_succ_self _)
  · exact .inr ⟨rfl, Nat.lt_succ_self _⟩

theorem before_strictMono (cs : List Char) (hlt : k < m) : before cs k < before cs m := by
  induction hlt with
  | refl => exact before_lt_succ cs k
  | step _ ih => exact lt_trans ih (before_lt_succ cs _)

end Position

/-! ## Where lines begin -/

/-- The first character of the line that goes on in front of character `k`. -/
def lineStart (cs : List Char) (k : Nat) : Nat := k - (Position.before cs k).column

section

variable (cs : List Char) (k : Nat)

theorem lineStart_add_column : lineStart cs k + (Position.before cs k).column = k :=
  Nat.sub_add_cancel (Position.column_before_le cs k)

theorem lineStart_le : lineStart cs k ≤ k := Nat.sub_le _ _

theorem lineStart_succ : lineStart cs (k + 1) = if endsLine cs k then k + 1 else lineStart cs k := by
  rw [lineStart, Position.before_succ]
  split
  · rfl
  · exact Nat.add_sub_add_right _ _ _

/-- A line is where it begins. -/
theorem before_lineStart :
    Position.before cs (lineStart cs k) = { line := (Position.before cs k).line, column := 0 } := by
  induction k with
  | zero => rfl
  | succ k ih =>
      rw [lineStart_succ]
      cases hends : endsLine cs k with
      | true => simp [Position.before_succ, hends]
      | false => simpa [Position.before_succ, hends] using ih

end

/-- A line begins behind the end of one. -/
theorem endsLine_of_lineStart {cs : List Char} {j k : Nat} (h : lineStart cs k = j + 1) : endsLine cs j = true := by
  induction k with
  | zero => cases h
  | succ k ih =>
      rw [lineStart_succ] at h
      split at h
      · rename_i hends
        rwa [← Nat.succ.inj h]
      · exact ih h

/-! ## Offsets -/

/-- The offset of character `k`. -/
def offsetOf (cs : List Char) (k : Nat) : Nat := width (cs.take k)

variable {cs : List Char} {c : Char} {i j k : Nat}

theorem width_cons (c : Char) (cs : List Char) : width (c :: cs) = c.utf8Size + width cs := by
  rw [width, bytesOf_cons, List.length_append, String.length_utf8EncodeChar]
  rfl

theorem offsetOf_cons_succ (c : Char) (cs : List Char) (k : Nat) :
    offsetOf (c :: cs) (k + 1) = c.utf8Size + offsetOf cs k := width_cons c _

theorem offsetOf_add (cs : List Char) (j n : Nat) :
    offsetOf cs (j + n) = offsetOf cs j + width ((cs.drop j).take n) := by
  rw [offsetOf, List.take_add, width_append, offsetOf]

theorem offsetOf_length (cs : List Char) : offsetOf cs cs.length = width cs := by
  rw [offsetOf, List.take_length]

theorem offsetOf_lt (hlt : j < k) (hj : j < cs.length) : offsetOf cs j < offsetOf cs k := by
  obtain ⟨n, rfl⟩ := Nat.exists_eq_add_of_lt hlt
  have hchars : 0 < ((cs.drop j).take (n + 1)).length := by
    rw [List.length_take, List.length_drop]
    omega
  rw [Nat.add_assoc, offsetOf_add]
  exact Nat.lt_add_of_pos_right (Nat.lt_of_lt_of_le hchars (length_le_width _))

theorem offsetOf_mono (hle : j ≤ k) : offsetOf cs j ≤ offsetOf cs k := by
  obtain ⟨n, rfl⟩ := Nat.exists_eq_add_of_le hle
  rw [offsetOf_add]
  exact Nat.le_add_right _ _

@[simp] theorem endsLine_cons_succ (c : Char) (cs : List Char) (i : Nat) :
    endsLine (c :: cs) (i + 1) = endsLine cs i := by
  simp [endsLine, loneReturn]

/-- The ends of the lines of a text are those behind its first character and those of the rest. -/
theorem map_filter_endsLine_cons {α : Type} (f : Nat → α) (c : Char) (cs : List Char) :
    ((List.range (c :: cs).length).filter (endsLine (c :: cs))).map f =
      (if endsLine (c :: cs) 0 then [f 0] else []) ++
        ((List.range cs.length).filter (endsLine cs)).map fun i => f (i + 1) := by
  have hrest : (List.map Nat.succ (List.range cs.length)).filter (endsLine (c :: cs)) =
      ((List.range cs.length).filter (endsLine cs)).map Nat.succ := by
    rw [List.filter_map]
    exact congrArg _ (List.filter_congr fun i _ => endsLine_cons_succ c cs i)
  rw [List.length_cons, List.range_succ_eq_map, List.filter_cons, hrest]
  split <;> simp [Function.comp_def]

/-! ## The map -/

namespace LineMap

theorem startsFrom_eq (pos : Nat) (cs : List Char) :
    startsFrom pos cs = ((List.range cs.length).filter (endsLine cs)).map fun i => pos + offsetOf cs (i + 1) := by
  fun_induction startsFrom pos cs with
  | case1 => rfl
  | case2 pos rest ih =>
      have hreturn : endsLine ('\r' :: '\n' :: rest) 0 = false := rfl
      have hfeed : endsLine ('\n' :: rest) 0 = true := rfl
      have hwidth (i : Nat) : pos + offsetOf ('\r' :: '\n' :: rest) (i + 1 + 1) = pos + 2 + offsetOf rest i := by
        rw [offsetOf_cons_succ, offsetOf_cons_succ, ← Nat.add_assoc, ← Nat.add_assoc]
        rfl
      rw [map_filter_endsLine_cons, hreturn, map_filter_endsLine_cons, hfeed, ih]
      simp only [hwidth]
      rfl
  | case3 pos c rest hcrlf next hbreak ih =>
      have hends : endsLine (c :: rest) 0 = true := by
        rcases hbreak with rfl | rfl
        · rfl
        · cases rest with
          | nil => rfl
          | cons d rest =>
              have hd : d ≠ '\n' := by
                rintro rfl
                exact hcrlf rest rfl rfl
              simp [endsLine, loneReturn, hd]
      rw [map_filter_endsLine_cons, hends, ih]
      simp only [offsetOf_cons_succ, Nat.add_assoc, next]
      rfl
  | case4 pos c rest hcrlf next hbreak ih =>
      have hends : endsLine (c :: rest) 0 = false := by
        rw [not_or] at hbreak
        simp [endsLine, loneReturn, hbreak.1, hbreak.2]
      rw [map_filter_endsLine_cons, hends, ih]
      simp only [offsetOf_cons_succ, Nat.add_assoc, next]
      rfl

/-- The text begins a line, and so does every character behind the end of one. -/
theorem starts_ofText (text : String) :
    (ofText text).starts =
      0 :: ((List.range text.toList.length).filter (endsLine text.toList)).map fun i => offsetOf text.toList (i + 1) := by
  rw [ofText, startsFrom_eq]
  simp only [Nat.zero_add]

/-- The starts up to an offset are those of the lines that have ended there. -/
theorem takeWhile_starts {text : String} (hk : k ≤ text.toList.length) :
    (ofText text).starts.takeWhile (· ≤ offsetOf text.toList k) =
      0 :: ((List.range k).filter (endsLine text.toList)).map fun i => offsetOf text.toList (i + 1) := by
  obtain ⟨n, hn⟩ := Nat.exists_eq_add_of_le hk
  rw [starts_ofText, List.takeWhile_cons_of_pos (by simp), hn, List.range_add, List.filter_append, List.map_append,
    List.takeWhile_append_of_pos]
  · generalize hlater : ((List.map (k + ·) (List.range n)).filter (endsLine text.toList)).map _ = later
    have hnone : ∀ x ∈ later, ¬ x ≤ offsetOf text.toList k := by
      intro x hx
      simp only [← hlater, List.mem_map, List.mem_filter, List.mem_range] at hx
      obtain ⟨_, ⟨⟨i, hi, rfl⟩, -⟩, rfl⟩ := hx
      exact Nat.not_le_of_lt (offsetOf_lt (by omega) (by omega))
    cases later with
    | nil => simp
    | cons x later => simp [hnone x List.mem_cons_self]
  · intro x hx
    simp only [List.mem_map, List.mem_filter, List.mem_range] at hx
    obtain ⟨i, ⟨hi, -⟩, rfl⟩ := hx
    exact decide_eq_true (offsetOf_mono hi)

/-- The last of them is where the line of the offset begins. -/
theorem getLastD_starts (cs : List Char) (k : Nat) :
    (0 :: ((List.range k).filter (endsLine cs)).map fun i => offsetOf cs (i + 1)).getLastD 0 =
      offsetOf cs (lineStart cs k) := by
  induction k with
  | zero => rfl
  | succ k ih =>
      rw [lineStart_succ, List.range_succ, List.filter_append, List.map_append]
      cases hends : endsLine cs k with
      | true =>
          rw [List.filter_cons_of_pos hends, ← List.cons_append]
          exact List.getLastD_concat
      | false => simpa [hends] using ih

/-- Between two offsets stand the characters from the one to the other. -/
theorem slice_offsetOf {text : String} (hle : j ≤ k) :
    (Source.ofString text).slice (offsetOf text.toList j) (offsetOf text.toList k) =
      String.ofList ((text.toList.drop j).take (k - j)) := by
  have hrest : (Source.ofString text).Rest (0 + width (text.toList.take j))
      ((text.toList.drop j).take (k - j) ++ (text.toList.drop j).drop (k - j)) := by
    apply Source.Rest.drop
    rw [List.take_append_drop, List.take_append_drop]
    exact (Source.ofString text).rest_zero
  rw [Nat.zero_add] at hrest
  have hk : offsetOf text.toList k = offsetOf text.toList j + width ((text.toList.drop j).take (k - j)) := by
    rw [← offsetOf_add, Nat.add_sub_cancel' hle]
  rw [hk]
  exact hrest.slice

/-- The position at the offset of a character. -/
theorem position_offsetOf {text : String} (hk : k ≤ text.toList.length) :
    (ofText text).position (.ofString text) (offsetOf text.toList k) = .before text.toList k := by
  have hsize : offsetOf text.toList k ≤ (Source.ofString text).size := by
    rw [Source.size_ofString, ← Source.width_toList, ← offsetOf_length]
    exact offsetOf_mono hk
  have hstart : offsetOf text.toList (lineStart text.toList k) ≤ offsetOf text.toList k :=
    offsetOf_mono (lineStart_le _ k)
  have hlength : ((text.toList.drop (lineStart text.toList k)).take (k - lineStart text.toList k)).length =
      (Position.before text.toList k).column := by
    have hcolumn := lineStart_add_column text.toList k
    rw [List.length_take, List.length_drop]
    omega
  simp only [position]
  rw [takeWhile_starts hk, getLastD_starts, Nat.min_eq_left hsize, Nat.min_eq_left hstart,
    slice_offsetOf (lineStart_le _ k), String.length_ofList, hlength]
  simp [Position.before, List.countP_eq_length_filter]

/-- No line begins behind the end of the text. -/
theorem position_of_size_le {text : String} {offset : Nat} (hle : text.utf8ByteSize ≤ offset) :
    (ofText text).position (.ofString text) offset = (ofText text).position (.ofString text) text.utf8ByteSize := by
  have hall : ∀ start ∈ (ofText text).starts, start ≤ text.utf8ByteSize := by
    intro start hstart
    rw [← Source.width_toList, ← offsetOf_length]
    rw [starts_ofText] at hstart
    simp only [List.mem_cons, List.mem_map, List.mem_filter, List.mem_range] at hstart
    rcases hstart with rfl | ⟨i, ⟨hi, -⟩, rfl⟩
    · exact Nat.zero_le _
    · exact offsetOf_mono hi
  have hbegun (stop : Nat) (hstop : text.utf8ByteSize ≤ stop) :
      (ofText text).starts.takeWhile (· ≤ stop) = (ofText text).starts :=
    List.takeWhile_eq_self_iff.mpr fun start hstart => decide_eq_true (Nat.le_trans (hall start hstart) hstop)
  simp only [position, hbegun _ hle, hbegun _ (Nat.le_refl _), Source.size_ofString, Nat.min_eq_right hle,
    Nat.min_self]

/-! ## Searching for a start -/

theorem starts_sorted (text : String) : (ofText text).starts.Pairwise (· < ·) := by
  rw [starts_ofText, List.pairwise_cons]
  constructor
  · intro start hstart
    simp only [List.mem_map, List.mem_filter, List.mem_range] at hstart
    obtain ⟨i, ⟨hi, -⟩, rfl⟩ := hstart
    exact Nat.lt_of_le_of_lt (Nat.zero_le _) (offsetOf_lt (Nat.succ_pos i) (Nat.zero_lt_of_lt hi))
  · rw [List.pairwise_map]
    refine (List.pairwise_lt_range.filter _).imp_of_mem fun hi hj hlt => ?_
    simp only [List.mem_filter, List.mem_range] at hi hj
    exact offsetOf_lt (Nat.succ_lt_succ hlt) (by omega)

/-- The starts up to an offset are counted where they part from those past it. -/
theorem length_takeWhile_le {starts : List Nat} {m offset : Nat} (hle : ∀ start ∈ starts.take m, start ≤ offset)
    (hlt : ∀ start ∈ starts.drop m, offset < start) (hm : m ≤ starts.length) :
    (starts.takeWhile (· ≤ offset)).length = m := by
  have hbehind : (starts.drop m).takeWhile (· ≤ offset) = [] := by
    rw [List.takeWhile_eq_nil_iff]
    exact fun hpos hstart => absurd (hlt _ (List.get_mem _ ⟨0, hpos⟩)) (Nat.not_lt_of_le (of_decide_eq_true hstart))
  rw [← List.take_append_drop m starts,
    List.takeWhile_append_of_pos fun start hstart => decide_eq_true (hle start hstart), hbehind, List.append_nil,
    List.length_take, Nat.min_eq_left hm]

/-- An offset that a search of the starts finds at an index is on the line of that index. -/
theorem line_of_getElem? {text : String} {offset i : Nat} (s : Source)
    (hfound : (ofText text).starts[i]? = some offset) : ((ofText text).position s offset).line = i := by
  have hsorted := List.pairwise_iff_getElem.mp (starts_sorted text)
  simp only [position]
  generalize (ofText text).starts = starts at *
  obtain ⟨hi, rfl⟩ := List.getElem?_eq_some_iff.mp hfound
  rw [length_takeWhile_le (m := i + 1) ?_ ?_ hi, Nat.add_sub_cancel]
  · intro start hstart
    obtain ⟨j, hj, rfl⟩ := List.mem_take_iff_getElem.mp hstart
    rcases Nat.eq_or_lt_of_le (Nat.le_of_lt_succ (Nat.lt_of_lt_of_le hj (Nat.min_le_left _ _))) with rfl | hlt
    · exact Nat.le_refl _
    · exact Nat.le_of_lt (hsorted j i _ hi hlt)
  · intro start hstart
    obtain ⟨j, hj, rfl⟩ := List.mem_drop_iff_getElem.mp hstart
    exact hsorted i _ hi _ (by omega)

/-- An offset that it does not find is on the line in front of the index where it would be put in. -/
theorem line_of_insertion {text : String} {offset i : Nat} (s : Source) (hi : i ≤ (ofText text).starts.length)
    (hbefore : ∀ start ∈ (ofText text).starts.take i, start < offset)
    (hbehind : ∀ start ∈ (ofText text).starts.drop i, offset < start) :
    ((ofText text).position s offset).line = i - 1 := by
  simp only [position]
  rw [length_takeWhile_le (fun start hstart => Nat.le_of_lt (hbefore start hstart)) hbehind hi]

end LineMap

/-! ## Positions of offsets -/

/-- An offset where whole characters stand before it is that of a character. -/
theorem exists_offsetOf {text : String} {offset : Nat} (h : (Source.ofString text).OnBoundary offset) :
    ∃ k ≤ text.toList.length, offset = offsetOf text.toList k := by
  obtain ⟨ds, cs, hrest, hoffset⟩ := (Source.onBoundary_zero _).exists_rest h (Nat.zero_le _)
  have htext : text.toList = ds ++ cs := (Source.ofString text).rest_zero.unique hrest
  refine ⟨ds.length, ?_, ?_⟩
  · rw [htext, List.length_append]
    exact Nat.le_add_right _ _
  · rw [hoffset, Nat.zero_add, offsetOf, htext, List.take_left]

theorem LineMap.position_append (before behind : String) :
    (ofText (before ++ behind)).position (.ofString (before ++ behind)) before.utf8ByteSize =
      .before (before ++ behind).toList before.length := by
  have hlength : before.length ≤ (before ++ behind).toList.length := by
    rw [String.toList_append, List.length_append]
    exact Nat.le_add_right _ _
  have hoffset : offsetOf (before ++ behind).toList before.length = before.utf8ByteSize := by
    rw [offsetOf, String.toList_append, ← String.length_toList, List.take_left, Source.width_toList]
  rw [← hoffset, position_offsetOf hlength]

/-- The position at an offset between characters is how many lines have ended there and how many characters
stand behind the last end, so positions follow offsets. Past the end of the text it is that of the end. -/
theorem LineMap.position_exact (text : String) :
    (∀ before behind : String, text = before ++ behind →
      (ofText text).position (.ofString text) before.utf8ByteSize = .before text.toList before.length) ∧
    (∀ offset offset' : Nat, (Source.ofString text).OnBoundary offset → (Source.ofString text).OnBoundary offset' →
      offset < offset' →
      (ofText text).position (.ofString text) offset < (ofText text).position (.ofString text) offset' ∧
        (ofText text).position (.ofString text) offset ≠ (ofText text).position (.ofString text) offset') ∧
    ∀ offset : Nat, text.utf8ByteSize ≤ offset →
      (ofText text).position (.ofString text) offset = (ofText text).position (.ofString text) text.utf8ByteSize := by
  refine ⟨?_, ?_, fun offset hle => position_of_size_le hle⟩
  · rintro before behind rfl
    exact position_append before behind
  · intro offset offset' h h' hlt
    obtain ⟨k, hk, rfl⟩ := exists_offsetOf h
    obtain ⟨m, hm, rfl⟩ := exists_offsetOf h'
    have hkm : k < m := by
      apply Nat.lt_of_not_le
      exact fun hle => absurd hlt (Nat.not_lt_of_le (offsetOf_mono hle))
    rw [position_offsetOf hk, position_offsetOf hm]
    have hbefore := Position.before_strictMono text.toList hkm
    exact ⟨hbefore, Position.ne_of_lt hbefore⟩

/-- Behind the first line, between a carriage return and its line feed, at a lone carriage return, and past the
end. -/
theorem LineMap.position_exact_mixed :
    let text := "a\nb\r\né\rc"
    let position := (ofText text).position (.ofString text)
    text = "a\nb\r" ++ "\né\rc" ∧ position 4 = { line := 1, column := 2 } ∧
      (Source.ofString text).OnBoundary 4 ∧ (Source.ofString text).OnBoundary 7 ∧ 4 < 7 ∧ position 4 < position 7 ∧
      position 4 ≠ position 7 ∧ text.utf8ByteSize ≤ 12 ∧ position 12 = { line := 3, column := 1 } := by
  intro text position
  obtain ⟨hplace, hmono, hpast⟩ := LineMap.position_exact text
  have hreturn : (Source.ofString text).OnBoundary 4 := Source.onBoundary_append "a\nb\r" "\né\rc"
  have hwide : (Source.ofString text).OnBoundary 7 := Source.onBoundary_append "a\nb\r\né" "\rc"
  obtain ⟨hlt, hne⟩ := hmono 4 7 hreturn hwide (by decide)
  refine ⟨by decide, ?_, hreturn, hwide, by decide, hlt, hne, by decide, ?_⟩
  · exact (hplace "a\nb\r" "\né\rc" (by decide)).trans (by decide)
  · have hend := hplace text "" (by decide)
    exact (hpast 12 (by decide)).trans (hend.trans (by decide))

end PropContract.Text
