import Mathlib.Data.List.TakeWhile
import PropContract.Proofs.Entries
import PropContract.Proofs.Text.LineMap
import PropContract.Report.Reporter

/-!
# The line a diagnostic points into

Lines are counted with lone carriage returns and shown without: a snippet has the line of its diagnostic where no
carriage return in front of it stands alone, and a later line or none at all elsewhere.
-/

namespace PropContract

namespace Text

/-- The line that goes on at character `k`, up to what ends it. -/
def lineAt (cs : List Char) (k : Nat) : List Char := (cs.drop (lineStart cs k)).takeWhile (!isLineBreak ·)

/-- What stands behind that line, with what ends it. -/
def behindLine (cs : List Char) (k : Nat) : List Char := (cs.drop (lineStart cs k)).dropWhile (!isLineBreak ·)

/-- Whether the marks are under the characters of a line that belong to the `n` characters from `k` on, behind a
blank for each character before them, which for a tab is a tab. -/
structure Underlines (cs : List Char) (k n : Nat) (marks : List Char) : Prop where
  blank : ∀ i, lineStart cs k + i < k → marks[i]? = some (if cs[lineStart cs k + i]? = some '\t' then '\t' else ' ')
  marked : ∀ i < (lineAt cs k).length,
    marks[i]? = some '~' ↔ k ≤ lineStart cs k + i ∧ lineStart cs k + i < k + n
  within : marks.length ≤ (lineAt cs k).length

/-- What may stand behind a line that is shown up to its end: nothing, a line feed with up to two carriage
returns in front of it, or a carriage return that ends the text. -/
def EndsShown (behind : List Char) : Prop :=
  behind = [] ∨ behind = ['\r'] ∨ ∃ n ≤ 2, ∃ more, behind = List.replicate n '\r' ++ '\n' :: more

variable {cs : List Char} {c : Char} {i j k n : Nat}

/-- What stands in front of a line feed is known where it holds none itself. -/
theorem eq_of_append_cons {l l' r r' : List Char} (hl : '\n' ∉ l) (hl' : '\n' ∉ l')
    (h : l ++ '\n' :: r = l' ++ '\n' :: r') : l = l' := by
  have hpieces := congrArg (List.splitOn '\n') h
  rw [List.splitOn_append_cons_self_of_not_mem hl, List.splitOn_append_cons_self_of_not_mem hl'] at hpieces
  exact (List.cons.inj hpieces).1

theorem lineAt_append_behindLine (cs : List Char) (k : Nat) :
    lineAt cs k ++ behindLine cs k = cs.drop (lineStart cs k) := List.takeWhile_append_dropWhile

theorem not_mem_lineAt (hc : isLineBreak c = true) : c ∉ lineAt cs k := by
  intro hmem
  have hnot := List.mem_takeWhile_imp hmem
  rw [hc] at hnot
  cases hnot

theorem endsShown_append_cons {returns more : List Char} (hnot : '\n' ∉ returns) :
    EndsShown (returns ++ '\n' :: more) ↔ ∃ n ≤ 2, returns = List.replicate n '\r' := by
  constructor
  · rintro (hnil | hreturn | ⟨n, hn, more', hmore⟩)
    · simp at hnil
    · have hmem : '\n' ∈ ['\r'] := hreturn ▸ List.mem_append_right _ List.mem_cons_self
      simp at hmem
    · have hreturns : '\n' ∉ List.replicate n '\r' := by simp
      exact ⟨n, hn, eq_of_append_cons hnot hreturns hmore⟩
  · rintro ⟨n, hn, rfl⟩
    exact .inr (.inr ⟨n, hn, more, rfl⟩)

theorem endsShown_of_not_mem {behind : List Char} (hnot : '\n' ∉ behind) :
    EndsShown behind ↔ behind = [] ∨ behind = ['\r'] := by
  refine or_congr_right ⟨?_, .inl⟩
  rintro (hreturn | ⟨n, -, more, rfl⟩)
  · exact hreturn
  · simp at hnot

/-- The number of a line is that of the line feeds and lone carriage returns in front of it. -/
theorem line_before (cs : List Char) (k : Nat) :
    (Position.before cs k).line = (cs.take k).count '\n' + (List.range k).countP (loneReturn cs) := by
  induction k with
  | zero => rfl
  | succ k ih =>
      have hline : (Position.before cs (k + 1)).line =
          (Position.before cs k).line + if endsLine cs k then 1 else 0 := by
        rw [Position.before_succ]
        split <;> rfl
      rw [hline, ih, List.take_add_one, List.count_append, List.range_succ, List.countP_append, List.countP_singleton,
        endsLine]
      have hcount : cs[k]?.toList.count '\n' = if cs[k]? == some '\n' then 1 else 0 := by
        cases cs[k]? <;> simp [List.count_singleton]
      rw [hcount]
      cases hfeed : cs[k]? == some '\n' with
      | true =>
          have hlone : loneReturn cs k = false := by simp [loneReturn, eq_of_beq hfeed]
          rw [hlone]
          exact Nat.add_right_comm _ _ _
      | false => exact Nat.add_assoc _ _ _

end Text

namespace Reporter

open Text

/-! ## Lines without their carriage returns -/

variable {line shown rest cs : List Char} {text : String}

theorem trimReturn_spec (line : List Char) : trimReturn line <+: line ∧
    (line = trimReturn line ∨ line = trimReturn line ++ ['\r']) := by
  rw [trimReturn]
  split
  · rename_i hlast
    obtain ⟨front, rfl⟩ := List.getLast?_eq_some_iff.mp hlast
    rw [List.dropLast_concat]
    exact ⟨List.prefix_append _ _, .inr rfl⟩
  · exact ⟨List.prefix_rfl, .inl rfl⟩

@[simp] theorem trimReturn_concat (line : List Char) : trimReturn (line ++ ['\r']) = line := by
  simp [trimReturn]

theorem trimReturn_of_not_mem (hline : '\r' ∉ line) : trimReturn line = line := by
  rcases (trimReturn_spec line).2 with hsame | hreturn
  · exact hsame.symm
  · rw [hreturn] at hline
    simp at hline

/-- One carriage return is trimmed, and no more. -/
theorem trimReturn_append_eq_iff (hline : '\r' ∉ line) :
    trimReturn (line ++ rest) = line ↔ rest = [] ∨ rest = ['\r'] := by
  constructor
  · intro htrim
    have hspec := (trimReturn_spec (line ++ rest)).2
    rw [htrim] at hspec
    simpa using hspec
  · rintro (rfl | rfl)
    · rw [List.append_nil, trimReturn_of_not_mem hline]
    · exact trimReturn_concat line

/-- Two are, where it is done twice. -/
theorem trimReturn_trimReturn_append_eq_iff (hline : '\r' ∉ line) :
    trimReturn (trimReturn (line ++ rest)) = line ↔ ∃ n ≤ 2, rest = List.replicate n '\r' := by
  constructor
  · intro htrim
    have hinner := (trimReturn_spec (trimReturn (line ++ rest))).2
    have houter := (trimReturn_spec (line ++ rest)).2
    rw [htrim] at hinner
    rcases hinner with hinner | hinner <;> rw [hinner] at houter <;>
      simp only [List.append_assoc, List.append_right_eq_self, List.append_cancel_left_eq] at houter
    · rcases houter with rfl | rfl
      · exact ⟨0, by decide, rfl⟩
      · exact ⟨1, by decide, rfl⟩
    · rcases houter with rfl | rfl
      · exact ⟨1, by decide, rfl⟩
      · exact ⟨2, by decide, rfl⟩
  · rintro ⟨n, hn, rfl⟩
    have htrim := trimReturn_of_not_mem hline
    match n, hn with
    | 0, _ => simpa using congrArg trimReturn htrim |>.trans htrim
    | 1, _ => simpa using htrim
    | 2, _ =>
        have htwo : line ++ List.replicate 2 '\r' = line ++ ['\r'] ++ ['\r'] := by simp [List.replicate]
        rw [htwo, trimReturn_concat, trimReturn_concat]

/-! ## Lines between line feeds -/

/-- A piece between line feeds has as many of them in front of it as pieces. -/
theorem splitOn_eq_append_cons {front more : List (List Char)} (h : cs.splitOn '\n' = front ++ line :: more) :
    ∃ before behind, cs = before ++ line ++ behind ∧ before.count '\n' = front.length ∧
      (front = [] → before = []) := by
  induction cs generalizing front line with
  | nil =>
      obtain ⟨rfl, rfl⟩ : front = [] ∧ line = [] := by
        cases front <;> simp_all
      exact ⟨[], [], rfl, rfl, fun _ => rfl⟩
  | cons c cs ih =>
      rw [List.splitOn_cons_eq_if_modifyHead] at h
      split at h
      · rename_i hfeed
        obtain rfl := eq_of_beq hfeed
        cases front with
        | nil =>
            obtain ⟨rfl, -⟩ := List.cons.inj h
            exact ⟨[], '\n' :: cs, rfl, rfl, fun _ => rfl⟩
        | cons first front =>
            obtain ⟨before, behind, rfl, hcount, -⟩ := ih (List.cons.inj h).2
            exact ⟨'\n' :: before, behind, rfl, by rw [List.count_cons_self, hcount, List.length_cons], nofun⟩
      · rename_i hfeed
        have hne : c ≠ '\n' := by simpa using hfeed
        obtain ⟨first, others, hsplit⟩ := List.exists_cons_of_ne_nil (List.splitOn_ne_nil '\n' cs)
        rw [hsplit, List.modifyHead_cons] at h
        cases front with
        | nil =>
            obtain ⟨rfl, rfl⟩ := List.cons.inj h
            have hfirst : cs.splitOn '\n' = [] ++ first :: others := hsplit
            obtain ⟨before, behind, rfl, -, hnil⟩ := ih hfirst
            obtain rfl := hnil rfl
            exact ⟨[], behind, rfl, rfl, fun _ => rfl⟩
        | cons first' front =>
            obtain ⟨rfl, rfl⟩ := List.cons.inj h
            have hlater : cs.splitOn '\n' = (first :: front) ++ line :: more := hsplit
            obtain ⟨before, behind, rfl, hcount, -⟩ := ih hlater
            exact ⟨c :: before, behind, rfl, by rw [List.count_cons_of_ne hne, hcount]; rfl, nofun⟩

theorem length_splitOn (cs : List Char) : (cs.splitOn '\n').length = cs.count '\n' + 1 := by
  induction cs with
  | nil => rfl
  | cons c cs ih =>
      rw [List.splitOn_cons_eq_if_modifyHead, List.count_cons]
      split <;> simp [ih]

/-- What follows a line feed begins a piece. -/
theorem splitOn_append {before : List Char} (hbefore : ∀ c ∈ before.getLast?, c = '\n') (cs : List Char) :
    ∃ front, (before ++ cs).splitOn '\n' = front ++ cs.splitOn '\n' ∧ front.length = before.count '\n' := by
  rcases List.eq_nil_or_concat before with rfl | ⟨before, c, rfl⟩
  · exact ⟨[], rfl, rfl⟩
  · obtain rfl : c = '\n' := hbefore c (by simp)
    refine ⟨before.splitOn '\n', ?_, ?_⟩
    · rw [List.concat_eq_append, List.append_assoc, List.singleton_append, List.splitOn_append_cons_self]
    · rw [length_splitOn, List.concat_eq_append, List.count_append, List.count_singleton_self]

/-- The line at an index, with the carriage return in front of its line feed gone. -/
theorem getElem?_lines {front more : List (List Char)} {piece : List Char}
    (h : text.toList.splitOn '\n' = front ++ piece :: more) :
    (lines text)[front.length]? =
      if more = [] then (if piece = [] then none else some piece) else some (trimReturn piece) := by
  rw [lines]
  simp only [h]
  cases more with
  | nil => cases piece <;> simp [Option.filter]
  | cons next more => simp

theorem length_lines_le (text : String) : (lines text).length ≤ (text.toList.splitOn '\n').length := by
  have hlast : ((text.toList.splitOn '\n').getLast?.filter (!·.isEmpty)).toList.length ≤ 1 := Option.length_toList_le
  have hne := List.length_pos_iff.mpr (List.splitOn_ne_nil '\n' text.toList)
  rw [lines]
  simp only [List.length_append, List.length_map, List.length_dropLast]
  omega

/-- A line that is shown begins behind as many line feeds as its index. -/
theorem exists_of_getElem?_lines {n : Nat} (h : (lines text)[n]? = some shown) :
    ∃ before behind, text.toList = before ++ trimReturn shown ++ behind ∧ before.count '\n' = n := by
  obtain ⟨hn, -⟩ := List.getElem?_eq_some_iff.mp h
  have hpieces := Nat.lt_of_lt_of_le hn (length_lines_le text)
  have hsplit : text.toList.splitOn '\n' = (text.toList.splitOn '\n').take n ++
      (text.toList.splitOn '\n')[n] :: (text.toList.splitOn '\n').drop (n + 1) := by
    rw [List.getElem_cons_drop, List.take_append_drop]
  have hfront : ((text.toList.splitOn '\n').take n).length = n := List.length_take_of_le (Nat.le_of_lt hpieces)
  obtain ⟨piece, hpiece⟩ : ∃ piece, (text.toList.splitOn '\n')[n] = piece := ⟨_, rfl⟩
  rw [hpiece] at hsplit
  have hshown := getElem?_lines hsplit
  rw [hfront, h] at hshown
  have hprefix : trimReturn shown <+: piece := by
    revert hshown
    split
    · split
      · nofun
      · rintro ⟨⟩
        exact (trimReturn_spec _).1
    · rintro ⟨⟩
      exact (trimReturn_spec _).1.trans (trimReturn_spec piece).1
  obtain ⟨rest, rfl⟩ := hprefix
  obtain ⟨before, behind, htext, hcount, -⟩ := splitOn_eq_append_cons hsplit
  exact ⟨before, rest ++ behind, by simpa using htext, hcount.trans hfront⟩

/-- Without lone carriage returns in front of it, a line is found by its number, and shown up to its end if no
more carriage returns stand there than are trimmed. -/
theorem getElem?_lines_line {k : Nat} (hreturns : ∀ i < k, loneReturn text.toList i = false)
    (hline : lineAt text.toList k ≠ []) :
    ∃ shown, (lines text)[(Position.before text.toList k).line]? = some shown ∧ '\n' ∉ trimReturn shown ∧
      (trimReturn shown = lineAt text.toList k ↔ EndsShown (behindLine text.toList k)) := by
  have hstart := lineStart_le text.toList k
  obtain ⟨front, hsplit, hfront⟩ : ∃ front,
      text.toList.splitOn '\n' = front ++ (lineAt text.toList k ++ behindLine text.toList k).splitOn '\n' ∧
        front.length = (Position.before text.toList k).line := by
    have hlast : ∀ c ∈ (text.toList.take (lineStart text.toList k)).getLast?, c = '\n' := by
      cases hindex : lineStart text.toList k with
      | zero => simp
      | succ j =>
          have hends := endsLine_of_lineStart hindex
          rw [endsLine, hreturns j (by omega), Bool.or_false] at hends
          rw [List.getLast?_take]
          simp [eq_of_beq hends]
    obtain ⟨front, hsplit, hfront⟩ := splitOn_append hlast (text.toList.drop (lineStart text.toList k))
    refine ⟨front, ?_, ?_⟩
    · rw [lineAt_append_behindLine, ← hsplit, List.take_append_drop]
    · have hnone : (List.range (lineStart text.toList k)).countP (loneReturn text.toList) = 0 := by
        rw [List.countP_eq_zero]
        intro i hi
        rw [hreturns i (Nat.lt_of_lt_of_le (List.mem_range.mp hi) hstart)]
        exact Bool.false_ne_true
      have hnumber := line_before text.toList (lineStart text.toList k)
      rw [before_lineStart, hnone, Nat.add_zero] at hnumber
      exact hfront.trans hnumber.symm
  have hreturn : '\r' ∉ lineAt text.toList k := not_mem_lineAt rfl
  have hfeed : '\n' ∉ lineAt text.toList k := not_mem_lineAt rfl
  rw [← hfront]
  generalize lineAt text.toList k = line at *
  generalize behindLine text.toList k = behind at *
  by_cases hmem : '\n' ∈ behind
  · obtain ⟨returns, more, rfl, hnot⟩ := List.eq_append_cons_of_mem hmem
    have hnone : '\n' ∉ line ++ returns := by
      rw [List.mem_append, not_or]
      exact ⟨hfeed, hnot⟩
    rw [← List.append_assoc, List.splitOn_append_cons_self_of_not_mem hnone] at hsplit
    rw [getElem?_lines hsplit, if_neg (List.splitOn_ne_nil _ _)]
    refine ⟨_, rfl, fun hmem => hnone ?_, ?_⟩
    · exact (trimReturn_spec _).1.mem ((trimReturn_spec _).1.mem hmem)
    · rw [trimReturn_trimReturn_append_eq_iff hreturn, endsShown_append_cons hnot]
  · have hnone : '\n' ∉ line ++ behind := by
      rw [List.mem_append, not_or]
      exact ⟨hfeed, hmem⟩
    rw [List.splitOn_eq_singleton hnone] at hsplit
    rw [getElem?_lines hsplit, if_pos rfl, if_neg (by simp [hline])]
    refine ⟨_, rfl, fun hmem => hnone ((trimReturn_spec _).1.mem hmem), ?_⟩
    rw [trimReturn_append_eq_iff hreturn, endsShown_of_not_mem hmem]

/-- Behind a lone carriage return, a line is found by its number only behind where it begins. -/
theorem behind_of_getElem?_lines {k : Nat} (hreturn : ∃ i < k, loneReturn text.toList i = true)
    (h : (lines text)[(Position.before text.toList k).line]? = some shown) :
    ∃ front rest, text.toList = front ++ trimReturn shown ++ rest ∧ k < front.length := by
  obtain ⟨front, rest, htext, hcount⟩ := exists_of_getElem?_lines h
  refine ⟨front, rest, htext, Nat.lt_of_not_le fun hle => ?_⟩
  -- Up to `k` there are fewer line feeds than lines.
  obtain ⟨i, hi, hlone⟩ := hreturn
  have hnumber := line_before text.toList k
  have hreturns : 0 < (List.range k).countP (loneReturn text.toList) :=
    List.countP_pos_iff.mpr ⟨i, List.mem_range.mpr hi, hlone⟩
  have hfront : front <+: text.toList.take k := by
    rw [htext, List.append_assoc, List.take_append, List.take_of_length_le hle]
    exact List.prefix_append _ _
  have hfeeds := hfront.count_le '\n'
  omega

/-! ## Marks -/

theorem lt_length_takeWhile {p : Char → Bool} {l : List Char} {m : Nat} (hm : m < l.length)
    (hall : ∀ i ≤ m, ∀ c, l[i]? = some c → p c = true) : m < (l.takeWhile p).length := by
  have hfront : ∀ c ∈ l.take (m + 1), p c = true := by
    intro c hc
    obtain ⟨i, hi, rfl⟩ := List.mem_take_iff_getElem.mp hc
    exact hall i (by omega) _ (List.getElem?_eq_getElem _)
  have hlength := List.length_take_of_le (Nat.succ_le_of_lt hm)
  rw [← List.take_append_drop (m + 1) l, List.takeWhile_append_of_pos hfront, List.length_append, hlength]
  exact Nat.lt_of_lt_of_le (Nat.lt_succ_self m) (Nat.le_add_right _ _)

theorem getElem?_lineAt {k i : Nat} (hi : i < (lineAt cs k).length) : (lineAt cs k)[i]? = cs[lineStart cs k + i]? := by
  rw [← List.getElem?_drop, ← lineAt_append_behindLine, List.getElem?_append_left hi]

/-- A character of a line is marked as far as a span goes that begins in it: no line feed comes before it. -/
theorem lt_marks_iff {before span behind : List Char} {m : Nat} (hcs : cs = before ++ span ++ behind)
    (hspan : span ≠ [])
    (hm : (Position.before cs before.length).column + m < (lineAt cs before.length).length) :
    m < max 1 (span.takeWhile (· != '\n')).length ↔ m < span.length := by
  have hcolumn := lineStart_add_column cs before.length
  have hpos : 0 < span.length := List.length_pos_iff.mpr hspan
  have hle := (List.takeWhile_prefix (p := (· != '\n')) (l := span)).length_le
  constructor
  · omega
  · intro hlt
    refine Nat.lt_of_lt_of_le (lt_length_takeWhile hlt fun x hx c hc => ?_) (Nat.le_max_right _ _)
    have hinside : span[x]? = cs[before.length + x]? := by
      rw [hcs, List.append_assoc, List.getElem?_append_right (Nat.le_add_right _ _), Nat.add_sub_cancel_left,
        List.getElem?_append_left (by omega)]
    rw [hinside, ← hcolumn, Nat.add_assoc, ← getElem?_lineAt (by omega)] at hc
    have hfeed : '\n' ∉ lineAt cs before.length := not_mem_lineAt rfl
    have hne : c ≠ '\n' := fun heq => hfeed (heq ▸ List.mem_of_getElem? hc)
    simpa using hne

/-- The marks under a line stand under the characters of a span that begins in it. -/
theorem underlines_underline {before span behind : List Char} (hcs : cs = before ++ span ++ behind)
    (hspan : span ≠ []) (hline : before.length < lineStart cs before.length + (lineAt cs before.length).length) :
    Underlines cs before.length span.length
      (underline (lineAt cs before.length) ((Position.before cs before.length).column + 1)
        (max 1 (span.takeWhile (· != '\n')).length)) := by
  have hcolumn := lineStart_add_column cs before.length
  have hpos : 0 < span.length := List.length_pos_iff.mpr hspan
  have hchars {i : Nat} (hi : i < (lineAt cs before.length).length) := getElem?_lineAt hi
  have hcount {m : Nat} (hm : (Position.before cs before.length).column + m < (lineAt cs before.length).length) :=
    lt_marks_iff hcs hspan hm
  generalize max 1 (span.takeWhile (· != '\n')).length = n at *
  generalize (Position.before cs before.length).column = column at *
  have hmarks : (List.replicate (min n ((lineAt cs before.length).length - column)) '~').isEmpty = false := by
    have hfirst := (hcount (m := 0) (by omega)).mpr hpos
    simp only [List.isEmpty_eq_false_iff, ne_eq, List.replicate_eq_nil_iff]
    omega
  have hblanks (f : Char → Char) : (((lineAt cs before.length).take column).map f).length = column := by
    rw [List.length_map, List.length_take_of_le (by omega)]
  simp only [underline, Nat.add_sub_cancel, hmarks, Bool.false_eq_true, if_false]
  constructor
  · intro i hi
    have hchar : i < (lineAt cs before.length).length := by omega
    have hhere := hchars hchar
    rw [List.getElem?_append_left (by rw [hblanks]; omega), List.getElem?_map, List.getElem?_take_of_lt (by omega), hhere]
    rw [List.getElem?_eq_getElem hchar] at hhere
    simp [← hhere]
  · intro i hi
    rcases Nat.lt_or_ge i column with hlt | hge
    · rw [List.getElem?_append_left (by rwa [hblanks]), List.getElem?_map, List.getElem?_take_of_lt hlt,
        List.getElem?_eq_getElem hi]
      constructor
      · intro hmark
        simp only [Option.map_some, Option.some.injEq] at hmark
        split at hmark <;> exact absurd hmark (by decide)
      · omega
    · obtain ⟨m, rfl⟩ := Nat.exists_eq_add_of_le hge
      rw [List.getElem?_append_right (by rw [hblanks]; omega), hblanks, Nat.add_sub_cancel_left]
      have hmark := hcount hi
      rw [List.getElem?_replicate]
      constructor
      · intro hhere
        have hlt : m < min n ((lineAt cs before.length).length - column) := by
          apply Decidable.byContradiction
          intro hle
          rw [if_neg hle] at hhere
          cases hhere
        omega
      · intro hhere
        rw [if_pos (by omega)]
  · rw [List.length_append, hblanks, List.length_replicate]
    omega

/-! ## Snippets -/

/-- A line with its number, and the marks under it. -/
def layout (r : Reporter) (number : Nat) (line marks : List Char) : String :=
  "\n  " ++ padded number ++ "   " ++ String.ofList line ++ "\n        " ++ r.paint "31" (String.ofList marks)

variable {r : Reporter} {file before span behind : String}

theorem layout_inj {number : Nat} {line line' marks marks' : List Char} (hline : '\n' ∉ line) (hline' : '\n' ∉ line')
    (h : r.layout number line marks = r.layout number line' marks') : line = line' := by
  have hchars := congrArg String.toList h
  simp only [layout, String.toList_append, String.toList_ofList, List.append_assoc, List.append_cancel_left_eq] at hchars
  exact eq_of_append_cons hline hline' hchars

/-- The snippet of a span that begins in front of character `before.length`. -/
theorem snippet?_eq (hsource : r.sources.get? file = some (before ++ span ++ behind)) (hspan : span ≠ "") :
    let place := Position.before (before ++ span ++ behind).toList before.length
    r.snippet? file before.utf8ByteSize span.utf8ByteSize =
      (lines (before ++ span ++ behind))[place.line]?.map fun shown =>
        r.layout (place.line + 1) (trimReturn shown)
          (underline (trimReturn shown) (place.column + 1) (max 1 (span.toList.takeWhile (· != '\n')).length)) := by
  intro place
  have hlength : span.utf8ByteSize ≠ 0 := by
    rwa [ne_eq, String.utf8ByteSize_eq_zero_iff]
  have hplace : r.place? file before.utf8ByteSize = some (place.line + 1, place.column + 1) := by
    have hposition := LineMap.position_append before (span ++ behind)
    rw [← String.append_assoc] at hposition
    simp only [place?, hsource, Option.bind_eq_bind, Option.bind_some, hposition]
    rfl
  have hmarks : markCount (before ++ span ++ behind) before.utf8ByteSize span.utf8ByteSize =
      max 1 (span.toList.takeWhile (· != '\n')).length := by
    have hrest := Source.rest_append before (span ++ behind)
    rw [← String.append_assoc, String.toList_append] at hrest
    simp only [markCount, ← Source.width_toList span, hrest.slice, String.toList_ofList]
  simp only [snippet?, if_neg hlength, hsource, hplace, Option.bind_eq_bind, Option.bind_some, hmarks,
    Nat.add_sub_cancel]
  cases (lines (before ++ span ++ behind))[place.line]? <;> rfl

/-- A snippet shows the line of its span with the marks under it where no carriage return in front of the span
stands alone, unless more than line feeds and what is trimmed stand behind the line. Elsewhere it shows a line
that begins behind the start of the span, or there is none. -/
theorem snippet_exact {text : String} (hsource : r.sources.get? file = some text)
    (htext : text = before ++ span ++ behind) (hspan : span ≠ "")
    (hline : before.length <
      lineStart text.toList before.length + (lineAt text.toList before.length).length) :
    let number := ((LineMap.ofText text).position (.ofString text) before.utf8ByteSize).line + 1
    let snippet := r.snippet? file before.utf8ByteSize span.utf8ByteSize
    ((∀ i < before.length, loneReturn text.toList i = false) →
      ((∃ marks, Underlines text.toList before.length span.length marks ∧
          snippet = some (r.layout number (lineAt text.toList before.length) marks)) ↔
        EndsShown (behindLine text.toList before.length))) ∧
    ((∃ i < before.length, loneReturn text.toList i = true) →
      snippet = none ∨
        ∃ front shown rest marks, text.toList = front ++ shown ++ rest ∧ before.length < front.length ∧
          snippet = some (r.layout number shown marks)) := by
  subst htext
  have hposition := LineMap.position_append before (span ++ behind)
  rw [← String.append_assoc] at hposition
  simp only [hposition, snippet?_eq hsource hspan]
  constructor
  · intro hreturns
    have hchar : lineAt (before ++ span ++ behind).toList before.length ≠ [] := by
      intro hnil
      rw [hnil] at hline
      exact absurd hline (Nat.not_lt_of_le (lineStart_le _ _))
    obtain ⟨shown, hshown, hfeed, hends⟩ := getElem?_lines_line hreturns hchar
    rw [hshown, Option.map_some, ← hends]
    constructor
    · rintro ⟨marks, -, heq⟩
      exact layout_inj hfeed (not_mem_lineAt rfl) (Option.some.inj heq)
    · intro hsame
      rw [hsame]
      refine ⟨_, ?_, rfl⟩
      have hchars : (before ++ span ++ behind).toList = before.toList ++ span.toList ++ behind.toList := by
        rw [String.toList_append, String.toList_append]
      rw [← String.length_toList, ← String.length_toList] at *
      exact underlines_underline hchars (by simpa using hspan) hline
  · intro hreturn
    generalize before ++ span ++ behind = text at *
    cases hshown : (lines text)[(Position.before text.toList before.length).line]? with
    | none => exact .inl rfl
    | some shown =>
        obtain ⟨front, rest, htext, hbehind⟩ := behind_of_getElem?_lines hreturn hshown
        exact .inr ⟨front, trimReturn shown, rest, _, htext, hbehind, rfl⟩

/-- A span over two lines behind a tab, and one behind a lone carriage return, which is shown with the line after
its own. -/
theorem snippet_exact_tab_return :
    let text := "a\r\n\té = 1;\r\nb"
    let text' := "a\rb\nc"
    let r := (({} : Reporter).addSource "a.js" text).addSource "b.js" text'
    (r.sources.get? "a.js" = some text ∧ text = "a\r\n\t" ++ "é = 1;\r\nb" ++ "" ∧
      4 < lineStart text.toList 4 + (lineAt text.toList 4).length ∧ (∀ i < 4, loneReturn text.toList i = false) ∧
      EndsShown (behindLine text.toList 4) ∧ lineAt text.toList 4 = ['\t', 'é', ' ', '=', ' ', '1', ';'] ∧
      ∃ marks, Underlines text.toList 4 9 marks ∧
        r.snippet? "a.js" 4 10 = some (r.layout 2 (lineAt text.toList 4) marks)) ∧
    (r.sources.get? "b.js" = some text' ∧ text' = "a\r" ++ "b" ++ "\nc" ∧
      2 < lineStart text'.toList 2 + (lineAt text'.toList 2).length ∧ loneReturn text'.toList 1 = true ∧
      r.snippet? "b.js" 2 1 = some (r.layout 2 ['c'] ['~']) ∧
      ∃ front shown rest marks, text'.toList = front ++ shown ++ rest ∧ 2 < front.length ∧
        r.snippet? "b.js" 2 1 = some (r.layout 2 shown marks)) := by
  intro text text' r
  have hsource : r.sources.get? "a.js" = some text := by decide
  have hsource' : r.sources.get? "b.js" = some text' := by decide
  have hline : 4 < lineStart text.toList 4 + (lineAt text.toList 4).length := by decide
  have hline' : 2 < lineStart text'.toList 2 + (lineAt text'.toList 2).length := by decide
  have hreturns : ∀ i < 4, loneReturn text.toList i = false := by decide
  have hreturn : loneReturn text'.toList 1 = true := by decide
  have hends : EndsShown (behindLine text.toList 4) := .inr (.inr ⟨1, by decide, ['b'], by decide⟩)
  have hshown : r.snippet? "b.js" 2 1 = some (r.layout 2 ['c'] ['~']) := by decide +kernel
  have hnumber : ((LineMap.ofText text).position (.ofString text) 4).line + 1 = 2 := by decide +kernel
  have hnumber' : ((LineMap.ofText text').position (.ofString text') 2).line + 1 = 2 := by decide +kernel
  have htext : text = "a\r\n\t" ++ "é = 1;\r\nb" ++ "" := by decide
  have htext' : text' = "a\r" ++ "b" ++ "\nc" := by decide
  have hright := ((snippet_exact hsource htext (by decide) hline).1 hreturns).mpr hends
  have hwrong := (snippet_exact hsource' htext' (by decide) hline').2 ⟨1, by decide, hreturn⟩
  rw [show "a\r\n\t".utf8ByteSize = 4 from rfl, hnumber] at hright
  rw [show "a\r".utf8ByteSize = 2 from rfl, hnumber'] at hwrong
  refine ⟨⟨hsource, htext, hline, hreturns, hends, by decide, hright⟩, hsource', htext', hline', hreturn, hshown, ?_⟩
  exact hwrong.resolve_left fun hnone => nomatch hshown.symm.trans hnone

/-- The second line of `a`, a carriage return and `b` is not shown. -/
theorem snippet_loneReturn :
    let text := "a\rb"
    let r := ({} : Reporter).addSource "a.js" text
    r.sources.get? "a.js" = some text ∧ text = "a\r" ++ "b" ++ "" ∧
      2 < lineStart text.toList 2 + (lineAt text.toList 2).length ∧ lineAt text.toList 2 = ['b'] ∧
      ((LineMap.ofText text).position (.ofString text) 2).line + 1 = 2 ∧
      ∀ marks, r.snippet? "a.js" 2 1 ≠ some (r.layout 2 (lineAt text.toList 2) marks) := by
  intro text r
  have hnone : r.snippet? "a.js" 2 1 = none := by decide +kernel
  refine ⟨by decide, by decide, by decide, by decide, by decide, fun marks => ?_⟩
  rw [hnone]
  nofun

end Reporter

end PropContract
