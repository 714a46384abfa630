import PropContract.Proofs.Text.Boundary
import PropContract.Proofs.Token.Piece

/-!
# Where skipped text ends

Comments, strings, templates, regular expressions, groups and markup end past their first character
and on a character boundary, although the search for the end may step into a character.
-/

namespace PropContract.Token

open Text

variable {s : Source} {pos start stop r n : Nat} {quote : Char}

/-- Whether an end, where there is one, is past an offset and on a boundary. -/
def EndsAfter (s : Source) (pos : Nat) (stop? : Option Nat) : Prop :=
  ∀ r, stop? = some r → pos < r ∧ s.OnBoundary r

theorem endsAfter_none : EndsAfter s pos none := fun _ h => nomatch h

theorem EndsAfter.mono {pos' : Nat} {stop? : Option Nat} (h : EndsAfter s pos stop?)
    (hle : pos' ≤ pos) : EndsAfter s pos' stop? :=
  fun r hr => ⟨Nat.lt_of_le_of_lt hle (h r hr).1, (h r hr).2⟩

/-! ## Marks -/

theorem ascii_of_isLineBreak {c : Char} (h : isLineBreak c = true) : 0 < c.toNat ∧ c.toNat < 0x80 := by
  simp only [isLineBreak, Bool.or_eq_true, beq_iff_eq] at h
  rcases h with rfl | rfl <;> decide

/-! ## Comments -/

theorem onBoundary_lineCommentEnd (s : Source) (pos : Nat) : s.OnBoundary (lineCommentEnd s pos) := by
  rw [lineCommentEnd]
  cases h : s.find? isLineBreak pos with
  | none => exact s.onBoundary_size
  | some q => exact (Source.onBoundary_of_charAt rfl (ascii_of_isLineBreak (Source.find?_eq_some h).2.2)).2.1

/-- A line comment ends past its first slash. -/
theorem lt_lineCommentEnd (h : s.charAt pos = '/') : pos < lineCommentEnd s pos := by
  rw [lineCommentEnd]
  cases hfind : s.find? isLineBreak pos with
  | none => exact Source.lt_size_of_charAt (by rw [h]; decide)
  | some q =>
      obtain ⟨hle, -, hq⟩ := Source.find?_eq_some hfind
      apply Nat.lt_of_le_of_ne hle
      rintro rfl
      rw [h] at hq
      exact absurd hq (by decide)

theorem lineCommentEnd_ends (h : s.charAt pos = '/') : EndsAfter s pos (some (lineCommentEnd s pos)) := by
  rintro r ⟨⟩
  exact ⟨lt_lineCommentEnd h, onBoundary_lineCommentEnd s pos⟩

theorem findCommentClose_eq_some (h : findCommentClose s n pos = some r) :
    pos ≤ r ∧ s.charAt r = '*' ∧ s.charAt (r + 1) = '/' := by
  induction n generalizing pos with
  | zero => simp [findCommentClose] at h
  | succ n ih =>
      rw [findCommentClose] at h
      split at h
      · rename_i hclose
        simp only [Bool.and_eq_true, beq_iff_eq] at hclose
        obtain rfl : pos = r := Option.some.inj h
        exact ⟨Nat.le_refl _, hclose⟩
      · obtain ⟨hle, hclose⟩ := ih h
        exact ⟨Nat.le_of_succ_le hle, hclose⟩

theorem blockCommentEnd_ends (s : Source) (pos : Nat) :
    EndsAfter s pos ((blockCommentEnd s pos).map (·.1)) := by
  intro r hr
  rw [blockCommentEnd, Option.map_map, Option.map_eq_some_iff] at hr
  obtain ⟨close, hclose, rfl⟩ := hr
  obtain ⟨hle, -, hslash⟩ := findCommentClose_eq_some hclose
  refine ⟨?_, (Source.onBoundary_of_charAt hslash (by decide)).2.2⟩
  change pos < close + 2
  omega

/-! ## Strings, templates and regular expressions -/

theorem stringEndIn_ends (hquote : 0 < quote.toNat ∧ quote.toNat < 0x80) (n pos : Nat) :
    EndsAfter s pos (stringEndIn s quote n pos) := by
  induction n generalizing pos with
  | zero => exact endsAfter_none
  | succ n ih =>
      intro r hr
      obtain ⟨p, hp, hr⟩ := Option.bind_eq_some_iff.mp hr
      obtain ⟨hle, -, hmark⟩ := Source.find?_eq_some hp
      split at hr
      · exact ((ih (p + 2)).mono (by omega)) r hr
      · rename_i hbackslash
        split at hr
        · simp at hr
        · rename_i hbreak
          obtain rfl : p + 1 = r := Option.some.inj hr
          simp only [Bool.or_eq_true, hbackslash, hbreak, Bool.false_eq_true,
            or_false, beq_iff_eq] at hmark
          exact ⟨by omega, (Source.onBoundary_of_charAt hmark hquote).2.2⟩

theorem stringEnd_ends (hquote : 0 < quote.toNat ∧ quote.toNat < 0x80) (start : Nat) :
    EndsAfter s start (stringEnd s start quote) :=
  (stringEndIn_ends hquote _ _).mono (Nat.le_succ start)

/-- A string is closed by the quote that opens it. -/
theorem stringEnd_ends_quote (h : (s.charAt pos == '"' || s.charAt pos == '\'') = true) :
    EndsAfter s pos (stringEnd s pos (s.charAt pos)) := by
  refine stringEnd_ends ?_ pos
  simp only [Bool.or_eq_true, beq_iff_eq] at h
  rcases h with h | h <;> rw [h] <;> decide

/-- A step of the search for the end of a template, by the mark that it comes to. -/
theorem templateEndIn_eq_some {group : Nat → Option Nat} {substituted : Bool} {found : Nat × Bool} :
    templateEndIn s group (n + 1) pos substituted = some found ↔
      ∃ p, s.find? (fun c => c == '`' || c == '\\' || c == '$') pos = some p ∧
        (s.charAt p = '\\' ∧ templateEndIn s group n (p + 2) substituted = some found ∨
         s.charAt p = '`' ∧ found = (p + 1, substituted) ∨
         s.charAt p = '$' ∧ s.charAt (p + 1) = '{' ∧
           (∃ mid, group (p + 1) = some mid ∧ templateEndIn s group n mid true = some found) ∨
         s.charAt p = '$' ∧ s.charAt (p + 1) ≠ '{' ∧
           templateEndIn s group n (p + 1) substituted = some found) := by
  rw [templateEndIn, Option.bind_eq_bind, Option.bind_eq_some_iff]
  refine exists_congr fun p => and_congr_right fun hfind => ?_
  obtain ⟨-, -, hmark⟩ := Source.find?_eq_some hfind
  simp only [Bool.or_eq_true, beq_iff_eq] at hmark
  rcases hmark with (hmark | hmark) | hmark
  · simp [hmark, eq_comm]
  · simp [hmark]
  · by_cases hbrace : s.charAt (p + 1) = '{'
    · simp [hmark, hbrace, Option.bind_eq_some_iff]
    · simp [hmark, hbrace]

/-- A template ends at a backquote. -/
theorem templateEndIn_spec {group : Nat → Option Nat} (hgroup : ∀ p, EndsAfter s p (group p))
    {substituted : Bool} {found : Nat × Bool}
    (h : templateEndIn s group n pos substituted = some found) :
    ∃ close, pos ≤ close ∧ s.charAt close = '`' ∧ found.1 = close + 1 := by
  induction n generalizing pos substituted with
  | zero => simp [templateEndIn] at h
  | succ n ih =>
      have later {pos' : Nat} {substituted' : Bool} (hle : pos ≤ pos')
          (h : templateEndIn s group n pos' substituted' = some found) :
          ∃ close, pos ≤ close ∧ s.charAt close = '`' ∧ found.1 = close + 1 := by
        obtain ⟨close, hclose, hspec⟩ := ih h
        exact ⟨close, Nat.le_trans hle hclose, hspec⟩
      obtain ⟨p, hfind, hstep⟩ := templateEndIn_eq_some.mp h
      have hle := (Source.find?_eq_some hfind).1
      rcases hstep with ⟨-, h⟩ | ⟨hquote, rfl⟩ | ⟨-, -, mid, hmid, h⟩ | ⟨-, -, h⟩
      · exact later (by omega) h
      · exact ⟨p, hle, hquote, rfl⟩
      · have hlt := (hgroup (p + 1) mid hmid).1
        exact later (by omega) h
      · exact later (by omega) h

theorem templateEnd_ends {group : Nat → Option Nat} (hgroup : ∀ p, EndsAfter s p (group p))
    (start : Nat) : EndsAfter s start ((templateEnd s group start).map (·.1)) := by
  intro r hr
  obtain ⟨found, hfound, rfl⟩ := Option.map_eq_some_iff.mp hr
  obtain ⟨close, hle, hclose, heq⟩ := templateEndIn_spec hgroup hfound
  rw [heq]
  exact ⟨by omega, (Source.onBoundary_of_charAt hclose (by decide)).2.2⟩

theorem regexCloseIn_spec {inClass : Bool} (h : regexCloseIn s n pos inClass = some r) :
    pos ≤ r ∧ s.charAt r = '/' := by
  induction n generalizing pos inClass with
  | zero => simp [regexCloseIn] at h
  | succ n ih =>
      rw [regexCloseIn] at h
      have later {pos' : Nat} {inClass' : Bool} (hle : pos ≤ pos')
          (h : regexCloseIn s n pos' inClass' = some r) : pos ≤ r ∧ s.charAt r = '/' :=
        ⟨Nat.le_trans hle (ih h).1, (ih h).2⟩
      split at h
      · simp at h
      · dsimp only at h
        split at h
        · simp at h
        · split at h
          · exact later (by omega) h
          · split at h
            · exact later (by omega) h
            · split at h
              · exact later (by omega) h
              · split at h
                · rename_i hslash
                  obtain rfl : pos = r := Option.some.inj h
                  simp only [Bool.and_eq_true, beq_iff_eq] at hslash
                  exact ⟨Nat.le_refl _, hslash.1⟩
                · exact later (by omega) h

theorem regexEnd_ends (s : Source) (start : Nat) : EndsAfter s start (regexEnd s start) := by
  intro r hr
  obtain ⟨close, hclose, rfl⟩ := Option.map_eq_some_iff.mp hr
  obtain ⟨hle, hslash⟩ := regexCloseIn_spec hclose
  have hbound := (Source.onBoundary_of_charAt hslash (by decide)).2.2
  have hskip := s.le_skipWhile isIdentifierPart (close + 1)
  exact ⟨by omega, Source.onBoundary_skipWhile_of_wide (fun _ => Source.isIdentifierPart_of_le) hbound.le⟩

/-! ## Groups and markup -/

/-- The end of what stands in a group where there is no bracket. -/
def itemEnd (s : Source) (inner : Opaque → Nat → Option Nat) (pos : Nat) : Option Nat :=
  let c := s.charAt pos
  let d := s.charAt (pos + 1)
  if c == '"' || c == '\'' then stringEnd s pos c
  else if c == '`' then inner .template pos
  else if c == '/' && d == '/' then some (lineCommentEnd s pos)
  else if c == '/' && d == '*' then (blockCommentEnd s pos).map (·.1)
  else if c == '/' && expressionMayStart s pos then regexEnd s pos
  else if c == '<' && expressionMayStart s pos && (isIdentifierStart d || d == '>') then inner .element pos
  else some (pos + 1)

theorem itemEnd_bind (inner : Opaque → Nat → Option Nat) (f : Nat → Option Nat) :
    itemEnd s inner pos >>= f =
      let c := s.charAt pos
      let d := s.charAt (pos + 1)
      if c == '"' || c == '\'' then stringEnd s pos c >>= f
      else if c == '`' then inner .template pos >>= f
      else if c == '/' && d == '/' then some (lineCommentEnd s pos) >>= f
      else if c == '/' && d == '*' then (blockCommentEnd s pos).map (·.1) >>= f
      else if c == '/' && expressionMayStart s pos then regexEnd s pos >>= f
      else if c == '<' && expressionMayStart s pos && (isIdentifierStart d || d == '>') then
        inner .element pos >>= f
      else some (pos + 1) >>= f := by
  simp only [itemEnd, apply_ite (· >>= f)]

/-- A step of the search for the end of a group: a bracket is opened or closed, or an item stepped over. -/
theorem groupEndIn_step (inner : Opaque → Nat → Option Nat) (n : Nat) (hpos : pos < s.size) (closers : List Char) :
    groupEndIn s inner (n + 1) pos closers =
      match closer? (s.charAt pos) with
      | some close => groupEndIn s inner n (pos + 1) (close :: closers)
      | none =>
        if isCloser (s.charAt pos) then
          match closers with
          | [] => none
          | close :: rest =>
            if s.charAt pos != close then none
            else if rest.isEmpty then some (pos + 1)
            else groupEndIn s inner n (pos + 1) rest
        else itemEnd s inner pos >>= fun next => groupEndIn s inner n next closers := by
  rewrite [groupEndIn, if_neg (Nat.not_le_of_lt hpos), itemEnd_bind]
  rfl

/-- A step of the search for the end of an element's children, by the mark that it comes to. -/
theorem childrenEndIn_eq_some {inner : Opaque → Nat → Option Nat} :
    childrenEndIn s inner (n + 1) pos = some r ↔
      ∃ p, s.find? (fun c => c == '<' || c == '{') pos = some p ∧
        (s.charAt p = '{' ∧ (∃ mid, inner .group p = some mid ∧ childrenEndIn s inner n mid = some r) ∨
         s.charAt p = '<' ∧ s.charAt (p + 1) = '/' ∧
           (∃ close, s.find? (· == '>') p = some close ∧ close + 1 = r) ∨
         s.charAt p = '<' ∧ s.charAt (p + 1) ≠ '/' ∧
           (∃ mid, inner .element p = some mid ∧ childrenEndIn s inner n mid = some r)) := by
  rw [childrenEndIn, Option.bind_eq_bind, Option.bind_eq_some_iff]
  refine exists_congr fun p => and_congr_right fun hfind => ?_
  obtain ⟨-, -, hmark⟩ := Source.find?_eq_some hfind
  simp only [Bool.or_eq_true, beq_iff_eq] at hmark
  rcases hmark with hmark | hmark
  · by_cases hslash : s.charAt (p + 1) = '/'
    · simp [hmark, hslash, Option.bind_eq_some_iff]
    · simp [hmark, hslash, Option.bind_eq_some_iff]
  · simp [hmark, Option.bind_eq_some_iff]

section

variable {inner : Opaque → Nat → Option Nat} (hinner : ∀ o p, EndsAfter s p (inner o p))

include hinner

/-- An item ends past its first byte, and may end inside of a character. -/
theorem lt_itemEnd (h : itemEnd s inner pos = some r) : pos < r := by
  have later {stop? : Option Nat} (hends : EndsAfter s pos stop?) (h : stop? = some r) : pos < r := (hends r h).1
  revert h
  rw [itemEnd]
  split
  · rename_i hquote
    exact later (stringEnd_ends_quote hquote)
  split
  · exact later (hinner _ _)
  split
  · rename_i hcomment
    exact later (lineCommentEnd_ends (eq_of_beq (Bool.and_eq_true_iff.mp hcomment).1))
  split
  · exact later (blockCommentEnd_ends s pos)
  split
  · exact later (regexEnd_ends s pos)
  split
  · exact later (hinner _ _)
  · rintro ⟨⟩
    exact Nat.lt_succ_self pos

theorem groupEndIn_ends (n pos : Nat) (closers : List Char) :
    EndsAfter s pos (groupEndIn s inner n pos closers) := by
  induction n generalizing pos closers with
  | zero => exact endsAfter_none
  | succ n ih =>
      by_cases hsize : s.size ≤ pos
      · rw [groupEndIn, if_pos hsize]
        exact endsAfter_none
      have hlt : pos < s.size := Nat.lt_of_not_le hsize
      rw [groupEndIn_step inner n hlt]
      split
      · exact (ih _ _).mono (Nat.le_succ _)
      split
      · rename_i hcloser
        cases closers with
        | nil => exact endsAfter_none
        | cons close rest =>
            dsimp only
            split
            · exact endsAfter_none
            split
            · rintro r ⟨⟩
              refine ⟨Nat.lt_succ_self _, Source.onBoundary_succ_of_ascii hlt ?_⟩
              simp only [isCloser, Bool.or_eq_true, beq_iff_eq] at hcloser
              rcases hcloser with (h | h) | h <;> rw [h] <;> decide
            · exact (ih _ _).mono (Nat.le_succ _)
      · intro r hr
        obtain ⟨next, hnext, hr⟩ := Option.bind_eq_some_iff.mp hr
        exact (ih next closers).mono (Nat.le_of_lt (lt_itemEnd hinner hnext)) r hr

theorem childrenEndIn_ends (n pos : Nat) : EndsAfter s pos (childrenEndIn s inner n pos) := by
  induction n generalizing pos with
  | zero => exact endsAfter_none
  | succ n ih =>
      intro r hr
      obtain ⟨p, hfind, hstep⟩ := childrenEndIn_eq_some.mp hr
      have hle := (Source.find?_eq_some hfind).1
      have later {o : Opaque} {mid : Nat} (hmid : inner o p = some mid)
          (hr : childrenEndIn s inner n mid = some r) : pos < r ∧ s.OnBoundary r :=
        ((ih mid).mono (Nat.le_trans hle (Nat.le_of_lt (hinner o p mid hmid).1))) r hr
      rcases hstep with ⟨-, mid, hmid, hr⟩ | ⟨-, -, close, hclose, rfl⟩ | ⟨-, -, mid, hmid, hr⟩
      · exact later hmid hr
      · obtain ⟨hle', -, hmark⟩ := Source.find?_eq_some hclose
        exact ⟨by omega, (Source.onBoundary_of_charAt (beq_iff_eq.mp hmark) (by decide)).2.2⟩
      · exact later hmid hr

/-- The bracket that closes a tag stands behind its attributes. -/
theorem attributesEndIn_ends (n pos : Nat) : EndsAfter s (pos + 1) (attributesEndIn s inner n pos) := by
  induction n generalizing pos with
  | zero => exact endsAfter_none
  | succ n ih =>
      rw [attributesEndIn]
      split
      · exact endsAfter_none
      dsimp only
      split
      · rename_i hclose
        simp only [Bool.and_eq_true, beq_iff_eq] at hclose
        rintro r ⟨⟩
        exact ⟨Nat.lt_succ_self _, (Source.onBoundary_of_charAt hclose.2 (by decide)).2.2⟩
      split
      · exact childrenEndIn_ends hinner _ _
      split
      · intro r hr
        obtain ⟨mid, hmid, hr⟩ := Option.bind_eq_some_iff.mp hr
        have hlt := (hinner .group pos mid hmid).1
        exact ((ih mid).mono (by omega)) r hr
      split
      · intro r hr
        obtain ⟨q, hq, hr⟩ := Option.bind_eq_some_iff.mp hr
        have hle := (Source.find?_eq_some hq).1
        exact ((ih (q + 1)).mono (by omega)) r hr
      · exact (ih _).mono (Nat.le_succ _)

theorem elementEnd_ends (start : Nat) : EndsAfter s (start + 1) (elementEnd s inner start) := by
  rw [elementEnd]
  split
  · exact (childrenEndIn_ends hinner _ _).mono (Nat.le_succ _)
  · have hname := s.le_skipWhile isTagNamePart (start + 1)
    exact (attributesEndIn_ends hinner _ _).mono (by omega)

end

theorem opaqueEnd_ends (s : Source) (level : Nat) (o : Opaque) (pos : Nat) :
    EndsAfter s pos (opaqueEnd s level o pos) := by
  induction level generalizing o pos with
  | zero =>
      cases o with
      | template => exact templateEnd_ends (fun _ => endsAfter_none) pos
      | group => exact endsAfter_none
      | element => exact endsAfter_none
  | succ level ih =>
      cases o with
      | group => exact groupEndIn_ends ih _ _ _
      | template => exact templateEnd_ends (ih .group) pos
      | element => exact (elementEnd_ends ih pos).mono (Nat.le_succ pos)

end PropContract.Token
