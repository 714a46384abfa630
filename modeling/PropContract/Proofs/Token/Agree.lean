import PropContract.Proofs.Text.Agree
import PropContract.Proofs.Token.Fits

/-!
# Text that is stepped over is known by itself

Where two texts have the same bytes up to an offset, what is stepped over in front of it ends at the same
place of both. Nothing is looked at behind the bracket, quote or tag that ends it.
-/

namespace PropContract.Token

open Text

variable {t s : Source} {pos stop r n m : Nat} (h : t.Agree s stop)

include h

/-! ## Comments -/

theorem lineCommentEnd_agree (hlt : lineCommentEnd t pos < stop) : lineCommentEnd s pos = lineCommentEnd t pos := by
  have hsize := h.le_left
  rw [lineCommentEnd] at hlt ⊢
  rw [lineCommentEnd]
  cases hfind : t.find? isLineBreak pos with
  | none =>
      rw [hfind, Option.getD_none] at hlt
      exact absurd hlt (Nat.not_lt_of_le hsize)
  | some q =>
      rw [hfind, Option.getD_some] at hlt
      rw [h.find? hfind hlt]
      rfl

theorem findCommentClose_agree (hclose : findCommentClose t n pos = some r) (hr : r + 1 < stop) (hm : stop ≤ pos + m) :
    findCommentClose s m pos = some r := by
  induction n generalizing pos m with
  | zero => cases hclose
  | succ n ih =>
      have hle := (findCommentClose_eq_some hclose).1
      obtain _ | m := m
      · omega
      rw [findCommentClose] at hclose ⊢
      rw [h.charAt (by omega), h.charAt (by omega)]
      split
      · rename_i hhere
        rwa [if_pos hhere] at hclose
      · rename_i hhere
        rw [if_neg hhere] at hclose
        exact ih hclose (by omega)

theorem blockCommentEnd_agree {found : Nat × Bool} (hfound : blockCommentEnd t pos = some found)
    (hr : found.1 ≤ stop) : blockCommentEnd s pos = some found := by
  obtain ⟨close, hclose, rfl⟩ := Option.map_eq_some_iff.mp hfound
  have hr : close + 2 ≤ stop := hr
  have hle := (findCommentClose_eq_some hclose).1
  have hsize := h.le_right
  rw [blockCommentEnd, findCommentClose_agree h hclose hr (by omega), Option.map_some, h.findIn (by omega)]

/-! ## Strings, regular expressions and templates -/

theorem stringEndIn_agree {quote : Char} (hquote : 0 < quote.toNat ∧ quote.toNat < 0x80)
    (hend : stringEndIn t quote n pos = some r) (hr : r ≤ stop) (hm : stop ≤ pos + m) :
    stringEndIn s quote m pos = some r := by
  induction n generalizing pos m with
  | zero => cases hend
  | succ n ih =>
      have hpos := (stringEndIn_ends hquote _ _ r hend).1
      obtain _ | m := m
      · omega
      obtain ⟨p, hfind, hend⟩ := Option.bind_eq_some_iff.mp hend
      have hle := (Source.find?_eq_some hfind).1
      have hlt : p < r := by
        revert hend
        split
        · exact fun hend => Nat.lt_of_succ_lt (Nat.lt_of_succ_lt (stringEndIn_ends hquote _ _ r hend).1)
        split
        · rintro ⟨⟩
        · rintro ⟨⟩
          exact Nat.lt_succ_self p
      have hmark : p < stop := Nat.lt_of_lt_of_le hlt hr
      rw [stringEndIn, h.find? hfind hmark, Option.bind_eq_bind, Option.bind_some, h.charAt hmark]
      revert hend
      split
      · exact fun hend => ih hend (by omega)
      · exact id

theorem stringEnd_agree {quote : Char} (hquote : 0 < quote.toNat ∧ quote.toNat < 0x80)
    (hend : stringEnd t pos quote = some r) (hr : r ≤ stop) : stringEnd s pos quote = some r := by
  have hpos := (stringEnd_ends hquote pos r hend).1
  have hsize := h.le_right
  exact stringEndIn_agree h hquote hend hr (by omega)

theorem regexCloseIn_agree {inClass : Bool} (hclose : regexCloseIn t n pos inClass = some r) (hr : r < stop)
    (hm : stop ≤ pos + m) : regexCloseIn s m pos inClass = some r := by
  induction n generalizing pos m inClass with
  | zero => cases hclose
  | succ n ih =>
      have hlt : pos < stop := Nat.lt_of_le_of_lt (regexCloseIn_spec hclose).1 hr
      have hleft := h.le_left
      have hright := h.le_right
      obtain _ | m := m
      · omega
      have later {pos' : Nat} {inClass' : Bool} (hpos : pos < pos')
          (hclose : regexCloseIn t n pos' inClass' = some r) : regexCloseIn s m pos' inClass' = some r :=
        ih hclose (by omega)
      rw [regexCloseIn, if_neg (by omega)] at hclose ⊢
      rw [h.charAt hlt]
      revert hclose
      dsimp only
      split
      · rintro ⟨⟩
      split
      · exact later (by omega)
      split
      · exact later (by omega)
      split
      · exact later (by omega)
      split
      · exact id
      · exact later (by omega)

/-- The flags of a regular expression end in front of the offset where the texts part. -/
theorem regexEnd_agree (hend : regexEnd t pos = some r) (hr : r < stop) : regexEnd s pos = some r := by
  obtain ⟨close, hclose, hflags⟩ := Option.map_eq_some_iff.mp hend
  have hskip := t.le_skipWhile isIdentifierPart (close + 1)
  have hleft := h.le_left
  have hright := h.le_right
  have hnext : isIdentifierPart (s.charAt r) = false := by
    rw [h.charAt hr, ← hflags]
    exact (Source.skipWhile_spec (by omega)).2.2.1 (by omega)
  rw [regexEnd, regexCloseIn_agree h hclose (by omega) (by omega), Option.map_some,
    h.skipWhile hflags (Nat.le_of_lt hr) hnext]

section

variable {group group' : Nat → Option Nat} (hends : ∀ p, EndsAfter t p (group p))
  (hgroup : ∀ p r, group p = some r → r ≤ stop → group' p = some r)

include hends hgroup

theorem templateEndIn_agree {substituted : Bool} {found : Nat × Bool}
    (hend : templateEndIn t group n pos substituted = some found) (hr : found.1 ≤ stop) (hm : stop ≤ pos + m) :
    templateEndIn s group' m pos substituted = some found := by
  induction n generalizing pos m substituted with
  | zero => cases hend
  | succ n ih =>
      have hlt {n pos : Nat} {substituted : Bool}
          (hend : templateEndIn t group n pos substituted = some found) : pos < found.1 := by
        obtain ⟨close, hle, -, hstop⟩ := templateEndIn_spec hends hend
        omega
      have hpos := hlt hend
      obtain _ | m := m
      · omega
      obtain ⟨p, hfind, hstep⟩ := templateEndIn_eq_some.mp hend
      have hle := (Source.find?_eq_some hfind).1
      have mark (hmark : p < stop) : s.find? _ pos = some p ∧ s.charAt p = t.charAt p :=
        ⟨h.find? hfind hmark, h.charAt hmark⟩
      rcases hstep with ⟨hbackslash, hend⟩ | ⟨hquote, rfl⟩ | ⟨hdollar, hbrace, mid, hmid, hend⟩ |
        ⟨hdollar, hbrace, hend⟩
      · have hnext := hlt hend
        obtain ⟨hfind, hsame⟩ := mark (by omega)
        exact templateEndIn_eq_some.mpr ⟨p, hfind, .inl ⟨hsame.trans hbackslash, ih hend (by omega)⟩⟩
      · obtain ⟨hfind, hsame⟩ := mark (by omega)
        exact templateEndIn_eq_some.mpr ⟨p, hfind, .inr (.inl ⟨hsame.trans hquote, rfl⟩)⟩
      · have hopen := (hends _ mid hmid).1
        have hnext := hlt hend
        obtain ⟨hfind, hsame⟩ := mark (by omega)
        have hsame' : s.charAt (p + 1) = t.charAt (p + 1) := h.charAt (by omega)
        exact templateEndIn_eq_some.mpr ⟨p, hfind, .inr (.inr (.inl ⟨hsame.trans hdollar, hsame'.trans hbrace, mid,
          hgroup _ _ hmid (by omega), ih hend (by omega)⟩))⟩
      · have hnext := hlt hend
        obtain ⟨hfind, hsame⟩ := mark (by omega)
        have hsame' : s.charAt (p + 1) = t.charAt (p + 1) := h.charAt (by omega)
        exact templateEndIn_eq_some.mpr ⟨p, hfind, .inr (.inr (.inr ⟨hsame.trans hdollar, hsame' ▸ hbrace,
          ih hend (by omega)⟩))⟩

theorem templateEnd_agree {found : Nat × Bool} (hend : templateEnd t group pos = some found) (hr : found.1 ≤ stop) :
    templateEnd s group' pos = some found := by
  obtain ⟨close, hle, -, hstop⟩ := templateEndIn_spec hends hend
  have hright := h.le_right
  exact templateEndIn_agree h hends hgroup hend hr (by omega)

end

/-! ## Groups and markup -/

/-- Looking back does not come to where the texts part. -/
theorem expressionMayStart_agree (hpos : pos ≤ stop) : expressionMayStart s pos = expressionMayStart t pos := by
  rw [expressionMayStart, expressionMayStart, h.skipBack hpos]
  have hle := (Source.skipBack_spec (s := t) (p := isAsciiSpace) pos).1
  cases hback : t.skipBack isAsciiSpace pos with
  | zero => rfl
  | succ last =>
      have hlt : last < stop := by omega
      simp only [h.charAt hlt, h.skipBack hlt, h.slice hlt]

section

variable {inner inner' : Opaque → Nat → Option Nat} (hends : ∀ o p, EndsAfter t p (inner o p))
  (hinner : ∀ o p r, inner o p = some r → r ≤ stop → inner' o p = some r)

include hends hinner

theorem itemEnd_agree (hend : itemEnd t inner pos = some r) (hr : r < stop) : itemEnd s inner' pos = some r := by
  have hpos : pos < r := lt_itemEnd hends hend
  have hnext : pos + 1 < stop := by omega
  revert hend
  rw [itemEnd, itemEnd, h.charAt (Nat.lt_of_succ_lt hnext), h.charAt hnext, expressionMayStart_agree h (by omega)]
  split
  · rename_i hquote
    refine fun hend => stringEnd_agree h ?_ hend (Nat.le_of_lt hr)
    simp only [Bool.or_eq_true, beq_iff_eq] at hquote
    rcases hquote with hc | hc <;> rw [hc] <;> decide
  split
  · exact fun hend => hinner _ _ _ hend (Nat.le_of_lt hr)
  split
  · rintro ⟨⟩
    rw [lineCommentEnd_agree h hr]
  split
  · intro hend
    obtain ⟨found, hfound, rfl⟩ := Option.map_eq_some_iff.mp hend
    rw [blockCommentEnd_agree h hfound (Nat.le_of_lt hr)]
    rfl
  split
  · exact fun hend => regexEnd_agree h hend hr
  split
  · exact fun hend => hinner _ _ _ hend (Nat.le_of_lt hr)
  · exact id

theorem groupEndIn_agree {closers : List Char} (hend : groupEndIn t inner n pos closers = some r) (hr : r ≤ stop)
    (hm : stop ≤ pos + m) : groupEndIn s inner' m pos closers = some r := by
  induction n generalizing pos m closers with
  | zero => cases hend
  | succ n ih =>
      have hlt {n pos : Nat} {closers : List Char} (hend : groupEndIn t inner n pos closers = some r) : pos < r :=
        (groupEndIn_ends hends _ _ _ r hend).1
      have hpos := hlt hend
      have hleft := h.le_left
      have hright := h.le_right
      obtain _ | m := m
      · omega
      have later {pos' : Nat} {closers' : List Char} (hpos : pos < pos')
          (hend : groupEndIn t inner n pos' closers' = some r) :
          groupEndIn s inner' m pos' closers' = some r := ih hend (by omega)
      revert hend
      rw [groupEndIn_step inner n (by omega), groupEndIn_step inner' m (by omega), h.charAt (by omega)]
      split
      · exact later (Nat.lt_succ_self pos)
      split
      · cases closers with
        | nil => rintro ⟨⟩
        | cons close rest =>
            dsimp only
            split
            · rintro ⟨⟩
            split
            · exact id
            · exact later (Nat.lt_succ_self pos)
      · intro hend
        obtain ⟨next, hnext, hend⟩ := Option.bind_eq_some_iff.mp hend
        have hitem := itemEnd_agree h hends hinner hnext (Nat.lt_of_lt_of_le (hlt hend) hr)
        exact Option.bind_eq_some_iff.mpr ⟨next, hitem, later (lt_itemEnd hends hnext) hend⟩

theorem childrenEndIn_agree (hend : childrenEndIn t inner n pos = some r) (hr : r ≤ stop) (hm : stop ≤ pos + m) :
    childrenEndIn s inner' m pos = some r := by
  induction n generalizing pos m with
  | zero => cases hend
  | succ n ih =>
      have hlt {n pos : Nat} (hend : childrenEndIn t inner n pos = some r) : pos < r :=
        (childrenEndIn_ends hends _ _ r hend).1
      have hpos := hlt hend
      obtain _ | m := m
      · omega
      obtain ⟨p, hfind, hstep⟩ := childrenEndIn_eq_some.mp hend
      have hle := (Source.find?_eq_some hfind).1
      have mark (hmark : p < stop) : s.find? _ pos = some p ∧ s.charAt p = t.charAt p :=
        ⟨h.find? hfind hmark, h.charAt hmark⟩
      have later {o : Opaque} {mid : Nat} (hmid : inner o p = some mid) (hend : childrenEndIn t inner n mid = some r) :
          p + 1 < r ∧ inner' o p = some mid ∧ childrenEndIn s inner' m mid = some r := by
        have hopen := (hends o p mid hmid).1
        have hnext := hlt hend
        exact ⟨by omega, hinner _ _ _ hmid (by omega), ih hend (by omega)⟩
      rcases hstep with ⟨hbrace, mid, hmid, hend⟩ | ⟨hangle, hslash, close, hclose, rfl⟩ |
        ⟨hangle, hslash, mid, hmid, hend⟩
      · obtain ⟨hnext, hmid, hend⟩ := later hmid hend
        obtain ⟨hfind, hsame⟩ := mark (by omega)
        exact childrenEndIn_eq_some.mpr ⟨p, hfind, .inl ⟨hsame.trans hbrace, mid, hmid, hend⟩⟩
      · obtain ⟨hle', -, hmark⟩ := Source.find?_eq_some hclose
        have hne : p ≠ close := by
          rintro rfl
          rw [hangle] at hmark
          exact absurd hmark (by decide)
        obtain ⟨hfind, hsame⟩ := mark (by omega)
        have hsame' : s.charAt (p + 1) = t.charAt (p + 1) := h.charAt (by omega)
        exact childrenEndIn_eq_some.mpr ⟨p, hfind, .inr (.inl ⟨hsame.trans hangle, hsame'.trans hslash, close,
          h.find? hclose hr, rfl⟩)⟩
      · obtain ⟨hnext, hmid, hend⟩ := later hmid hend
        obtain ⟨hfind, hsame⟩ := mark (by omega)
        have hsame' : s.charAt (p + 1) = t.charAt (p + 1) := h.charAt (by omega)
        exact childrenEndIn_eq_some.mpr
          ⟨p, hfind, .inr (.inr ⟨hsame.trans hangle, hsame' ▸ hslash, mid, hmid, hend⟩)⟩

theorem childrenEnd_agree (hend : childrenEnd t inner pos = some r) (hr : r ≤ stop) :
    childrenEnd s inner' pos = some r := by
  have hpos := (childrenEndIn_ends hends _ _ r hend).1
  have hright := h.le_right
  exact childrenEndIn_agree h hends hinner hend hr (by omega)

theorem attributesEndIn_agree (hend : attributesEndIn t inner n pos = some r) (hr : r ≤ stop)
    (hm : stop ≤ pos + m) : attributesEndIn s inner' m pos = some r := by
  induction n generalizing pos m with
  | zero => cases hend
  | succ n ih =>
      have hlt {n pos : Nat} (hend : attributesEndIn t inner n pos = some r) : pos + 1 < r :=
        (attributesEndIn_ends hends _ _ r hend).1
      have hpos := hlt hend
      have hleft := h.le_left
      have hright := h.le_right
      obtain _ | m := m
      · omega
      have later {pos' : Nat} (hpos : pos < pos') (hend : attributesEndIn t inner n pos' = some r) :
          attributesEndIn s inner' m pos' = some r := ih hend (by omega)
      rw [attributesEndIn, if_neg (by omega)] at hend ⊢
      have hnext : pos + 1 < stop := by omega
      rw [h.charAt (Nat.lt_of_succ_lt hnext), h.charAt hnext]
      revert hend
      dsimp only
      split
      · exact id
      split
      · exact fun hend => childrenEnd_agree h hends hinner hend hr
      split
      · intro hend
        obtain ⟨mid, hmid, hend⟩ := Option.bind_eq_some_iff.mp hend
        have hopen := (hends _ _ mid hmid).1
        have hnext := hlt hend
        exact Option.bind_eq_some_iff.mpr ⟨mid, hinner _ _ _ hmid (by omega), later hopen hend⟩
      split
      · intro hend
        obtain ⟨close, hclose, hend⟩ := Option.bind_eq_some_iff.mp hend
        have hle := (Source.find?_eq_some hclose).1
        have hnext := hlt hend
        exact Option.bind_eq_some_iff.mpr ⟨close, h.find? hclose (by omega), later (by omega) hend⟩
      · exact later (Nat.lt_succ_self pos)

theorem elementEnd_agree (hend : elementEnd t inner pos = some r) (hr : r ≤ stop) :
    elementEnd s inner' pos = some r := by
  have hright := h.le_right
  have hleft := h.le_left
  have hnext : pos + 1 < stop := Nat.lt_of_lt_of_le (elementEnd_ends hends pos r hend).1 hr
  revert hend
  rw [elementEnd, elementEnd, h.charAt hnext]
  split
  · exact fun hend => childrenEnd_agree h hends hinner hend hr
  · intro hend
    have hname := (attributesEndIn_ends hends _ _ r hend).1
    have hskip : s.skipWhile isTagNamePart (pos + 1) = t.skipWhile isTagNamePart (pos + 1) :=
      h.skipWhile rfl (by omega) (by
        rw [h.charAt (by omega)]
        exact (Source.skipWhile_spec (by omega)).2.2.1 (by omega))
    dsimp only
    rw [hskip]
    exact attributesEndIn_agree h hends hinner hend hr (by omega)

end

/-- What is stepped over is known by its own bytes and those before it. -/
theorem opaqueEnd_agree {level : Nat} {o : Opaque} (hend : opaqueEnd t level o pos = some r) (hr : r ≤ stop) :
    opaqueEnd s level o pos = some r := by
  have template (pos : Nat) {r : Nat} {group group' : Nat → Option Nat} (hends : ∀ p, EndsAfter t p (group p))
      (hgroup : ∀ p r, group p = some r → r ≤ stop → group' p = some r)
      (hend : (templateEnd t group pos).map (·.1) = some r) (hr : r ≤ stop) :
      (templateEnd s group' pos).map (·.1) = some r := by
    obtain ⟨found, hfound, rfl⟩ := Option.map_eq_some_iff.mp hend
    rw [templateEnd_agree h hends hgroup hfound hr]
    rfl
  induction level generalizing o pos r with
  | zero =>
      cases o with
      | template => exact template pos (fun _ => endsAfter_none) (fun _ _ hend => nomatch hend) hend hr
      | group => cases hend
      | element => cases hend
  | succ level ih =>
      cases o with
      | group =>
          have hpos := (opaqueEnd_ends t (level + 1) .group pos r hend).1
          have hright := h.le_right
          exact groupEndIn_agree h (opaqueEnd_ends t level) (fun _ _ _ hend hr => ih hend hr) hend hr (by omega)
      | template =>
          exact template pos (opaqueEnd_ends t level .group) (fun _ _ hend hr => ih hend hr) hend hr
      | element => exact elementEnd_agree h (opaqueEnd_ends t level) (fun _ _ _ hend hr => ih hend hr) hend hr

theorem groupEnd_agree (hend : groupEnd t pos = some r) (hr : r ≤ stop) : groupEnd s pos = some r :=
  opaqueEnd_agree h hend hr

/-! ## Strings and templates as tokens -/

theorem stringContentsIn_agree {quote : Char} (hpos : pos ≤ t.size)
    (hclosed : (stringContentsIn t quote n pos).2 = true) (hr : (stringContentsIn t quote n pos).1 < stop)
    (hm : stop ≤ pos + m) : stringContentsIn s quote m pos = stringContentsIn t quote n pos := by
  induction n generalizing pos m with
  | zero => cases hclosed
  | succ n ih =>
      have hle : pos ≤ (stringContentsIn t quote (n + 1) pos).1 := (stringContentsIn_spec hpos).1
      have hleft := h.le_left
      have hright := h.le_right
      obtain _ | m := m
      · omega
      rw [stringContentsIn] at hclosed hr ⊢
      rw [stringContentsIn]
      cases hfind : t.find? (fun c => c == quote || c == '\\' || c == '\n') pos with
      | none =>
          rw [hfind] at hclosed
          cases hclosed
      | some p =>
          have hmark := (Source.find?_eq_some hfind).1
          rw [hfind] at hclosed hr
          dsimp only at hclosed hr ⊢
          by_cases hbackslash : (t.charAt p == '\\') = true
          · rw [if_pos hbackslash] at hclosed hr ⊢
            -- A string that is closed goes on behind the escape.
            have hwidth : 2 ≤ if t.charAt (p + 1) == '\r' && t.charAt (p + 2) == '\n' then 3 else 2 := by
              split <;> decide
            have hnext := Nat.lt_of_le_of_lt (stringContentsIn_spec (Nat.min_le_right (p + _) _)).1 hr
            rw [h.find? hfind (by omega)]
            dsimp only
            have hbehind : p + 2 < stop := by omega
            rw [h.charAt (Nat.lt_of_succ_lt (Nat.lt_of_succ_lt hbehind)), if_pos hbackslash,
              h.charAt (Nat.lt_of_succ_lt hbehind), h.charAt hbehind]
            have hmin (width : Nat) (hlt : min (p + width) t.size < stop) :
                min (p + width) s.size = min (p + width) t.size := by omega
            rw [hmin _ hnext]
            exact ih (Nat.min_le_right _ _) hclosed hr (by omega)
          · rw [if_neg hbackslash] at hr ⊢
            rw [h.find? hfind hr]
            dsimp only
            rw [h.charAt hr, if_neg hbackslash]

theorem scanString_agree {quote : Char} (hpos : pos < t.size) (herror : (scanString t pos quote).error = none)
    (hr : (scanString t pos quote).stop ≤ stop) : scanString s pos quote = scanString t pos quote := by
  have hclosed : (stringContentsIn t quote (t.size - pos) (pos + 1)).2 = true := by
    apply Decidable.byContradiction
    intro hopen
    rw [scanString] at herror
    dsimp only at herror
    rw [if_neg hopen] at herror
    cases herror
  have hstop : (stringContentsIn t quote (t.size - pos) (pos + 1)).1 < stop := by
    rw [scanString] at hr
    dsimp only at hr
    rwa [if_pos hclosed] at hr
  have hright := h.le_right
  have hsame : stringContentsIn s quote (s.size - pos) (pos + 1) = stringContentsIn t quote (t.size - pos) (pos + 1) :=
    stringContentsIn_agree h hpos hclosed hstop (by omega)
  rw [scanString, scanString, hsame]
  dsimp only
  rw [h.slice (Nat.le_of_lt hstop)]

theorem scanTemplate_agree (herror : (scanTemplate t pos).error = none) (hr : (scanTemplate t pos).stop ≤ stop) :
    scanTemplate s pos = scanTemplate t pos := by
  cases hfound : templateLiteralEnd t pos with
  | none =>
      rw [scanTemplate, hfound] at herror
      cases herror
  | some found =>
      obtain ⟨stop', substituted⟩ := found
      have hstop : stop' ≤ stop := by
        rw [scanTemplate, hfound] at hr
        cases substituted <;> exact hr
      have hsame : templateLiteralEnd s pos = some (stop', substituted) :=
        templateEnd_agree h (opaqueEnd_ends t maxSkipDepth .group) (fun _ _ hend hr => opaqueEnd_agree h hend hr)
          hfound hstop
      have hinner : stop' - 1 ≤ stop := Nat.le_trans (Nat.sub_le _ _) hstop
      rw [scanTemplate, scanTemplate, hsame, hfound]
      cases substituted with
      | true => simp only [Lexeme.verbatim, h.slice hinner]
      | false => simp only [h.slice hinner]

end PropContract.Token
