import Mathlib.Data.List.TakeWhile
import PropContract.Proofs.Token.Skip

/-!
# What stands between tokens

Between two tokens stand blanks, line breaks and whole comments. Which of them there are, and whether they
break the line, is said about characters; the lexer finds it in bytes.
-/

namespace PropContract

open Text

namespace Text

/-- Characters are known by their bytes. -/
theorem bytesOf_injective {cs ds : List Char} (h : bytesOf cs = bytesOf ds) : cs = ds := by
  have hcs := Source.rest_ofString cs
  have hds : (Source.ofString (String.ofList cs)).Rest 0 ds := by
    obtain ⟨before, hbytes, hwidth⟩ := hcs
    exact ⟨before, h ▸ hbytes, hwidth⟩
  exact hcs.unique hds

theorem append_inj_of_width {cs ds cs' ds' : List Char} (h : cs ++ ds = cs' ++ ds') (hwidth : width cs = width cs') :
    cs = cs' ∧ ds = ds' := by
  have hbytes : bytesOf cs ++ bytesOf ds = bytesOf cs' ++ bytesOf ds' := by
    rw [← bytesOf_append, h, bytesOf_append]
  obtain ⟨hcs, hds⟩ := List.append_inj hbytes hwidth
  exact ⟨bytesOf_injective hcs, bytesOf_injective hds⟩

theorem ofUInt8_injective {b b' : UInt8} (h : Char.ofUInt8 b = Char.ofUInt8 b') : b = b' := by
  have hnat := congrArg Char.toNat h
  rw [toNat_ofUInt8, toNat_ofUInt8] at hnat
  exact UInt8.toNat_inj.mp hnat

namespace Source

variable {s : Source} {pos : Nat} {cs ds after : List Char} {c : Char} {p : Char → Bool}

/-- A byte of ASCII is the character that stands there. -/
theorem Rest.of_charAt (h : s.Rest pos cs) (hchar : s.charAt pos = c) (hc : 0 < c.toNat ∧ c.toNat < 0x80) :
    ∃ rest, cs = c :: rest := by
  obtain ⟨hpos, -⟩ := onBoundary_of_charAt hchar hc
  obtain ⟨rest, hrest⟩ := rest_of_charAt hpos (hchar ▸ hc.2)
  rw [hchar] at hrest
  exact ⟨rest, h.unique hrest⟩

/-- What stands up to a later boundary. -/
theorem Rest.split (h : s.Rest pos cs) {stop : Nat} (hstop : s.OnBoundary stop) (hle : pos ≤ stop) :
    ∃ ds rest, cs = ds ++ rest ∧ stop = pos + width ds := by
  obtain ⟨ds, rest, hrest, hwidth⟩ := OnBoundary.exists_rest ⟨cs, h⟩ hstop hle
  exact ⟨ds, rest, h.unique hrest, hwidth⟩

/-- The byte at an offset, where it is not NUL, and the bytes behind it. -/
theorem drop_of_charAt {b : UInt8} (hb : Char.ofUInt8 b ≠ '\x00') (hchar : s.charAt pos = Char.ofUInt8 b) :
    s.bytes.data.toList.drop pos = b :: s.bytes.data.toList.drop (pos + 1) := by
  rw [← List.drop_drop]
  cases hdrop : s.bytes.data.toList.drop pos with
  | nil =>
      rw [charAt_of_drop hdrop] at hchar
      exact absurd hchar.symm hb
  | cons b' bs =>
      rw [charAt_of_drop hdrop] at hchar
      rw [← ofUInt8_injective hchar]
      rfl

/-- A character stands where its bytes do, if what comes behind them is on a boundary. -/
theorem Rest.of_bytes (h : s.Rest pos cs) (hstop : s.OnBoundary (pos + width [c])) {bs : List UInt8}
    (hbytes : s.bytes.data.toList.drop pos = bytesOf [c] ++ bs) : ∃ rest, cs = c :: rest := by
  obtain ⟨ds, rest, rfl, hwidth⟩ := h.split hstop (Nat.le_add_right _ _)
  rw [h.drop_bytes, bytesOf_append] at hbytes
  have hds := (List.append_inj hbytes (Nat.add_left_cancel hwidth).symm).1
  obtain rfl := bytesOf_injective hds
  exact ⟨rest, rfl⟩

/-- Among whole characters a search finds one if there is one. -/
theorem Rest.isSome_findIn (hp : ∀ d, 0x80 ≤ d.toNat → p d = false) (h : s.Rest pos (ds ++ after)) :
    (s.findIn p (width ds) pos).isSome = ds.any p := by
  induction ds generalizing pos with
  | nil => rfl
  | cons c ds ih =>
      cases hc : p c with
      | true =>
          have hascii : c.toNat < 0x80 := by
            apply Nat.lt_of_not_le
            intro hle
            rw [hp c hle] at hc
            cases hc
          rw [width_ascii hascii, findIn, h.charAt hascii, if_pos hc, List.any_cons, hc]
          rfl
      | false =>
          have hwidth : width (c :: ds) = (bytesOf [c]).length + width ds := width_append [c] ds
          have hbytes : s.bytes.data.toList.drop pos = bytesOf [c] ++ bytesOf (ds ++ after) := by
            rw [h.drop_bytes, ← bytesOf_append]
            rfl
          have hbelow : ∀ b ∈ bytesOf [c], p (Char.ofUInt8 b) = false := fun b hb =>
            false_of_mem_bytesOf hp (fun d hd => List.mem_singleton.mp hd ▸ hc) hb
          rw [hwidth, findIn_skip hbelow hbytes, List.any_cons, hc, Bool.false_or]
          exact ih h.next

/-- A search to the end of the text that finds nothing. -/
theorem find?_size (s : Source) (p : Char → Bool) : s.find? p s.size = none := by
  rw [Source.find?, Nat.sub_self]
  rfl

end Source

end Text

namespace Token

variable {s : Source} {pos n : Nat} {cs after gap body : List Char} {breaks b : Bool}

/-- Whether `cs` may stand between tokens in front of `after`, and whether a line break is in it: one
outside of comments, or one of ASCII in a block comment. A line comment goes up to the next line break, a
block comment up to the first `*/`. -/
inductive Gap : (cs after : List Char) → (breaks : Bool) → Prop where
  | nil {after : List Char} : Gap [] after false
  | lineBreak {c : Char} {gap after : List Char} {breaks : Bool} : isLineBreak c = true →
    Gap gap after breaks → Gap (c :: gap) after true
  | blank {c : Char} {gap after : List Char} {breaks : Bool} : isLineBlank c = true →
    Gap gap after breaks → Gap (c :: gap) after breaks
  | lineComment {body gap after : List Char} {breaks : Bool} : (∀ c ∈ body, isLineBreak c = false) →
    (∀ c, (gap ++ after).head? = some c → isLineBreak c = true) → Gap gap after breaks →
      Gap ('/' :: '/' :: (body ++ gap)) after breaks
  | blockComment {body gap after : List Char} {breaks : Bool} : ¬ ['*', '/'] <:+: body ++ ['*'] →
    Gap gap after breaks →
      Gap ('/' :: '*' :: (body ++ '*' :: '/' :: gap)) after (body.any isLineBreak || breaks)
  | separator {c : Char} {gap after : List Char} {breaks : Bool} : c = '\u2028' ∨ c = '\u2029' →
    Gap gap after breaks → Gap (c :: gap) after true
  | noBreakSpace {gap after : List Char} {breaks : Bool} : Gap gap after breaks →
    Gap ('\u00a0' :: gap) after breaks

/-! ## Reading a gap again -/

/-- A list in front of the first element with a property is found once. -/
theorem append_inj_of_head? {α : Type} {p : α → Bool} {xs ys zs ws : List α} (h : xs ++ zs = ys ++ ws)
    (hxs : ∀ x ∈ xs, p x = false) (hys : ∀ y ∈ ys, p y = false) (hzs : ∀ z, zs.head? = some z → p z = true)
    (hws : ∀ w, ws.head? = some w → p w = true) : xs = ys ∧ zs = ws := by
  induction xs generalizing ys with
  | nil =>
      cases ys with
      | nil => exact ⟨rfl, h⟩
      | cons y ys =>
          have hy := hzs y (by rw [show zs = _ from h]; rfl)
          rw [hys y List.mem_cons_self] at hy
          cases hy
  | cons x xs ih =>
      cases ys with
      | nil =>
          have hx := hws x (by rw [← show _ = ws from h]; rfl)
          rw [hxs x List.mem_cons_self] at hx
          cases hx
      | cons y ys =>
          obtain ⟨rfl, htail⟩ := List.cons.inj h
          obtain ⟨rfl, hzs⟩ := ih htail (fun x hx => hxs x (List.mem_cons_of_mem _ hx))
            (fun y hy => hys y (List.mem_cons_of_mem _ hy))
          exact ⟨rfl, hzs⟩

theorem append_inj_of_close {body body' gap gap' : List Char}
    (h : body ++ '*' :: '/' :: gap = body' ++ '*' :: '/' :: gap') (hbody : ¬ ['*', '/'] <:+: body ++ ['*'])
    (hbody' : ¬ ['*', '/'] <:+: body' ++ ['*']) : body = body' ∧ gap = gap' := by
  -- Of two bodies the longer one holds the close of the other.
  have shorter {body body' gap gap' : List Char} (h : body ++ '*' :: '/' :: gap = body' ++ '*' :: '/' :: gap')
      (hbody' : ¬ ['*', '/'] <:+: body' ++ ['*']) : body'.length ≤ body.length := by
    by_contra hlt
    have hlong : body ++ ['*', '/'] <+: body' ++ '*' :: '/' :: gap' := ⟨gap, by simpa using h⟩
    have hshort : body' ++ ['*'] <+: body' ++ '*' :: '/' :: gap' := ⟨'/' :: gap', by simp⟩
    have hclose := List.prefix_of_prefix_length_le hlong hshort (by simp; omega)
    obtain ⟨rest, hrest⟩ := hclose
    exact hbody' ⟨body, rest, by simpa using hrest⟩
  have hlength := Nat.le_antisymm (shorter h.symm hbody) (shorter h hbody')
  obtain ⟨rfl, hgap⟩ := List.append_inj h hlength
  exact ⟨rfl, by simpa using hgap⟩

/-- What begins with `c` is no comment, and whether a break is in it is said by `c` and by what follows. -/
theorem Gap.of_cons {c : Char} {cs after : List Char} {breaks : Bool} (h : Gap (c :: cs) after breaks) (hc : c ≠ '/') :
    ∃ b, Gap cs after b ∧ breaks = (isLineBreak c || c == '\u2028' || c == '\u2029' || b) := by
  cases h with
  | lineBreak hbreak hgap => exact ⟨_, hgap, by rw [hbreak]; rfl⟩
  | blank hblank hgap =>
      refine ⟨_, hgap, ?_⟩
      simp only [isLineBlank, Bool.or_eq_true, beq_iff_eq] at hblank
      rcases hblank with ((rfl | rfl) | rfl) | rfl <;> rfl
  | lineComment => exact absurd rfl hc
  | blockComment => exact absurd rfl hc
  | separator hseparator hgap =>
      refine ⟨_, hgap, ?_⟩
      rcases hseparator with rfl | rfl <;> rfl
  | noBreakSpace hgap => exact ⟨_, hgap, rfl⟩

/-- What begins with `/` is a comment. -/
theorem Gap.of_slash {cs after : List Char} {breaks : Bool} (h : Gap ('/' :: cs) after breaks) :
    (∃ body gap, cs = '/' :: (body ++ gap) ∧ (∀ c ∈ body, isLineBreak c = false) ∧
      (∀ c, (gap ++ after).head? = some c → isLineBreak c = true) ∧ Gap gap after breaks) ∨
    ∃ body gap b, cs = '*' :: (body ++ '*' :: '/' :: gap) ∧ ¬ ['*', '/'] <:+: body ++ ['*'] ∧ Gap gap after b ∧
      breaks = (body.any isLineBreak || b) := by
  cases h with
  | lineBreak hbreak => cases hbreak
  | blank hblank => cases hblank
  | lineComment hbody hhead hgap => exact .inl ⟨_, _, rfl, hbody, hhead, hgap⟩
  | blockComment hbody hgap => exact .inr ⟨_, _, _, rfl, hbody, hgap, rfl⟩
  | separator hseparator => exact absurd hseparator (by decide)

/-- Whether a line break is in a gap is said by its characters. -/
theorem Gap.unique {cs after : List Char} {b b' : Bool} (h : Gap cs after b) (h' : Gap cs after b') : b = b' := by
  induction hn : cs.length using Nat.strongRecOn generalizing cs b b' with
  | ind n ih =>
    subst hn
    cases cs with
    | nil => cases h; cases h'; rfl
    | cons c cs =>
        by_cases hc : c = '/'
        · subst hc
          rcases h.of_slash with ⟨body, gap, rfl, hbody, hhead, hgap⟩ | ⟨body, gap, b, rfl, hbody, hgap, rfl⟩
          · rcases h'.of_slash with ⟨body', gap', heq, hbody', hhead', hgap'⟩ | ⟨_, _, _, heq, -⟩
            · have hsplit : body ++ (gap ++ after) = body' ++ (gap' ++ after) := by
                rw [← List.append_assoc, ← List.append_assoc, (List.cons.inj heq).2]
              obtain ⟨-, hrest⟩ := append_inj_of_head? hsplit hbody hbody' hhead hhead'
              obtain rfl := List.append_cancel_right hrest
              exact ih _ (by simp; omega) hgap hgap' rfl
            · cases heq
          · rcases h'.of_slash with ⟨_, _, heq, -⟩ | ⟨body', gap', b', heq, hbody', hgap', rfl⟩
            · cases heq
            · obtain ⟨rfl, rfl⟩ := append_inj_of_close (List.cons.inj heq).2 hbody hbody'
              rw [ih _ (by simp; omega) hgap hgap' rfl]
        · obtain ⟨b, hgap, rfl⟩ := h.of_cons hc
          obtain ⟨b', hgap', rfl⟩ := h'.of_cons hc
          rw [ih _ (by simp) hgap hgap' rfl]

/-! ## Comments -/

theorem ascii_of_isLineBlank {c : Char} (h : isLineBlank c = true) : 0 < c.toNat ∧ c.toNat < 0x80 := by
  simp only [isLineBlank, Bool.or_eq_true, beq_iff_eq] at h
  rcases h with ((rfl | rfl) | rfl) | rfl <;> decide

/-- A line comment is what stands there up to the next line break. -/
theorem exists_lineComment (h : s.Rest pos ('/' :: '/' :: cs)) :
    ∃ body rest, cs = body ++ rest ∧ (∀ c ∈ body, isLineBreak c = false) ∧
      (∀ c, rest.head? = some c → isLineBreak c = true) ∧
      lineCommentEnd s pos = pos + width ('/' :: '/' :: body) := by
  have hsplit := cs.takeWhile_append_dropWhile (p := (!isLineBreak ·))
  have hbody : ∀ c ∈ cs.takeWhile (!isLineBreak ·), isLineBreak c = false := fun c hc => by
    simpa using List.mem_takeWhile_imp hc
  have hhead := cs.head?_dropWhile_not (!isLineBreak ·)
  generalize cs.takeWhile (!isLineBreak ·) = body at *
  generalize cs.dropWhile (!isLineBreak ·) = rest at *
  subst hsplit
  refine ⟨body, rest, rfl, hbody, fun c hc => by simpa [hc] using hhead, ?_⟩
  cases rest with
  | nil =>
      have hrest : s.Rest pos (('/' :: '/' :: body) ++ []) := h
      have hnone := hrest.find?_skip isLineBreak_of_le (by simpa [List.mem_cons, isLineBreak] using hbody)
      have hsize := h.size_eq
      rw [List.append_nil] at hsize
      rw [lineCommentEnd, hnone, ← hsize, Source.find?_size, Option.getD_none]
  | cons c rest => exact lineCommentEnd_rest hbody (by simpa using hhead) h

/-- Before the close that is found there is none. -/
theorem findCommentClose_first {r : Nat} (h : findCommentClose s n pos = some r) (i : Nat) (hi : pos ≤ i)
    (hlt : i < r) : ¬ (s.charAt i = '*' ∧ s.charAt (i + 1) = '/') := by
  induction n generalizing pos with
  | zero => cases h
  | succ n ih =>
      rw [findCommentClose] at h
      split at h
      · cases h
        omega
      · rename_i hclose
        rcases Nat.eq_or_lt_of_le hi with rfl | hi
        · simpa using hclose
        · exact ih h hi

/-- A block comment is what stands there up to its first close. -/
theorem exists_blockComment (h : s.Rest pos ('/' :: '*' :: cs)) {stop : Nat} {broken : Bool}
    (hend : blockCommentEnd s pos = some (stop, broken)) :
    ∃ body rest, cs = body ++ '*' :: '/' :: rest ∧ ¬ ['*', '/'] <:+: body ++ ['*'] ∧
      broken = body.any isLineBreak ∧ stop = pos + width ('/' :: '*' :: (body ++ ['*', '/'])) := by
  rw [blockCommentEnd, Option.map_eq_some_iff] at hend
  obtain ⟨close, hclose, heq⟩ := hend
  obtain ⟨rfl, rfl⟩ := Prod.mk.inj heq
  obtain ⟨hle, hstar, hslash⟩ := findCommentClose_eq_some hclose
  have hbody : s.Rest (pos + 2) cs := (h.tail (by decide)).tail (by decide)
  obtain ⟨body, rest, rfl, rfl⟩ := hbody.split (Source.onBoundary_of_charAt hstar (by decide)).2.1 hle
  obtain ⟨rest, rfl⟩ := hbody.drop.of_charAt hstar (by decide)
  obtain ⟨rest, rfl⟩ := (hbody.drop.tail (by decide)).of_charAt hslash (by decide)
  refine ⟨body, rest, rfl, ?_, ?_, ?_⟩
  · rintro ⟨before, behind, hsplit⟩
    -- A close in front of the one that is found would have been found.
    have hall : body ++ '*' :: '/' :: rest = before ++ '*' :: '/' :: (behind ++ '/' :: rest) := by
      have happend := congrArg (· ++ '/' :: rest) hsplit
      simpa using happend.symm
    have hlength := congrArg List.length hsplit
    have hwidth := congrArg width hsplit
    simp only [width_append, width_ascii (c := '*') (by decide), width_ascii (c := '/') (by decide),
      width_nil] at hwidth
    have hearlier := hall ▸ hbody
    exact findCommentClose_first hclose (pos + 2 + width before) (by omega) (by omega)
      ⟨hearlier.drop.charAt (by decide), (hearlier.drop.tail (by decide)).charAt (by decide)⟩
  · rw [Nat.add_sub_cancel_left]
    exact hbody.isSome_findIn isLineBreak_of_le
  · simp only [width_append, width_ascii (c := '*') (by decide), width_ascii (c := '/') (by decide), width_nil]
    omega

/-! ## Blanks of several bytes -/

theorem separator_rest (h : s.Rest pos cs) (hlead : s.charAt pos = '\u00e2') (hnext : s.charAt (pos + 1) = '\u0080')
    (hlast : s.charAt (pos + 2) = '\u00a8' ∨ s.charAt (pos + 2) = '\u00a9') :
    ∃ c rest, cs = c :: rest ∧ (c = '\u2028' ∨ c = '\u2029') ∧ width [c] = 3 := by
  have hpos : pos < s.size := Source.lt_size_of_charAt (by rw [hlead]; decide)
  have hstop := (Source.OnBoundary.add_of_lead ⟨cs, h⟩ hpos).2 hlead
  have hbytes {b : UInt8} (hb : Char.ofUInt8 b ≠ '\x00') (hchar : s.charAt (pos + 2) = Char.ofUInt8 b) :
      s.bytes.data.toList.drop pos = [0xe2, 0x80, b] ++ s.bytes.data.toList.drop (pos + 3) := by
    rw [Source.drop_of_charAt (b := 0xe2) (by decide) hlead, Source.drop_of_charAt (b := 0x80) (by decide) hnext,
      Source.drop_of_charAt hb hchar]
    rfl
  rcases hlast with hlast | hlast
  · obtain ⟨rest, rfl⟩ := h.of_bytes (c := '\u2028') hstop (hbytes (b := 0xa8) (by decide) hlast)
    exact ⟨_, rest, rfl, .inl rfl, rfl⟩
  · obtain ⟨rest, rfl⟩ := h.of_bytes (c := '\u2029') hstop (hbytes (b := 0xa9) (by decide) hlast)
    exact ⟨_, rest, rfl, .inr rfl, rfl⟩

theorem noBreakSpace_rest (h : s.Rest pos cs) (hlead : s.charAt pos = '\u00c2')
    (hnext : s.charAt (pos + 1) = '\u00a0') : ∃ rest, cs = '\u00a0' :: rest := by
  have hpos : pos < s.size := Source.lt_size_of_charAt (by rw [hlead]; decide)
  have hbytes : s.bytes.data.toList.drop pos = bytesOf ['\u00a0'] ++ s.bytes.data.toList.drop (pos + 2) := by
    rw [Source.drop_of_charAt (b := 0xc2) (by decide) hlead, Source.drop_of_charAt (b := 0xa0) (by decide) hnext]
    rfl
  exact h.of_bytes ((Source.OnBoundary.add_of_lead ⟨cs, h⟩ hpos).1 hlead) hbytes

/-! ## Runs of blanks and comments -/

/-- Whether a run of blanks and comments at an offset, behind what breaks the line or not, is a gap. -/
def Trivia.Covers (t : Trivia) (pos : Nat) (b : Bool) (cs : List Char) : Prop :=
  ∃ gap rest breaks, cs = gap ++ rest ∧ Gap gap rest breaks ∧
    t = { stop := pos + width gap, lineBreak := b || breaks }

theorem covers_here (pos : Nat) (b : Bool) (cs : List Char) :
    Trivia.Covers { stop := pos, lineBreak := b } pos b cs :=
  ⟨[], cs, false, rfl, .nil, by rw [Bool.or_false]; rfl⟩

/-- A run behind a blank or comment. -/
theorem Trivia.Covers.behind {t : Trivia} {front rest : List Char} {b' : Bool}
    (h : t.Covers (pos + width front) b' rest)
    (hfront : ∀ gap after breaks, rest = gap ++ after → Gap gap after breaks →
      ∃ breaks', Gap (front ++ gap) after breaks' ∧ (b' || breaks) = (b || breaks')) :
    t.Covers pos b (front ++ rest) := by
  obtain ⟨gap, after, breaks, rfl, hgap, rfl⟩ := h
  obtain ⟨breaks', hgap', hbreaks⟩ := hfront gap after breaks rfl hgap
  refine ⟨front ++ gap, after, breaks', (List.append_assoc ..).symm, hgap', ?_⟩
  rw [width_append, Nat.add_assoc, hbreaks]

/-- What is stepped over in front of a token is a gap, unless a comment is never closed. -/
theorem triviaIn_covers (h : s.Rest pos cs) (hn : s.size - pos ≤ n) :
    (triviaIn s n pos b).unclosed = none → (triviaIn s n pos b).Covers pos b cs := by
  induction n generalizing pos cs b with
  | zero => exact fun _ => covers_here pos b cs
  | succ n ih =>
      -- Behind a blank or comment the run goes on.
      have later (front rest : List Char) {b' : Bool} (hrest : s.Rest pos (front ++ rest)) (hne : front ≠ [])
          (hfront : ∀ gap after breaks, rest = gap ++ after → Gap gap after breaks →
            ∃ breaks', Gap (front ++ gap) after breaks' ∧ (b' || breaks) = (b || breaks'))
          (hclosed : (triviaIn s n (pos + width front) b').unclosed = none) :
          (triviaIn s n (pos + width front) b').Covers pos b (front ++ rest) := by
        have hlt : 0 < width front := (List.length_pos_iff.mpr hne).trans_le (length_le_width front)
        exact (ih hrest.drop (by omega) hclosed).behind hfront
      have one {c : Char} (hc : c.toNat < 0x80) : width [c] = 1 := width_ascii hc []
      rw [triviaIn]
      split
      · rename_i hbreak
        have hascii := ascii_of_isLineBreak hbreak
        obtain ⟨rest, rfl⟩ := h.of_charAt rfl hascii
        rw [← one hascii.2]
        exact later [_] rest h (List.cons_ne_nil _ _) fun gap after breaks _ hgap =>
          ⟨true, .lineBreak hbreak hgap, by rw [Bool.true_or, Bool.or_true]⟩
      · split
        · rename_i hblank
          have hascii := ascii_of_isLineBlank hblank
          obtain ⟨rest, rfl⟩ := h.of_charAt rfl hascii
          rw [← one hascii.2]
          exact later [_] rest h (List.cons_ne_nil _ _) fun gap after breaks _ hgap =>
            ⟨breaks, .blank hblank hgap, rfl⟩
        · split
          · rename_i hcomment
            simp only [Bool.and_eq_true, beq_iff_eq] at hcomment
            obtain ⟨rest, rfl⟩ := h.of_charAt hcomment.1 (by decide)
            obtain ⟨rest, rfl⟩ := (h.tail (by decide)).of_charAt hcomment.2 (by decide)
            obtain ⟨body, rest, rfl, hbody, hhead, hend⟩ := exists_lineComment h
            rw [hend]
            exact later ('/' :: '/' :: body) rest h (List.cons_ne_nil _ _) fun gap after breaks hsplit hgap =>
              ⟨breaks, .lineComment hbody (hsplit ▸ hhead) hgap, rfl⟩
          · split
            · rename_i hcomment
              simp only [Bool.and_eq_true, beq_iff_eq] at hcomment
              obtain ⟨rest, rfl⟩ := h.of_charAt hcomment.1 (by decide)
              obtain ⟨rest, rfl⟩ := (h.tail (by decide)).of_charAt hcomment.2 (by decide)
              split
              · rename_i stop broken hend
                obtain ⟨body, rest, rfl, hbody, rfl, rfl⟩ := exists_blockComment h hend
                have hcs : '/' :: '*' :: (body ++ '*' :: '/' :: rest) =
                    '/' :: '*' :: (body ++ ['*', '/']) ++ rest := by simp
                rw [hcs] at h ⊢
                refine later _ rest h (List.cons_ne_nil _ _) fun gap after breaks _ hgap =>
                  ⟨body.any isLineBreak || breaks, ?_, Bool.or_assoc ..⟩
                simpa using Gap.blockComment hbody hgap
              · intro hclosed
                cases hclosed
            · split
              · rename_i hseparator
                simp only [Bool.and_eq_true, Bool.or_eq_true, beq_iff_eq] at hseparator
                obtain ⟨⟨hlead, hnext⟩, hlast⟩ := hseparator
                obtain ⟨c, rest, rfl, hc, hwidth⟩ := separator_rest h hlead hnext hlast
                rw [← hwidth]
                exact later [c] rest h (List.cons_ne_nil _ _) fun gap after breaks _ hgap =>
                  ⟨true, .separator hc hgap, by rw [Bool.true_or, Bool.or_true]⟩
              · split
                · rename_i hspace
                  simp only [Bool.and_eq_true, beq_iff_eq] at hspace
                  obtain ⟨rest, rfl⟩ := noBreakSpace_rest h hspace.1 hspace.2
                  exact later ['\u00a0'] rest h (List.cons_ne_nil _ _) fun gap after breaks _ hgap =>
                    ⟨breaks, .noBreakSpace hgap, rfl⟩
                · exact fun _ => covers_here pos b cs

end Token

end PropContract
