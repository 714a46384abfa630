import Mathlib.Logic.Function.Iterate
import PropContract.Proofs.Token.Gap
import PropContract.Token.Lexer

/-!
# Tokens tile the text

Scanned to its end without an error, a text is a row of gaps and tokens by turns: no character is lost
and none is scanned twice.
-/

namespace PropContract

open Text

namespace Token

variable {s : Source} {pos : Nat} {cs : List Char} {t : Token} {ts : List Token}

/-- Whether tokens, with the gaps before them, make up the characters `cs` that begin at `pos`. A token
is marked as after a line break just if one is in its gap. Only the last is the end of the text. -/
inductive Tiles : (pos : Nat) → (cs : List Char) → List Token → Prop where
  | ending {pos : Nat} {gap : List Char} {t : Token} : Gap gap [] t.afterLineBreak → t.kind = .endOfFile →
    t.start = pos + width gap → t.stop = t.start → Tiles pos gap [t]
  | token {pos : Nat} {gap text rest : List Char} {t : Token} {ts : List Token} :
    Gap gap (text ++ rest) t.afterLineBreak → t.kind ≠ .endOfFile → t.start = pos + width gap → text ≠ [] →
    t.stop = t.start + width text → Tiles t.stop rest ts → Tiles pos (gap ++ (text ++ rest)) (t :: ts)

/-- The row ends with the mark of the end, behind all characters. -/
theorem Tiles.exists_ending (h : Tiles pos cs ts) :
    ∃ init eof, ts = init ++ [eof] ∧ eof.kind = .endOfFile ∧ eof.start = pos + width cs ∧ eof.stop = eof.start ∧
      ∀ t ∈ init, t.kind ≠ .endOfFile := by
  induction h with
  | @ending pos gap t _ hkind hstart hstop => exact ⟨[], t, rfl, hkind, hstart, hstop, nofun⟩
  | @token pos gap text rest t ts _ hkind hstart _ hstop _ ih =>
      obtain ⟨init, eof, rfl, hending, heof, hempty, hinit⟩ := ih
      refine ⟨t :: init, eof, rfl, hending, ?_, hempty, List.forall_mem_cons.mpr ⟨hkind, hinit⟩⟩
      rw [heof, hstop, hstart, width_append, width_append]
      omega

theorem Tiles.ne_nil (h : Tiles pos cs ts) : ts ≠ [] := by
  cases h with
  | ending => exact List.cons_ne_nil _ _
  | token => exact List.cons_ne_nil _ _

/-- Tokens that tile a text at the same places are after a line break alike: the gaps between them are the same, and
a gap says whether a line break is in it. -/
theorem Tiles.afterLineBreak_unique {ts' : List Token} (h : Tiles pos cs ts) (h' : Tiles pos cs ts')
    (hplaces : ts.map (fun t => (t.start, t.stop)) = ts'.map fun t => (t.start, t.stop)) :
    ts.map (·.afterLineBreak) = ts'.map (·.afterLineBreak) := by
  induction h generalizing ts' with
  | ending hgap =>
      cases h' with
      | ending hgap' => rw [List.map_singleton, List.map_singleton, hgap.unique hgap']
      | token _ _ _ _ _ hrest' => simp [hrest'.ne_nil] at hplaces
  | @token pos gap text rest t ts hgap hkind hstart hne hstop hrest ih =>
      generalize hcs : gap ++ (text ++ rest) = cs at h'
      cases h' with
      | ending => simp [hrest.ne_nil] at hplaces
      | @token _ gap' text' rest' t' ts' hgap' _ hstart' _ hstop' hrest' =>
          obtain ⟨hplace, hplaces⟩ := List.cons.inj hplaces
          obtain ⟨hstarts, hstops⟩ := Prod.mk.inj hplace
          obtain ⟨rfl, hbehind⟩ := append_inj_of_width hcs (by omega)
          obtain ⟨rfl, rfl⟩ := append_inj_of_width hbehind (by omega)
          rw [List.map_cons, List.map_cons, hgap.unique hgap', ih (hstops ▸ hrest') hplaces]

/-- One scan without an error steps over a gap, and over a token unless the text ends there. -/
theorem scanAt_tile (h : s.Rest pos cs) (herrors : (scanAt s pos).2 = []) :
    ∃ gap rest, cs = gap ++ rest ∧ Gap gap rest (scanAt s pos).1.afterLineBreak ∧
      (scanAt s pos).1.start = pos + width gap ∧
      ((scanAt s pos).1.kind = .endOfFile → rest = [] ∧ (scanAt s pos).1.stop = (scanAt s pos).1.start) ∧
      ((scanAt s pos).1.kind ≠ .endOfFile → ∃ text behind, rest = text ++ behind ∧ text ≠ [] ∧
        (scanAt s pos).1.stop = (scanAt s pos).1.start + width text) := by
  obtain ⟨hfits, -, -⟩ := scanAt_fits ⟨cs, h⟩
  obtain ⟨gap, rest, rfl, hgap, hstart⟩ : ∃ gap rest, cs = gap ++ rest ∧
      Gap gap rest (scanAt s pos).1.afterLineBreak ∧ (scanAt s pos).1.start = pos + width gap := by
    have hcovers := triviaIn_covers (b := false) h (Nat.le_refl _)
    rw [scanAt] at herrors ⊢
    have hclosed : (triviaAt s pos).unclosed = none := by
      split at herrors <;> simp_all
    obtain ⟨gap, rest, breaks, hsplit, hgap, htrivia⟩ := hcovers hclosed
    refine ⟨gap, rest, hsplit, ?_⟩
    rw [triviaAt, htrivia]
    split <;> exact ⟨hgap, rfl⟩
  have hrest : s.Rest (scanAt s pos).1.start rest := hstart ▸ h.drop
  refine ⟨gap, rest, rfl, hgap, hstart, fun hkind => ?_, fun hkind => ?_⟩
  · have hsize := hfits.atEnd hkind
    rw [hsize] at hrest
    exact ⟨hrest.unique s.rest_size, Nat.le_antisymm (hsize ▸ hfits.stop.le) hfits.le⟩
  · obtain ⟨text, behind, hsplit, hstop⟩ := hrest.split hfits.stop hfits.le
    refine ⟨text, behind, hsplit, fun hempty => ?_, hstop⟩
    rw [hempty, width_nil, Nat.add_zero] at hstop
    exact absurd hstop (Nat.ne_of_gt (hfits.full hkind))

end Token

namespace Lexer

variable {l : Lexer} {n : Nat} {cs : List Char} {acc : List Token}

theorem errors_of_go_scan (h : (tokens.go scan n l acc).2 = []) : l.errors = [] := by
  induction n generalizing l acc with
  | zero => exact h
  | succ n ih =>
      have hscan : l.scan.errors = [] := by
        rw [tokens.go] at h
        split at h
        · exact h
        · exact ih h
      exact (List.append_eq_nil_iff.mp hscan).1

/-- What is found without an error begins with a scan without one. -/
theorem go_scan_clean (h : (tokens.go scan (n + 1) l acc).2 = []) :
    l.scan.errors = [] ∧ (l.scan.token.kind = .endOfFile ∧
        (tokens.go scan (n + 1) l acc).1 = (l.scan.token :: acc).reverse ∨
      l.scan.token.kind ≠ .endOfFile ∧
        tokens.go scan (n + 1) l acc = tokens.go scan n l.scan (l.scan.token :: acc)) := by
  rw [tokens.go] at h ⊢
  split at h
  · rename_i hkind
    rw [if_pos hkind]
    exact ⟨h, .inl ⟨beq_iff_eq.mp hkind, rfl⟩⟩
  · rename_i hkind
    rw [if_neg hkind]
    exact ⟨errors_of_go_scan h, .inr ⟨fun heq => hkind (beq_iff_eq.mpr heq), rfl⟩⟩

/-- Scanned on to the end without an error, the rest of a text is tiled by the tokens found. -/
theorem go_scan_tiles (hcs : l.source.Rest l.token.stop cs) (hn : width cs < n)
    (herrors : (tokens.go scan n l acc).2 = []) :
    ∃ ts, (tokens.go scan n l acc).1 = acc.reverse ++ ts ∧ Token.Tiles l.token.stop cs ts ∧
      ∀ i t, ts[i]? = some t → (scan^[i + 1] l).token = t := by
  induction n generalizing l cs acc with
  | zero => exact absurd hn (Nat.not_lt_zero _)
  | succ n ih =>
      obtain ⟨hnone, hgo⟩ := go_scan_clean herrors
      obtain ⟨gap, rest, rfl, hgap, hstart, hending, hfull⟩ :=
        Token.scanAt_tile hcs (List.append_eq_nil_iff.mp hnone).2
      rcases hgo with ⟨hkind, hgo⟩ | ⟨hkind, hgo⟩
      · obtain ⟨rfl, hstop⟩ := hending hkind
        refine ⟨[l.scan.token], by rw [hgo, List.reverse_cons], ?_, fun i t ht => ?_⟩
        · rw [List.append_nil]
          exact .ending hgap hkind hstart hstop
        · cases i with
          | zero => exact Option.some.inj ht
          | succ i => cases ht
      · obtain ⟨text, behind, rfl, hne, hstop⟩ := hfull hkind
        have hbehind : l.scan.source.Rest l.scan.token.stop behind := by
          have hdrop := hcs.drop.drop
          rw [← hstart, ← hstop] at hdrop
          exact hdrop
        have hwidth : text.length ≤ width text := length_le_width text
        have hlength := List.length_pos_iff.mpr hne
        simp only [width_append] at hn
        obtain ⟨ts, hts, htiles, hscans⟩ := ih hbehind (by omega) (hgo ▸ herrors)
        refine ⟨l.scan.token :: ts, ?_, .token hgap hkind hstart hne hstop htiles, fun i t ht => ?_⟩
        · rw [hgo, hts, List.reverse_cons, List.append_assoc, List.singleton_append]
        · cases i with
          | zero => exact Option.some.inj ht
          | succ i => exact hscans i t ht

/-- The byte order mark a text may begin with. -/
def byteOrderMark (text : String) : List Char :=
  if text.toList.head? == some '\uFEFF' then ['\uFEFF'] else []

/-- Scanning begins behind a byte order mark. -/
theorem rest_ofString (text : String) :
    ∃ cs, text.toList = byteOrderMark text ++ cs ∧ (ofString text).token.stop = width (byteOrderMark text) ∧
      (ofString text).source.Rest (ofString text).token.stop cs := by
  obtain ⟨cs, hcs⟩ : ∃ cs, text.toList = byteOrderMark text ++ cs := by
    rw [byteOrderMark]
    cases text.toList with
    | nil => exact ⟨[], rfl⟩
    | cons c cs =>
        split
        · rename_i hmark
          exact ⟨cs, congrArg (· :: cs) (Option.some.inj (eq_of_beq hmark))⟩
        · exact ⟨c :: cs, rfl⟩
  have hstop : (ofString text).token.stop = width (byteOrderMark text) := by
    rw [ofString, byteOrderMark]
    dsimp only
    split <;> rfl
  refine ⟨cs, hcs, hstop, ?_⟩
  have hrest := (Source.ofString text).rest_zero
  change (Source.ofString text).Rest 0 text.toList at hrest
  rw [hcs] at hrest
  rw [hstop, ← Nat.zero_add (width _)]
  exact hrest.drop

/-- A text that is scanned without an error is, behind a byte order mark, tiled by its tokens. Scanning
again and again gives them one by one, up to the end of the text. Where they stand decides which of them are
after a line break: `Token.Tiles.afterLineBreak_unique`. -/
theorem tokens_tile (text : String) (h : (tokens false text).2 = []) :
    ∃ cs ts eof, text.toList = byteOrderMark text ++ cs ∧ (tokens false text).1 = ts ++ [eof] ∧
      Token.Tiles (width (byteOrderMark text)) cs (ts ++ [eof]) ∧ (∀ t ∈ ts, t.kind ≠ .endOfFile) ∧
      eof.kind = .endOfFile ∧ eof.start = text.utf8ByteSize ∧ eof.stop = text.utf8ByteSize ∧
      ∀ i t, (ts ++ [eof])[i]? = some t → (scan^[i + 1] (ofString text)).token = t := by
  obtain ⟨cs, hcs, hstop, hrest⟩ := rest_ofString text
  have hsize : text.utf8ByteSize = width (byteOrderMark text) + width cs := by
    rw [← Source.width_toList, hcs, width_append]
  have herrors : (tokens.go scan (text.utf8ByteSize + 1) (ofString text) []).2 = [] := h
  obtain ⟨row, hrow, htiles, hscans⟩ := go_scan_tiles hrest (by omega) herrors
  obtain ⟨ts, eof, rfl, hkind, hstart, hempty, hinit⟩ := htiles.exists_ending
  rw [hstop] at htiles hstart
  exact ⟨cs, ts, eof, hcs, hrow, htiles, hinit, hkind, hstart.trans hsize.symm,
    hempty.trans (hstart.trans hsize.symm), hscans⟩

theorem tokens_tile_comments :
    (tokens false "\uFEFF/* a\r\n */x \u2028+ // b\n\u00a0'c'").2 = [] ∧
      ∃ cs, "\uFEFF/* a\r\n */x \u2028+ // b\n\u00a0'c'".toList = '\uFEFF' :: cs ∧
        Token.Tiles 3 cs (tokens false "\uFEFF/* a\r\n */x \u2028+ // b\n\u00a0'c'").1 ∧
        (tokens false "\uFEFF/* a\r\n */x \u2028+ // b\n\u00a0'c'").1.map (·.afterLineBreak) =
          [true, true, true, false] := by
  have h : (tokens false "\uFEFF/* a\r\n */x \u2028+ // b\n\u00a0'c'").2 = [] := by decide +kernel
  obtain ⟨cs, ts, eof, hcs, hts, htiles, -⟩ := tokens_tile _ h
  rw [← hts] at htiles
  exact ⟨h, cs, hcs, htiles, by decide +kernel⟩

end Lexer

end PropContract
