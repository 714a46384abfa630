import PropContract.Proofs.Token.Cut
import PropContract.Proofs.Token.Front
import PropContract.Proofs.Token.Row
import PropContract.Proofs.Token.Suffix
import PropContract.Proofs.Token.Tiling

/-!
# Respacing

The tokens of a text without errors are those of their own texts, each written behind one blank: where a
token ends depends on nothing that a blank would hide.
-/

namespace PropContract

open Text

namespace Text.Source

variable {s : Source} {pos : Nat} {cs : List Char}

theorem Rest.endsWith {text : String} (h : s.Rest pos text.toList) : s.EndsWith pos (ofString text) where
  bytes := by rw [h.drop_bytes, bytes_toList, ofString]
  le := h.size_eq ▸ Nat.le_add_right _ _

end Text.Source

namespace Token

variable {s : Source} {pos n : Nat} {cs : List Char} {text value : String} {kind : TokenKind}

/-! ## Tokens alone -/

/-- Whether a text is one token and nothing else. -/
def IsToken (text : String) (kind : TokenKind) (value : String) : Prop :=
  kind ≠ .endOfFile ∧
    scanAt (.ofString text) 0 = ({ start := 0, stop := text.utf8ByteSize, kind, value }, [])

theorem scanAt_of_settled {l : Lexeme} (hsettled : Settled s pos) (hlt : pos < s.size) (hl : scanLexeme s pos = l)
    (herror : l.error = none) :
    scanAt s pos = ({ start := pos, stop := l.stop, kind := l.kind, value := l.value }, []) := by
  rw [scanAt, hsettled.triviaAt]
  dsimp only
  rw [if_neg (Nat.not_le_of_lt hlt), hl, herror]
  rfl

/-- What is scanned without an error short of the end is the lexeme behind the blanks. -/
theorem lexeme_of_scanAt (hkind : (scanAt s pos).1.kind ≠ .endOfFile) (herrors : (scanAt s pos).2 = []) :
    ∃ l b, (triviaAt s pos).stop < s.size ∧ scanLexeme s (triviaAt s pos).stop = l ∧ l.error = none ∧
      (scanAt s pos).1 = { start := (triviaAt s pos).stop, stop := l.stop, kind := l.kind, value := l.value
                           afterLineBreak := b } := by
  revert hkind herrors
  rw [scanAt]
  split
  · exact fun hkind => absurd rfl hkind
  · rename_i hsize
    exact fun _ herrors => ⟨_, _, Nat.lt_of_not_le hsize, rfl,
      Option.toList_eq_nil_iff.mp (List.append_eq_nil_iff.mp herrors).2, rfl⟩

/-- A token scanned without an error is the same alone. -/
theorem scanAt_isToken (hpos : s.OnBoundary pos) (hkind : (scanAt s pos).1.kind ≠ .endOfFile)
    (herrors : (scanAt s pos).2 = []) :
    IsToken ((scanAt s pos).1.text s) (scanAt s pos).1.kind (scanAt s pos).1.value := by
  refine ⟨hkind, ?_⟩
  have hfits := (scanAt_fits hpos).1
  have hfull := hfits.full hkind
  obtain ⟨cs, hrest, hstop⟩ := hfits.start.between_slice hfits.stop hfits.le
  obtain ⟨l, b, hlt, hl, herror, htoken⟩ := lexeme_of_scanAt hkind herrors
  rw [Token.text]
  rw [htoken] at hfull hrest hstop ⊢
  dsimp only at hfull hrest hstop ⊢
  rw [Source.width_toList] at hstop
  have hsettled : Settled s (triviaAt s pos).stop := settled_triviaIn (Nat.le_refl _)
  generalize (triviaAt s pos).stop = start at *
  generalize s.slice start l.stop = text at *
  -- The text from the token on, and what is left of it when the token is cut out.
  have hends : s.EndsWith start (.ofString (text ++ String.ofList cs)) := by
    apply Source.Rest.endsWith
    rwa [String.toList_append, String.toList_ofList]
  have hcut : (Source.ofString (text ++ String.ofList cs)).Agree (.ofString text) text.utf8ByteSize :=
    Source.agree_front text (String.ofList cs)
  generalize Source.ofString (text ++ String.ofList cs) = rest at hends hcut
  have hlexeme : scanLexeme s (start + 0) = (scanLexeme rest 0).moved start := scanLexeme_suffix hends
  have htrivia : triviaAt s (start + 0) = (triviaAt rest 0).moved start := triviaAt_suffix hends
  rw [Nat.add_zero] at hlexeme htrivia
  rw [hl] at hlexeme
  subst hlexeme
  have herror : (scanLexeme rest 0).error = none := Option.map_eq_none_iff.mp herror
  have hstop : (scanLexeme rest 0).stop = text.utf8ByteSize := Nat.add_left_cancel hstop
  have hfirst : 0 < text.utf8ByteSize := by
    rw [← hstop]
    exact Nat.lt_of_add_lt_add_left hfull
  have hsettled : Settled rest 0 := by
    rw [hsettled.triviaAt] at htrivia
    have hzero : (triviaAt rest 0).stop = 0 := Nat.add_left_cancel (congrArg Trivia.stop htrivia).symm
    have hread : Settled rest (triviaAt rest 0).stop := settled_triviaIn (Nat.le_refl _)
    rwa [hzero] at hread
  have halone : scanLexeme (.ofString text) 0 = scanLexeme rest 0 :=
    scanLexeme_cut hcut rest.onBoundary_zero (Nat.lt_of_lt_of_le hfirst hcut.le_left) herror hstop
  rw [scanAt_of_settled (hsettled.cut hcut hfirst) hfirst halone herror, hstop]
  rfl

/-- The mark of the end stands for nothing. -/
theorem scanAt_ending (hpos : s.OnBoundary pos) (hkind : (scanAt s pos).1.kind = .endOfFile) :
    (scanAt s pos).1.value = "" ∧ (scanAt s pos).1.stop = (scanAt s pos).1.start := by
  revert hkind
  rw [scanAt]
  split
  · exact fun _ => ⟨rfl, rfl⟩
  · rename_i hsize
    have hstart : s.OnBoundary (triviaAt s pos).stop := (triviaIn_spec hpos).2
    exact fun hkind => absurd hkind (scanLexeme_fits hstart (Nat.lt_of_not_le hsize)).kind

/-- A text that is one token is that token in front of a blank and at the end of a text. -/
theorem IsToken.spells (h : IsToken text kind value) (hcs : ∀ c ∈ cs.head?, c = ' ') :
    Spells text.toList kind value cs := by
  obtain ⟨hkind, hscan⟩ := h
  refine ⟨fun hnil => ?_, fun s pos hrest => ?_⟩
  · rw [String.toList_eq_nil_iff] at hnil
    subst hnil
    have hempty : scanAt (.ofString "") 0 = ({ start := 0, stop := 0, kind := .endOfFile }, []) := rfl
    rw [hempty] at hscan
    exact hkind (congrArg (·.1.kind) hscan).symm
  · have hends : s.EndsWith pos (.ofString (text ++ String.ofList cs)) := by
      apply Source.Rest.endsWith
      rwa [String.toList_append, String.toList_ofList]
    have hfront : scanAt (.ofString (text ++ String.ofList cs)) 0 = scanAt (.ofString text) 0 := by
      cases cs with
      | nil => rw [String.ofList_nil, String.append_empty]
      | cons c cs =>
          obtain rfl : c = ' ' := hcs c rfl
          refine scanAt_front (Source.extends_append String.toList_ofList (by decide)) (.inl rfl) ?_ ?_
          · rw [hscan]
            exact hkind
          · rw [hscan]
    rw [← Nat.add_zero pos, scanAt_suffix hends, hfront, hscan, Source.width_toList]
    rfl

/-! ## Rows of tokens -/

/-- The texts of tokens, each behind one blank. -/
def respaced (s : Source) (ts : List Token) : String :=
  String.ofList (ts.flatMap fun t => ' ' :: (t.text s).toList)

theorem spellsRow_respaced {ts : List Token} (hts : ∀ t ∈ ts, IsToken (t.text s) t.kind t.value)
    (hcs : ∀ c ∈ cs.head?, c = ' ') (hend : SpellsRow cs []) :
    SpellsRow (ts.flatMap (fun t => ' ' :: (t.text s).toList) ++ cs) (ts.map fun t => (t.kind, t.value)) := by
  induction ts with
  | nil => exact hend
  | cons t ts ih =>
      obtain ⟨htoken, hts⟩ := List.forall_mem_cons.mp hts
      rw [List.flatMap_cons, List.map_cons, List.append_assoc, List.cons_append]
      refine .blank (.cons (htoken.spells ?_) (ih hts))
      cases ts with
      | nil => exact hcs
      | cons t ts =>
          rintro _ ⟨⟩
          rfl

end Token

namespace Lexer

variable {l : Lexer} {n : Nat} {acc : List Token} {row : List (TokenKind × String)}

/-- A row is scanned as its tokens, with the end of the text behind them. -/
theorem go_scan_row (hrow : Token.Row l.source l.token.stop row) (hpos : l.source.OnBoundary l.token.stop)
    (hnone : l.errors = []) (hn : row.length < n) :
    ∃ ts, tokens.go scan n l acc = (acc.reverse ++ ts, []) ∧
      ts.map (fun t => (t.kind, t.value)) = row ++ [(.endOfFile, "")] := by
  induction n generalizing l acc row with
  | zero => exact absurd hn (Nat.not_lt_zero _)
  | succ n ih =>
      have hfits := (Token.scanAt_fits hpos).1
      have herrors {token : Token} (hscan : Token.scanAt l.source l.token.stop = (token, [])) : l.scan.errors = [] := by
        rw [scan, hscan, hnone]
        rfl
      generalize hstop : l.token.stop = pos at hrow
      cases hrow with
      | nil hscan hkind _ =>
          rw [← hstop] at hscan
          have htoken : l.scan.token.kind = .endOfFile := by
            rw [scan, hscan]
            exact hkind
          refine ⟨[l.scan.token], ?_, ?_⟩
          · rw [tokens.go, htoken, herrors hscan, List.reverse_cons]
            rfl
          · rw [List.map_singleton, htoken, show l.scan.token.value = "" from (Token.scanAt_ending hpos htoken).1]
            rfl
      | @cons _ token row hscan hlt _ rest =>
          rw [← hstop] at hscan
          have htoken : l.scan.token = token := by
            rw [scan, hscan]
          have hkind : l.scan.token.kind ≠ .endOfFile := by
            intro hkind
            have hempty : l.scan.token.stop = l.scan.token.start := (Token.scanAt_ending hpos hkind).2
            rw [htoken] at hempty
            exact absurd hempty (Nat.ne_of_gt hlt)
          have hrest : Token.Row l.scan.source l.scan.token.stop row := htoken ▸ rest
          obtain ⟨ts, hts, hmap⟩ : ∃ ts, tokens.go scan n l.scan (l.scan.token :: acc) = _ ∧ _ :=
            ih hrest hfits.stop (herrors hscan) (Nat.lt_of_succ_lt_succ hn)
          refine ⟨l.scan.token :: ts, ?_, ?_⟩
          · rw [tokens.go, if_neg (by simpa using hkind), hts, List.reverse_cons, List.append_assoc, List.singleton_append]
          · rw [List.map_cons, hmap, htoken]
            rfl

/-- Scanned to the end without an error, a text is a row of tokens that are the same alone. -/
theorem go_scan_isToken (hpos : l.source.OnBoundary l.token.stop) (hn : l.source.size - l.token.stop < n)
    (herrors : (tokens.go scan n l acc).2 = []) :
    ∃ ts eof, (tokens.go scan n l acc).1 = acc.reverse ++ ts ++ [eof] ∧ eof.kind = .endOfFile ∧ eof.value = "" ∧
      eof.text l.source = "" ∧ ∀ t ∈ ts, Token.IsToken (t.text l.source) t.kind t.value := by
  induction n generalizing l acc with
  | zero => exact absurd hn (Nat.not_lt_zero _)
  | succ n ih =>
      obtain ⟨hnone, hgo⟩ := go_scan_clean herrors
      have hscan : (Token.scanAt l.source l.token.stop).2 = [] := (List.append_eq_nil_iff.mp hnone).2
      obtain ⟨hfits, hstart, -⟩ := Token.scanAt_fits hpos
      rcases hgo with ⟨hkind, hgo⟩ | ⟨hkind, hgo⟩
      · obtain ⟨hvalue, hstop⟩ := Token.scanAt_ending hpos hkind
        refine ⟨[], l.scan.token, ?_, hkind, hvalue, ?_, nofun⟩
        · rw [hgo, List.reverse_cons, List.append_nil]
        · obtain ⟨cs, hrest⟩ := hfits.start
          rw [Token.text, show l.scan.token.stop = l.scan.token.start + width [] from hstop]
          exact Source.Rest.slice hrest
      · have hfull : l.scan.token.start < l.scan.token.stop := hfits.full hkind
        have hstart : l.token.stop ≤ l.scan.token.start := hstart
        have hsize : l.scan.token.stop ≤ l.source.size := hfits.stop.le
        have hn : l.scan.source.size - l.scan.token.stop < n := by
          change l.source.size - l.scan.token.stop < n
          omega
        obtain ⟨ts, eof, hts, hending, hvalue, htext, halone⟩ := ih hfits.stop hn (hgo ▸ herrors)
        refine ⟨l.scan.token :: ts, eof, ?_, hending, hvalue, htext, List.forall_mem_cons.mpr ⟨?_, halone⟩⟩
        · rw [hgo, hts, List.reverse_cons, List.append_assoc acc.reverse, List.singleton_append]
        · exact Token.scanAt_isToken hpos hkind hscan

/-- The tokens of a text that is a row of tokens. -/
theorem tokens_of_spellsRow {cs : List Char} (h : Token.SpellsRow cs row) (hcs : ∀ c ∈ cs.head?, c ≠ '\uFEFF') :
    (tokens false (String.ofList cs)).2 = [] ∧
      (tokens false (String.ofList cs)).1.map (fun t => (t.kind, t.value)) = row ++ [(.endOfFile, "")] := by
  have hmark : byteOrderMark (String.ofList cs) = [] := by
    rw [byteOrderMark, String.toList_ofList]
    cases cs with
    | nil => rfl
    | cons c cs => exact if_neg (by simpa using hcs c rfl)
  obtain ⟨cs', hcs', -, hrest⟩ := rest_ofString (String.ofList cs)
  rw [hmark, String.toList_ofList, List.nil_append] at hcs'
  subst hcs'
  have hlength : row.length < (String.ofList cs).utf8ByteSize + 1 := by
    have hwidth : cs.length ≤ width cs := length_le_width cs
    have hsize : width cs = (String.ofList cs).utf8ByteSize := by
      rw [← Source.width_toList, String.toList_ofList]
    have hle := h.length_le
    omega
  obtain ⟨ts, htokens, hmap⟩ : ∃ ts, tokens false (String.ofList cs) = (ts, []) ∧ _ :=
    go_scan_row (h.row hrest) ⟨_, hrest⟩ rfl hlength
  rw [htokens]
  exact ⟨rfl, hmap⟩

/-- The tokens of a text without errors, each written behind one blank, are scanned as the same tokens and
without errors, with the end of the text written behind a blank like them or not. -/
theorem tokens_respaced (text : String) (h : (tokens false text).2 = []) :
    ∃ ts eof, (tokens false text).1 = ts ++ [eof] ∧ eof.kind = .endOfFile ∧
      ∀ row, row = ts ++ [eof] ∨ row = ts →
        (tokens false (Token.respaced (.ofString text) row)).2 = [] ∧
        (tokens false (Token.respaced (.ofString text) row)).1.map (fun t => (t.kind, t.value)) =
          (tokens false text).1.map (fun t => (t.kind, t.value)) := by
  obtain ⟨cs, -, -, hrest⟩ := rest_ofString text
  have hn : (ofString text).source.size - (ofString text).token.stop < text.utf8ByteSize + 1 :=
    Nat.lt_succ_of_le (Nat.sub_le _ _)
  obtain ⟨ts, eof, hts, hkind, hvalue, htext, halone⟩ : ∃ ts eof, (tokens false text).1 = ts ++ [eof] ∧ _ :=
    go_scan_isToken ⟨cs, hrest⟩ hn h
  have hmap : (tokens false text).1.map (fun t => (t.kind, t.value)) =
      ts.map (fun t => (t.kind, t.value)) ++ [(.endOfFile, "")] := by
    rw [hts, List.map_append, List.map_singleton, hkind, hvalue]
  refine ⟨ts, eof, hts, hkind, fun row hrow => ?_⟩
  rw [hmap]
  have written (ds : List Char) (hds : ∀ d ∈ ds.head?, d = ' ') (hend : Token.SpellsRow ds [])
      (hchars : row.flatMap (fun t => ' ' :: (t.text (.ofString text)).toList) =
        ts.flatMap (fun t => ' ' :: (t.text (.ofString text)).toList) ++ ds) :
      (tokens false (Token.respaced (.ofString text) row)).2 = [] ∧
      (tokens false (Token.respaced (.ofString text) row)).1.map (fun t => (t.kind, t.value)) =
        ts.map (fun t => (t.kind, t.value)) ++ [(.endOfFile, "")] := by
    rw [Token.respaced, hchars]
    refine tokens_of_spellsRow (Token.spellsRow_respaced halone hds hend) fun c hc => ?_
    have hblank : c = ' ' := by
      cases ts with
      | nil => exact hds c hc
      | cons t ts => exact (Option.some.inj hc).symm
    rw [hblank]
    decide
  rcases hrow with rfl | rfl
  · refine written [' '] ?_ (.blank .nil) ?_
    · rintro _ ⟨⟩
      rfl
    · rw [List.flatMap_append, List.flatMap_singleton, show eof.text (.ofString text) = "" from htext]
      rfl
  · exact written [] nofun .nil (List.append_nil _).symm

/-- A question mark before a number, a number with a dot of its own before another dot, a comment, and a
template with a slash in it that is no division. -/
theorem tokens_respaced_mixed :
    (tokens false "x?.5:1.e3.f>>>=#p/*c*/`$\x7b(/`/)\x7d`").2 = [] ∧
      Token.respaced (.ofString "x?.5:1.e3.f>>>=#p/*c*/`$\x7b(/`/)\x7d`")
        (tokens false "x?.5:1.e3.f>>>=#p/*c*/`$\x7b(/`/)\x7d`").1.dropLast =
          " x ? .5 : 1.e3 . f >>>= #p `$\x7b(/`/)\x7d`" ∧
      (tokens false " x ? .5 : 1.e3 . f >>>= #p `$\x7b(/`/)\x7d`").1.map (fun t => (t.kind, t.value)) =
        (tokens false "x?.5:1.e3.f>>>=#p/*c*/`$\x7b(/`/)\x7d`").1.map (fun t => (t.kind, t.value)) := by
  have h : (tokens false "x?.5:1.e3.f>>>=#p/*c*/`$\x7b(/`/)\x7d`").2 = [] := by decide +kernel
  have hspaced : Token.respaced (.ofString "x?.5:1.e3.f>>>=#p/*c*/`$\x7b(/`/)\x7d`")
      (tokens false "x?.5:1.e3.f>>>=#p/*c*/`$\x7b(/`/)\x7d`").1.dropLast =
        " x ? .5 : 1.e3 . f >>>= #p `$\x7b(/`/)\x7d`" := by
    decide +kernel
  obtain ⟨ts, eof, hts, -, hrow⟩ := tokens_respaced _ h
  have hsame := (hrow ts (.inr rfl)).2
  rw [hts, List.dropLast_concat] at hspaced
  rw [hspaced] at hsame
  refine ⟨h, ?_, hsame⟩
  rw [hts, List.dropLast_concat, hspaced]

end Lexer

end PropContract
