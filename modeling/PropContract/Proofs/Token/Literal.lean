import PropContract.Proofs.Token.Gap
import PropContract.Token.Lexer

/-!
# String literals

A string is read by the lexer, and stepped over inside of skipped text. Both readings end at the same quote,
unless a carriage return with its line feed is escaped in the string: skipped text knows no such escape. A
string scans as what it stands for, in whichever way it is written.
-/

namespace PropContract

open Text

namespace Text.Source

variable {s : Source} {pos : Nat} {cs : List Char} {p : Char → Bool}

/-- What a search finds among whole characters is the first one with the property. -/
theorem Rest.exists_of_find? {q : Nat} (hp : ∀ d, 0x80 ≤ d.toNat → p d = false) (h : s.Rest pos cs)
    (hfind : s.find? p pos = some q) :
    ∃ ds c rest, cs = ds ++ c :: rest ∧ (∀ d ∈ ds, p d = false) ∧ p c = true ∧ c.toNat < 0x80 ∧
      q = pos + width ds := by
  induction cs generalizing pos with
  | nil =>
      have hsize : s.size = pos := h.size_eq
      rw [Source.find?, hsize, Nat.sub_self] at hfind
      cases hfind
  | cons c cs ih =>
      cases hc : p c with
      | true =>
          have hascii : c.toNat < 0x80 := by
            apply Nat.lt_of_not_le
            intro hle
            rw [hp c hle] at hc
            cases hc
          rw [h.find?_here hc hascii] at hfind
          exact ⟨[], c, cs, rfl, List.forall_mem_nil _, hc, hascii, (Option.some.inj hfind).symm⟩
      | false =>
          have hskip : s.find? p pos = s.find? p (pos + width [c]) :=
            Rest.find?_skip hp (fun d hd => List.mem_singleton.mp hd ▸ hc) (show s.Rest pos ([c] ++ cs) from h)
          obtain ⟨ds, d, rest, rfl, hds, hd, hascii, rfl⟩ := ih h.next (hskip ▸ hfind)
          refine ⟨c :: ds, d, rest, rfl, List.forall_mem_cons.mpr ⟨hc, hds⟩, hd, hascii, ?_⟩
          rw [Nat.add_assoc, ← width_append, List.singleton_append]

end Text.Source

namespace Token

variable {s : Source} {pos n r : Nat} {c quote : Char} {q : Quote} {cs raw after : List Char}

/-! ## Escaped line breaks -/

/-- Whether a carriage return with its line feed is escaped in the contents of a string. -/
def escapesLineBreak : List Char → Bool
  | '\\' :: '\r' :: '\n' :: _ => true
  | '\\' :: _ :: cs => escapesLineBreak cs
  | _ :: cs => escapesLineBreak cs
  | [] => false

theorem escapesLineBreak_char (hc : c ≠ '\\') : escapesLineBreak (c :: cs) = escapesLineBreak cs := by
  rw [escapesLineBreak.eq_def]
  split <;> simp_all

theorem escapesLineBreak_escape (h : cs.head? ≠ some '\n') :
    escapesLineBreak ('\\' :: c :: cs) = escapesLineBreak cs := by
  have hfeed : ∀ ds, c = '\r' → cs = '\n' :: ds → False := by
    rintro ds - rfl
    exact h rfl
  rw [escapesLineBreak]
  exact hfeed

/-- Without such an escape the contents are stepped over like any others. -/
theorem Contents.quoted (h : Contents quote raw) (hnone : escapesLineBreak raw = false) :
    Quoted quote (raw ++ [quote]) := by
  induction h with
  | nil => exact .close
  | @char c cs hc _ ih =>
      have hbackslash : c ≠ '\\' := fun heq => hc (by rw [heq]; simp)
      exact .char hc (ih (escapesLineBreak_char hbackslash ▸ hnone))
  | escape rest ih => exact .escape (ih (escapesLineBreak_escape rest.head_ne ▸ hnone))
  | lineBreak => cases hnone

/-- At such an escape a string that is stepped over has no end. -/
theorem stringEndIn_escapesLineBreak (h : Contents q.char raw) (hescapes : escapesLineBreak raw = true)
    (hrest : s.Rest pos (raw ++ q.char :: after)) : stringEndIn s q.char n pos = none := by
  have hmarks : [q.char, '\\', '\n'].all (·.toNat < 0x80) := by cases q <;> decide
  induction h generalizing n pos with
  | nil => cases hescapes
  | @char c cs hc _ ih =>
      cases n with
      | zero => rfl
      | succ n =>
          have hbackslash : c ≠ '\\' := fun heq => hc (by rw [heq]; simp)
          have hskip : s.find? _ pos = s.find? _ (pos + width [c]) := Source.Rest.find?_skip (wide hmarks)
            (fun d hd => by rw [List.mem_singleton.mp hd]; simpa using hc) (show s.Rest pos ([c] ++ _) from hrest)
          have hlater := ih (n := n + 1) (escapesLineBreak_char hbackslash ▸ hescapes) hrest.next
          rw [stringEndIn_succ] at hlater ⊢
          rwa [hskip]
  | @escape c cs rest ih =>
      cases n with
      | zero => rfl
      | succ n =>
          rw [stringEndIn_succ, hrest.find?_here (by simp) (by decide)]
          simp only [Option.bind_some, hrest.charAt (show '\\'.toNat < 0x80 by decide), beq_self_eq_true, if_true]
          cases n with
          | zero => rfl
          | succ n =>
              have hinside := Source.Rest.find?_inside (wide hmarks) (hrest.tail (by decide))
              have hlater := ih (n := n + 1) (escapesLineBreak_escape rest.head_ne ▸ hescapes)
                (hrest.tail (by decide)).next
              rw [stringEndIn_succ] at hlater ⊢
              rwa [hinside]
  | lineBreak =>
      cases n with
      | zero => rfl
      | succ n =>
          rw [stringEndIn_succ, hrest.find?_here (by simp) (by decide)]
          simp only [Option.bind_some, hrest.charAt (show '\\'.toNat < 0x80 by decide), beq_self_eq_true, if_true]
          have hfeed := (hrest.tail (by decide)).tail (by decide)
          cases n with
          | zero => rfl
          | succ n =>
              rw [stringEndIn_succ, hfeed.find?_here (by simp) (by decide)]
              simp [hfeed.charAt (show '\n'.toNat < 0x80 by decide)]

/-! ## What has been read -/

theorem stringContentsIn_of_size_le (h : s.size ≤ pos) : stringContentsIn s quote n pos = (s.size, false) := by
  cases n with
  | zero => rfl
  | succ n =>
      rw [stringContentsIn_succ, Source.find?, Nat.sub_eq_zero_of_le h]
      rfl

/-- Behind a backslash one escape is read: of a character, or of a carriage return with its line feed. -/
theorem exists_escape (hrest : s.Rest pos ('\\' :: cs)) (hclosed : (stringContentsIn s q.char (n + 1) pos).2 = true) :
    ∃ escaped behind, cs = escaped ++ behind ∧
      (∀ raw, Contents q.char raw → Contents q.char ('\\' :: (escaped ++ raw))) ∧
      stringContentsIn s q.char (n + 1) pos = stringContentsIn s q.char n (pos + 1 + width escaped) := by
  have hmarks : [q.char, '\\', '\n'].all (·.toNat < 0x80) := by cases q <;> decide
  have hnext := hrest.tail (by decide)
  rw [stringContentsIn_succ, hrest.find?_here (by simp) (by decide)] at hclosed ⊢
  simp only [hrest.charAt (show '\\'.toNat < 0x80 by decide), beq_self_eq_true, if_true] at hclosed ⊢
  cases cs with
  | nil =>
      have hsize : s.size = pos + 1 := hnext.size_eq
      rw [stringContentsIn_of_size_le (by split <;> omega)] at hclosed
      cases hclosed
  | cons d behind =>
      by_cases hbreak : d = '\r' ∧ behind.head? = some '\n'
      · obtain ⟨rfl, hhead⟩ := hbreak
        obtain ⟨behind, rfl⟩ := List.head?_eq_some_iff.mp hhead
        have hfeed := hnext.tail (by decide)
        have hwidth : (s.charAt (pos + 1) == '\r' && s.charAt (pos + 2) == '\n') = true := by
          rw [hnext.charAt (by decide), hfeed.charAt (by decide)]
          rfl
        refine ⟨['\r', '\n'], behind, rfl, fun raw hraw => .lineBreak hraw, ?_⟩
        rw [if_pos hwidth, Nat.min_eq_left hfeed.lt_size, Nat.add_assoc]
        rfl
      · have hwidth : (s.charAt (pos + 1) == '\r' && s.charAt (pos + 2) == '\n') = false := by
          apply Bool.eq_false_iff.mpr
          intro hboth
          rw [Bool.and_eq_true, beq_iff_eq, beq_iff_eq] at hboth
          obtain ⟨e, he⟩ := hnext.of_charAt hboth.1 (by decide)
          obtain ⟨rfl, rfl⟩ := List.cons.inj he
          obtain ⟨e, rfl⟩ := (hnext.tail (by decide)).of_charAt hboth.2 (by decide)
          exact hbreak ⟨rfl, rfl⟩
        refine ⟨[d], behind, rfl, fun raw hraw => .escape hraw, ?_⟩
        rw [if_neg (Bool.eq_false_iff.mp hwidth), Nat.min_eq_left hnext.lt_size]
        cases n with
        | zero => rfl
        | succ n =>
            have hinside := Source.Rest.find?_inside (wide hmarks) hnext
            rw [stringContentsIn_succ, stringContentsIn_succ]
            rw [← hinside]

/-- A string that is closed has contents, up to the quote that closes it. -/
theorem exists_contents (hrest : s.Rest pos cs) (hclosed : (stringContentsIn s q.char n pos).2 = true) :
    ∃ raw after, cs = raw ++ q.char :: after ∧ Contents q.char raw ∧
      (stringContentsIn s q.char n pos).1 = pos + width raw := by
  have hmarks : [q.char, '\\', '\n'].all (·.toNat < 0x80) := by cases q <;> decide
  induction n generalizing pos cs with
  | zero => cases hclosed
  | succ n ih =>
      cases hfind : s.find? [q.char, '\\', '\n'].contains pos with
      | none =>
          rw [stringContentsIn_succ, hfind] at hclosed
          cases hclosed
      | some p =>
          obtain ⟨ds, c, rest, rfl, hds, hc, hascii, rfl⟩ := hrest.exists_of_find? (wide hmarks) hfind
          have hplain : ∀ d ∈ ds, d ∉ [q.char, '\\', '\n'] := fun d hd => by simpa using hds d hd
          have hhere := hrest.drop
          by_cases hbackslash : c = '\\'
          · subst hbackslash
            have hskip : stringContentsIn s q.char (n + 1) pos = stringContentsIn s q.char (n + 1) (pos + width ds) := by
              rw [stringContentsIn_succ, stringContentsIn_succ, hrest.find?_skip (wide hmarks) hds]
            rw [hskip] at hclosed ⊢
            obtain ⟨escaped, behind, rfl, hescape, hstop⟩ := exists_escape hhere hclosed
            rw [hstop] at hclosed ⊢
            obtain ⟨raw, after, rfl, hraw, hend⟩ := ih (hhere.tail (by decide)).drop hclosed
            refine ⟨ds ++ '\\' :: (escaped ++ raw), after, by simp, (hescape raw hraw).append hplain, ?_⟩
            rw [hend, width_append, width_ascii (by decide), width_append]
            omega
          · have hnot : (c == '\\') = false := beq_eq_false_iff_ne.mpr hbackslash
            rw [stringContentsIn_succ, hfind] at hclosed ⊢
            simp only [hhere.charAt hascii, hnot, Bool.false_eq_true, if_false] at hclosed ⊢
            have hbreak : c ≠ '\n' := by simpa using hclosed
            obtain rfl : c = q.char := by simpa [hbackslash, hbreak] using hc
            have hcontents : Contents q.char (ds ++ []) := Contents.nil.append hplain
            rw [List.append_nil] at hcontents
            exact ⟨ds, rest, rfl, hcontents, rfl⟩

/-- A string that is stepped over is closed for the lexer too. -/
theorem stringContentsIn_of_stringEndIn (hend : stringEndIn s quote n pos = some r) :
    ∃ p, r = p + 1 ∧ stringContentsIn s quote n pos = (p, true) := by
  induction n generalizing pos with
  | zero => cases hend
  | succ n ih =>
      rw [stringEndIn_succ] at hend
      obtain ⟨p, hfind, hend⟩ := Option.bind_eq_some_iff.mp hend
      obtain ⟨-, hlt, -⟩ := Source.find?_eq_some hfind
      rw [stringContentsIn_succ, hfind]
      dsimp only
      by_cases hbackslash : s.charAt p == '\\'
      · rw [if_pos hbackslash] at hend ⊢
        cases n with
        | zero => cases hend
        | succ n =>
            have hsize : p + 2 < s.size := by
              rw [stringEndIn_succ] at hend
              obtain ⟨p', hfind, -⟩ := Option.bind_eq_some_iff.mp hend
              have hspec := Source.find?_eq_some hfind
              omega
            have hwidth : (s.charAt (p + 1) == '\r' && s.charAt (p + 2) == '\n') = false := by
              apply Bool.eq_false_iff.mpr
              intro hboth
              rw [Bool.and_eq_true, beq_iff_eq, beq_iff_eq] at hboth
              obtain ⟨cs, hfeed⟩ := Source.rest_of_charAt hsize (hboth.2 ▸ by decide)
              rw [hboth.2] at hfeed
              rw [stringEndIn_succ, hfeed.find?_here (by simp) (by decide)] at hend
              simp [hboth.2] at hend
            rw [if_neg (Bool.eq_false_iff.mp hwidth), Nat.min_eq_left (Nat.le_of_lt hsize)]
            exact ih hend
      · rw [if_neg hbackslash] at hend ⊢
        by_cases hbreak : s.charAt p == '\n'
        · rw [if_pos hbreak] at hend
          cases hend
        · rw [if_neg hbreak] at hend
          exact ⟨p, (Option.some.inj hend).symm, by rw [bne, Bool.eq_false_iff.mpr hbreak]; rfl⟩

/-! ## The token at a quote -/

theorem scanAt_quote (hrest : s.Rest pos (q.char :: cs)) :
    scanAt s pos = ({ start := pos, stop := (scanString s pos q.char).stop, kind := .string
                      value := (scanString s pos q.char).value }, (scanString s pos q.char).error.toList) := by
  have hbegins : Piece.BeginsToken q.char := by cases q <;> decide
  have hlexeme : scanLexeme s pos = scanString s pos q.char := by
    rw [scanLexeme, hrest.charAt q.char_ascii]
    cases q <;> rfl
  rw [scanAt, hrest.triviaAt hbegins]
  dsimp only
  rw [if_neg (Nat.not_le_of_lt hrest.lt_size), hlexeme]
  rfl

/-- A string that the lexer closes is stepped over to the same end, unless a carriage return with its line feed
is escaped in it; a string that it does not close has no end in skipped text either. -/
theorem stringEnd_eq (hrest : s.Rest pos (q.char :: cs)) :
    (∃ raw after, cs = raw ++ q.char :: after ∧ (scanString s pos q.char).error = none ∧
      (scanString s pos q.char).stop = pos + 1 + width raw + 1 ∧
      stringEnd s pos q.char = if escapesLineBreak raw then none else some (scanString s pos q.char).stop) ∨
    (scanString s pos q.char).error = some { start := pos, length := (scanString s pos q.char).stop - pos
                                             message := .unterminatedString } ∧
      stringEnd s pos q.char = none := by
  have hcontents := hrest.tail q.char_ascii
  cases hclosed : (stringContentsIn s q.char (s.size - pos) (pos + 1)).2 with
  | true =>
      obtain ⟨raw, after, rfl, hraw, hstop⟩ := exists_contents hcontents hclosed
      refine .inl ⟨raw, after, rfl, ?_⟩
      have hlexeme : (scanString s pos q.char).error = none ∧ (scanString s pos q.char).stop = pos + 1 + width raw + 1 := by
        rw [scanString]
        simp only [hclosed, hstop, if_true, and_self]
      refine ⟨hlexeme.1, hlexeme.2, ?_⟩
      cases hescapes : escapesLineBreak raw with
      | true => exact stringEndIn_escapesLineBreak hraw hescapes hcontents
      | false =>
          have hquote : q.char = '"' ∨ q.char = '\'' := by cases q <;> decide
          have hwhole : s.Rest pos (q.char :: (raw ++ [q.char]) ++ after) := by simpa using hrest
          rw [stringEnd_quoted hquote (hraw.quoted hescapes) hwhole, hlexeme.2, width_ascii q.char_ascii,
            width_append, width_ascii q.char_ascii, width_nil, if_neg Bool.false_ne_true]
          congr 1
          omega
  | false =>
      refine .inr ⟨?_, ?_⟩
      · rw [scanString]
        simp only [hclosed, Bool.false_eq_true, if_false]
      · cases hend : stringEnd s pos q.char with
        | none => rfl
        | some stop =>
            obtain ⟨p, -, hread⟩ := stringContentsIn_of_stringEndIn hend
            rw [hread] at hclosed
            cases hclosed

end Token

namespace Lexer

open Token

theorem scan_resetTo_quote (l : Lexer) {pos : Nat} {q : Quote} {cs : List Char} (hrest : l.source.Rest pos (q.char :: cs)) :
    (l.resetTo pos).scan = { l with
      token := { start := pos, stop := (scanString l.source pos q.char).stop, kind := .string
                 value := (scanString l.source pos q.char).value }
      errors := l.errors ++ (scanString l.source pos q.char).error.toList } := by
  rw [scan, resetTo]
  dsimp only
  rw [Nat.min_eq_left (Nat.le_of_lt hrest.lt_size), scanAt_quote hrest]

/-- A string in skipped text ends where the lexer finds its end, unless a carriage return with its line feed
is escaped in it: then, and where the lexer does not find the end, it has none. -/
theorem stringEnd_eq_some_iff (l : Lexer) {pos : Nat} (q : Quote) (h : l.source.charAt pos = q.char) :
    (l.resetTo pos).scan.token.kind = .string ∧ (l.resetTo pos).scan.token.start = pos ∧
      (∀ stop, stringEnd l.source pos q.char = some stop ↔
        (l.resetTo pos).scan.errors = l.errors ∧ (l.resetTo pos).scan.token.stop = stop ∧
          escapesLineBreak (l.source.slice (pos + 1) (stop - 1)).toList = false) ∧
      (stringEnd l.source pos q.char = none ↔
        (l.resetTo pos).scan.errors = l.errors ++ [{
          start := pos, length := (l.resetTo pos).scan.token.stop - pos, message := .unterminatedString }] ∨
        (l.resetTo pos).scan.errors = l.errors ∧
          escapesLineBreak (l.source.slice (pos + 1) ((l.resetTo pos).scan.token.stop - 1)).toList = true) := by
  have hquote : 0 < q.char.toNat ∧ q.char.toNat < 0x80 := by cases q <;> decide
  obtain ⟨cs, hrest⟩ := Source.rest_of_charAt (Source.onBoundary_of_charAt h hquote).1 (h ▸ hquote.2)
  rw [h] at hrest
  rw [scan_resetTo_quote l hrest]
  refine ⟨rfl, rfl, ?_⟩
  dsimp only
  rcases stringEnd_eq hrest with ⟨raw, after, rfl, herror, hstop, hend⟩ | ⟨herror, hend⟩
  · have hslice : l.source.slice (pos + 1) (pos + 1 + width raw + 1 - 1) = String.ofList raw :=
      (hrest.tail q.char_ascii).slice
    rw [hend, herror, hstop, hslice]
    cases hescapes : escapesLineBreak raw with
    | true =>
        refine ⟨fun stop => ⟨nofun, ?_⟩, by simp [hescapes]⟩
        rintro ⟨-, rfl, hnone⟩
        rw [hslice, String.toList_ofList, hescapes] at hnone
        cases hnone
    | false =>
        refine ⟨fun stop => ⟨?_, ?_⟩, by simp [hescapes]⟩
        · rintro ⟨⟩
          rw [hslice, String.toList_ofList]
          exact ⟨List.append_nil _, rfl, hescapes⟩
        · rintro ⟨-, rfl, -⟩
          rfl
  · rw [hend, herror]
    simp

/-- A lone carriage return, or a lone line feed, may be escaped in both readings. -/
theorem stringEnd_eq_some_iff_escapes :
    (ofString "f('a\\\rb\\\n\\'')").source.charAt 2 = Quote.single.char ∧
      stringEnd (ofString "f('a\\\rb\\\n\\'')").source 2 '\'' = some 12 := by
  have hquote : (ofString "f('a\\\rb\\\n\\'')").source.charAt 2 = Quote.single.char := by decide +kernel
  refine ⟨hquote, ?_⟩
  have hiff := (stringEnd_eq_some_iff (ofString "f('a\\\rb\\\n\\'')") .single hquote).2.2.1 12
  exact hiff.mpr ⟨by decide +kernel, by decide +kernel, by decide +kernel⟩

/-- The lexer closes a string with an escaped line break that skipped text never closes. -/
theorem stringEnd_escapedLineBreak :
    (ofString "'a\\\r\nb'").source.charAt 0 = Quote.single.char ∧
      (((ofString "'a\\\r\nb'").resetTo 0).scan.token.kind = .string ∧
        ((ofString "'a\\\r\nb'").resetTo 0).scan.token.stop = 7 ∧
        ((ofString "'a\\\r\nb'").resetTo 0).scan.errors = []) ∧
      stringEnd (ofString "'a\\\r\nb'").source 0 '\'' = none := by
  decide +kernel

/-- At the opening quote, a string that is written in any of the ways is scanned as one token, up to its
closing quote, that stands for the string. -/
theorem scan_written (q : Quote) {raw value : List Char} (h : Escape.Writes q.char raw value) (before after : String)
    (l : Lexer) (hsource : l.source = .ofString (before ++ String.ofList (q.char :: (raw ++ [q.char])) ++ after))
    (hstop : l.token.stop = before.utf8ByteSize) :
    l.scan = { l with token := {
      start := before.utf8ByteSize
      stop := before.utf8ByteSize + (String.ofList (q.char :: (raw ++ [q.char]))).utf8ByteSize
      kind := .string, value := String.ofList value } } := by
  have hrest : l.source.Rest before.utf8ByteSize (q.char :: (raw ++ q.char :: after.toList)) := by
    have hzero := (Source.ofString (before ++ String.ofList (q.char :: (raw ++ [q.char])) ++ after)).rest_zero
    have htext : (before ++ String.ofList (q.char :: (raw ++ [q.char])) ++ after).toList =
        before.toList ++ q.char :: (raw ++ q.char :: after.toList) := by simp
    have hdrop := Source.Rest.drop (htext ▸ hzero)
    rwa [Source.width_toList, Nat.zero_add, ← hsource] at hdrop
  have hsize : (String.ofList (q.char :: (raw ++ [q.char]))).utf8ByteSize = width (q.char :: (raw ++ [q.char])) := by
    rw [← Source.width_toList, String.toList_ofList]
  rw [scan, hstop, scanAt_quote hrest, scanString_writes h hrest, hsize]
  dsimp only
  rw [Option.toList_none, List.append_nil]

/-- A number with zeros before it, joined lines, NUL, a quote of the other kind and a character of two bytes
behind a backslash. -/
theorem scan_written_mixed :
    ({ ofString "(\"\\u\x7b00e9\x7d\\\r\n\\0'\\é\" é" with token := { start := 0, stop := 1, kind := .unknown } }).scan =
      { ofString "(\"\\u\x7b00e9\x7d\\\r\n\\0'\\é\" é" with
        token := { start := 1, stop := 20, kind := .string, value := "é\x00'é" } } := by
  have hnumber : Escape.HexNumeral ['0', '0', 'e', '9'] 'é'.toNat :=
    .snoc (k := 9) (.snoc (k := 14) (.snoc (k := 0) (.snoc (k := 0) .nil ⟨by decide, .inl rfl⟩)
      ⟨by decide, .inl rfl⟩) ⟨by decide, .inl rfl⟩) ⟨by decide, .inl rfl⟩
  have hbreak : ['\r', '\n'] ∈ Escape.lineBreaks := by decide
  have hafter : ∀ d ∈ "'\\é".toList.head?, d.isDigit = false := by
    rintro _ ⟨⟩
    decide
  have hwrites : Escape.Writes Quote.double.char "\\u\x7b00e9\x7d\\\r\n\\0'\\é".toList "é\x00'é".toList :=
    .char (.braced (by decide) hnumber) <| .joined hbreak <| .char (.zero hafter) <|
      .char (.itself (by decide)) <| .char (.escaped (by decide) (by decide) (by decide)) .nil
  exact scan_written .double hwrites "(" " é" _ rfl rfl

end Lexer

end PropContract
