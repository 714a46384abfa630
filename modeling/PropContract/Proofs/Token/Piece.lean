import PropContract.Proofs.Token.Contents
import PropContract.Token.Lexer

/-!
# Pieces of a text

Names, strings and marks as they are written, with blanks between them, are scanned as the tokens that
they stand for.
-/

namespace PropContract

open Text

/-- Whether a text is an ASCII identifier, which may be a reserved word. -/
def IsIdentifier (text : String) : Prop :=
  (∃ c cs, text.toList = c :: cs ∧ isIdentifierStart c = true) ∧
    ∀ c ∈ text.toList, c.toNat < 0x80 ∧ isIdentifierPart c = true

instance (text : String) : Decidable (IsIdentifier text) :=
  decidable_of_iff
    (text.toList.head?.any isIdentifierStart = true ∧
      (text.toList.all fun c => c.toNat < 0x80 && isIdentifierPart c) = true) <| by
    refine and_congr ?_ (by simp)
    cases text.toList <;> simp

/-- What stands in a text for one token. -/
inductive Piece where
  | word (text : String)
  | string (text : String)
  | mark (p : Punct)
  | equals
deriving DecidableEq, Repr

namespace Piece

def kind : Piece → TokenKind
  | word text =>
    match Keyword.ofSpelling? text with
    | some k => .keyword k
    | none => .identifier
  | string _ => .string
  | mark p => .punct p
  | equals => .assign .equals

def value : Piece → String
  | word text | string text => text
  | _ => ""

def chars (q : Quote) : Piece → List Char
  | word text => text.toList
  | string text => q.char :: Escape.escape q text.toList ++ [q.char]
  | mark p => p.spelling.toList
  | equals => ['=']

/-- The marks that begin no longer mark, apart from the dot. -/
def marks : List Punct :=
  [.openBrace, .closeBrace, .openParen, .closeParen, .openBracket, .closeBracket, .dot, .semicolon,
   .comma, .colon]

/-- Whether a piece is a name, a string or one of the marks. -/
def IsPlain : Piece → Prop
  | word text => IsIdentifier text
  | mark p => p ∈ marks
  | string _ | equals => True

/-- Whether a piece ends where the text goes on with `cs`. -/
def EndsAt : Piece → List Char → Prop
  | word _, cs => ∃ c ds, cs = c :: ds ∧ isIdentifierPart c = false
  | mark .dot, cs => ∃ c ds, cs = c :: ds ∧ c.toNat < 0x80 ∧ isIdentifierStart c = true
  | equals, cs => ∃ ds, cs = ' ' :: ds
  | _, _ => True

def token (q : Quote) (p : Piece) (start : Nat) : Token :=
  { start, stop := start + width (p.chars q), kind := p.kind, value := p.value }

end Piece

/-- Whether a text is a row of pieces, with any blanks before them. -/
inductive Lexes (q : Quote) : List Char → List Piece → Prop
  | nil : Lexes q [] []
  | blank {cs ts} : Lexes q cs ts → Lexes q (' ' :: cs) ts
  | cons {cs ts} {p : Piece} : p.IsPlain → p.EndsAt cs → Lexes q cs ts →
      Lexes q (p.chars q ++ cs) (p :: ts)

namespace Piece

/-! ## First characters -/

/-- Whether a character is none that is skipped before a token. -/
def BeginsToken (c : Char) : Prop :=
  c.toNat < 0x80 ∧ isLineBreak c = false ∧ isLineBlank c = false ∧ c ≠ '/'

/-- Whether a character begins no word, string or number, unless a digit follows it. -/
def BeginsPunctuation (c : Char) : Prop :=
  c ≠ '"' ∧ c ≠ '\'' ∧ c ≠ '`' ∧ c.isDigit = false ∧ c ≠ '#' ∧ isIdentifierStart c = false

instance (c : Char) : Decidable (BeginsToken c) :=
  inferInstanceAs (Decidable (_ ∧ _))

instance (c : Char) : Decidable (BeginsPunctuation c) :=
  inferInstanceAs (Decidable (_ ∧ _))

/-- What is known of a mark that is written with a character. No other punctuation begins with the
character, apart from three dots. -/
structure IsWrittenAs (p : Punct) (c : Char) : Prop where
  spelling : p.spelling.toList = [c]
  begins : BeginsToken c
  beginsPunctuation : BeginsPunctuation c
  ne_equals : c ≠ '='
  dot : c = '.' → p = .dot
  paren : c = '(' → p = .openParen
  kind : (TokenKind.punct p == .punct .questionDot) = false
  mem : ([UInt8.ofNat c.toNat], .punct p) ∈ TokenKind.punctuation
  longer : ∀ y ∈ TokenKind.punctuation, y.1.head? = some (UInt8.ofNat c.toNat) →
    y = ([UInt8.ofNat c.toNat], .punct p) ∨
      p = .dot ∧ y.1.tail.head? = some (UInt8.ofNat '.'.toNat)

theorem exists_isWrittenAs : ∀ p ∈ marks, ∃ c, IsWrittenAs p c := by
  intro p hp
  simp only [marks, List.mem_cons, List.not_mem_nil, or_false] at hp
  rcases hp with rfl | rfl | rfl | rfl | rfl | rfl | rfl | rfl | rfl | rfl <;>
    exact ⟨_, rfl, by decide, by decide, by decide, by decide, by decide, rfl, by decide +kernel,
      by decide +kernel⟩

theorem beginsToken_of_isIdentifierStart {c : Char} (hascii : c.toNat < 0x80)
    (h : isIdentifierStart c = true) : BeginsToken c := by
  have hne : ∀ d, isIdentifierStart d = false → c ≠ d := by
    rintro d hd rfl
    exact Bool.false_ne_true (hd.symm.trans h)
  refine ⟨hascii, ?_, ?_, hne '/' (by decide)⟩
  · simp [isLineBreak, hne '\n' (by decide), hne '\r' (by decide)]
  · simp [isLineBlank, hne ' ' (by decide), hne '\t' (by decide), hne '\x0b' (by decide),
      hne '\x0c' (by decide)]

theorem exists_chars_eq_cons (q : Quote) {p : Piece} (hp : p.IsPlain) :
    ∃ c cs, p.chars q = c :: cs ∧ BeginsToken c := by
  cases p with
  | word text =>
      obtain ⟨⟨c, cs, htext, hc⟩, hall⟩ := hp
      refine ⟨c, cs, htext, beginsToken_of_isIdentifierStart (hall c ?_).1 hc⟩
      rw [htext]
      exact List.mem_cons_self
  | string text =>
      refine ⟨q.char, _, rfl, ?_⟩
      cases q <;> decide
  | mark p =>
      obtain ⟨c, hc⟩ := exists_isWrittenAs p hp
      exact ⟨c, [], hc.spelling, hc.begins⟩
  | equals => exact ⟨'=', [], rfl, by decide⟩

end Piece

namespace Text.Source

variable {s : Source} {pos : Nat} {cs : List Char} {c : Char}

/-! ## Blanks -/

theorem Rest.triviaAt (h : s.Rest pos (c :: cs)) (hc : Piece.BeginsToken c) :
    Token.triviaAt s pos = { stop := pos } := by
  obtain ⟨hascii, hbreak, hblank, hslash⟩ := hc
  have hne : ∀ d : Char, 0x80 ≤ d.toNat → c ≠ d := by
    rintro d hd rfl
    exact absurd hascii (Nat.not_lt_of_le hd)
  have hsize := h.size_eq
  rw [width_ascii hascii] at hsize
  have hn : s.size - pos = width cs + 1 := by omega
  rw [Token.triviaAt, hn, Token.triviaIn, h.charAt hascii]
  simp [hbreak, hblank, hslash, hne '\u00e2' (by decide), hne '\u00c2' (by decide)]

theorem Rest.skipTrivia (h : s.Rest pos (c :: cs)) (hc : Piece.BeginsToken c) :
    Token.skipTrivia s pos = pos := by
  obtain ⟨hascii, hbreak, hblank, hslash⟩ := hc
  have hsize := h.size_eq
  rw [width_ascii hascii] at hsize
  have hn : s.size - pos = width cs + 1 := by omega
  rw [Token.skipTrivia, hn, Token.skipTriviaIn, h.charAt hascii]
  simp [hbreak, hblank, hslash]

theorem Rest.triviaAt_blank (h : s.Rest pos (' ' :: cs)) :
    Token.triviaAt s pos = Token.triviaAt s (pos + 1) := by
  have hsize := h.size_eq
  rw [width_ascii (by decide)] at hsize
  have hn : s.size - pos = (s.size - (pos + 1)) + 1 := by omega
  rw [Token.triviaAt, hn, Token.triviaIn, h.charAt (by decide)]
  rfl

theorem Rest.skipTrivia_blank (h : s.Rest pos (' ' :: cs)) :
    Token.skipTrivia s pos = Token.skipTrivia s (pos + 1) := by
  have hsize := h.size_eq
  rw [width_ascii (by decide)] at hsize
  have hn : s.size - pos = (s.size - (pos + 1)) + 1 := by omega
  rw [Token.skipTrivia, hn, Token.skipTriviaIn, h.charAt (by decide)]
  rfl

theorem Rest.scanAt_blank (h : s.Rest pos (' ' :: cs)) :
    Token.scanAt s pos = Token.scanAt s (pos + 1) := by
  rw [Token.scanAt, Token.scanAt, h.triviaAt_blank]

theorem Rest.scanAt_nil (h : s.Rest pos []) :
    Token.scanAt s pos = ({ start := pos, stop := pos, kind := .endOfFile }, []) := by
  have hsize : s.size = pos := h.size_eq
  have htrivia : Token.triviaAt s pos = { stop := pos } := by
    rw [Token.triviaAt, hsize, Nat.sub_self]
    rfl
  rw [Token.scanAt, htrivia]
  simp [hsize]

/-! ## Tokens -/

theorem isIdentifierPart_of_le {c : Char} (h : 0x80 ≤ c.toNat) : isIdentifierPart c = true := by
  simp [isIdentifierPart, isIdentifierStart, h]

theorem Rest.scanWord {text : String} (hall : ∀ c ∈ text.toList, isIdentifierPart c = true)
    (hc : isIdentifierPart c = false) (h : s.Rest pos (text.toList ++ c :: cs)) :
    Token.scanWord s pos =
      { stop := pos + width text.toList, kind := (Piece.word text).kind, value := text } := by
  have hend : Token.identifierEnd s pos = pos + width text.toList :=
    h.skipWhile (fun _ => isIdentifierPart_of_le) hall hc
  have hslice := h.slice
  rw [String.ofList_toList] at hslice
  rw [Token.scanWord, hend, hslice]
  rfl

theorem punctuation_ne_nil : ∀ y ∈ TokenKind.punctuation, y.1 ≠ [] := by
  decide +kernel

/-- Punctuation of one character is found unless the text goes on as a longer one does. -/
theorem Rest.scanPunctuation {kind : TokenKind} (hascii : c.toNat < 0x80)
    (hkind : (kind == .punct .questionDot) = false)
    (hmem : ([UInt8.ofNat c.toNat], kind) ∈ TokenKind.punctuation)
    (hlonger : ∀ y ∈ TokenKind.punctuation, y.1.head? = some (UInt8.ofNat c.toNat) →
      y = ([UInt8.ofNat c.toNat], kind) ∨
        ∃ b, y.1.tail.head? = some b ∧ (bytesOf cs).head? ≠ some b)
    (h : s.Rest pos (c :: cs)) :
    Token.scanPunctuation s pos = { stop := pos + 1, kind } := by
  have hbytes : bytesOf (c :: cs) = UInt8.ofNat c.toNat :: bytesOf cs := by
    rw [bytesOf_cons, utf8EncodeChar_ascii hascii]
    rfl
  rw [Token.scanPunctuation]
  generalize hfind : TokenKind.punctuation.find? _ = found
  cases found with
  | none =>
      have hfalse := List.find?_eq_none.mp hfind _ hmem
      simp [h.holdsAt, hbytes, hkind] at hfalse
  | some y =>
      have hy := List.find?_some hfind
      simp only [h.holdsAt, hbytes, Bool.and_eq_true] at hy
      obtain ⟨b, w, hw⟩ := List.exists_cons_of_ne_nil (punctuation_ne_nil y (List.mem_of_find?_eq_some hfind))
      rw [hw, List.isPrefixOf, Bool.and_eq_true, beq_iff_eq] at hy
      obtain ⟨⟨rfl, hprefix⟩, -⟩ := hy
      obtain rfl | ⟨b, hb, hne⟩ := hlonger y (List.mem_of_find?_eq_some hfind) (by rw [hw]; rfl)
      · rfl
      · rw [hw, List.tail_cons] at hb
        obtain ⟨w', rfl⟩ := List.head?_eq_some_iff.mp hb
        obtain ⟨rest, hrest⟩ := List.isPrefixOf_iff_prefix.mp hprefix
        rw [← hrest] at hne
        exact absurd rfl hne

/-- No digit begins an identifier. -/
theorem isDigit_eq_false {c : Char} (h : isIdentifierStart c = true) : c.isDigit = false := by
  have hdigits : ∀ k < 10, isIdentifierStart (Char.ofNat ('0'.toNat + k)) = false := by decide
  rw [Bool.eq_false_iff]
  intro hdigit
  obtain ⟨hzero, hnine⟩ := Char.isDigit_iff_toNat.mp hdigit
  have hlt : c.toNat - '0'.toNat < 10 := by
    change c.toNat ≤ 57 at hnine
    change c.toNat - 48 < 10
    omega
  have hfalse := hdigits _ hlt
  rw [Nat.add_sub_cancel' hzero, Char.ofNat_toNat, h] at hfalse
  cases hfalse

theorem Rest.scanLexeme_punctuation (hascii : c.toNat < 0x80) (hc : Piece.BeginsPunctuation c)
    (hdot : c = '.' → (s.charAt (pos + 1)).isDigit = false) (h : s.Rest pos (c :: cs)) :
    Token.scanLexeme s pos = Token.scanPunctuation s pos := by
  obtain ⟨hdouble, hsingle, htick, hdigit, hhash, hstart⟩ := hc
  have hnumber : (c == '.' && (s.charAt (pos + 1)).isDigit) = false := by
    by_cases hc : c = '.'
    · simp [hdot hc]
    · simp [hc]
  simp [Token.scanLexeme, h.charAt hascii, hdouble, hsingle, htick, hdigit, hnumber, hhash, hstart]

theorem Rest.scanLexeme_word (hascii : c.toNat < 0x80) (hc : isIdentifierStart c = true)
    (h : s.Rest pos (c :: cs)) : Token.scanLexeme s pos = Token.scanWord s pos := by
  have hne : ∀ d, isIdentifierStart d = false → c ≠ d := by
    rintro d hd rfl
    exact Bool.false_ne_true (hd.symm.trans hc)
  simp [Token.scanLexeme, h.charAt hascii, hne '"' (by decide), hne '\'' (by decide),
    hne '`' (by decide), isDigit_eq_false hc, hne '.' (by decide), hne '#' (by decide), hc]

end Text.Source

namespace Piece

variable {s : Source} {pos : Nat} {cs : List Char} {q : Quote} {p : Piece}

theorem scanLexeme_mark {m : Punct} (hm : m ∈ marks) (hends : (mark m).EndsAt cs)
    (h : s.Rest pos ((mark m).chars q ++ cs)) :
    Token.scanLexeme s pos = { stop := pos + width ((mark m).chars q), kind := .punct m } := by
  obtain ⟨c, hc⟩ := exists_isWrittenAs m hm
  have hascii := hc.begins.1
  have hchars : (mark m).chars q = [c] := hc.spelling
  rw [hchars] at h ⊢
  rw [List.singleton_append] at h
  have hnext : m = .dot → ∃ d ds, cs = d :: ds ∧ d.toNat < 0x80 ∧ isIdentifierStart d = true := by
    rintro rfl
    exact hends
  rw [Source.Rest.scanLexeme_punctuation hascii hc.beginsPunctuation _ h]
  · rw [Source.Rest.scanPunctuation hascii hc.kind hc.mem _ h, width_ascii hascii]
    · rfl
    · intro y hy hhead
      obtain heq | ⟨hdot, hsecond⟩ := hc.longer y hy hhead
      · exact .inl heq
      · obtain ⟨d, ds, rfl, hd, hstart⟩ := hnext hdot
        refine .inr ⟨_, hsecond, ?_⟩
        rw [bytesOf_cons, utf8EncodeChar_ascii hd]
        intro heq
        have hchar := congrArg Char.ofUInt8 (Option.some.inj heq)
        rw [ofUInt8_ascii hd, ofUInt8_ascii (by decide)] at hchar
        rw [hchar] at hstart
        exact absurd hstart (by decide)
  · intro hdot
    obtain ⟨d, ds, rfl, hd, hstart⟩ := hnext (hc.dot hdot)
    rw [(Source.Rest.tail h hascii).charAt hd]
    exact Source.isDigit_eq_false hstart

theorem scanLexeme_eq (hp : p.IsPlain) (hends : p.EndsAt cs) (h : s.Rest pos (p.chars q ++ cs)) :
    Token.scanLexeme s pos =
      { stop := pos + width (p.chars q), kind := p.kind, value := p.value } := by
  cases p with
  | word text =>
      obtain ⟨⟨c, ds, htext, hc⟩, hall⟩ := hp
      obtain ⟨e, es, rfl, he⟩ := hends
      have hascii : c.toNat < 0x80 := (hall c (by simp [htext])).1
      have hword : s.Rest pos (c :: (ds ++ e :: es)) := by
        rw [chars, htext] at h
        exact h
      rw [hword.scanLexeme_word hascii hc]
      exact Source.Rest.scanWord (fun c hc => (hall c hc).2) he h
  | string text =>
      have hquote : s.charAt pos = q.char :=
        Source.Rest.charAt (show s.Rest pos (q.char :: _) from h) q.char_ascii
      have hlexeme : Token.scanLexeme s pos = Token.scanString s pos q.char := by
        rw [Token.scanLexeme, hquote]
        cases q <;> rfl
      have hstring : s.Rest pos (q.char :: (Escape.escape q text.toList ++ q.char :: cs)) := by
        rw [chars, List.append_assoc] at h
        exact h
      rw [hlexeme, Token.scanString_writes (Escape.writes_escape q _) hstring, String.ofList_toList]
      rfl
  | mark p =>
      exact scanLexeme_mark hp hends h
  | equals =>
      obtain ⟨ds, rfl⟩ := hends
      have hequals : s.Rest pos ('=' :: ' ' :: ds) := h
      rw [hequals.scanLexeme_punctuation (by decide) (by decide) (fun h => absurd h (by decide))]
      refine hequals.scanPunctuation (by decide) rfl (by decide +kernel) ?_
      have hlonger : ∀ y ∈ TokenKind.punctuation, y.1.head? = some (UInt8.ofNat '='.toNat) →
          y = ([UInt8.ofNat '='.toNat], .assign .equals) ∨
            ∃ b ∈ y.1.tail.head?, some (UInt8.ofNat ' '.toNat) ≠ some b := by
        decide +kernel
      intro y hy hhead
      obtain heq | ⟨b, hb, hne⟩ := hlonger y hy hhead
      · exact .inl heq
      · exact .inr ⟨b, hb, hne⟩

theorem scanAt_eq (hp : p.IsPlain) (hends : p.EndsAt cs) (h : s.Rest pos (p.chars q ++ cs)) :
    Token.scanAt s pos = (p.token q pos, []) := by
  obtain ⟨c, ds, hchars, hc⟩ := exists_chars_eq_cons q hp
  have hcons : s.Rest pos (c :: (ds ++ cs)) := by
    rw [hchars] at h
    exact h
  have hsize := hcons.size_eq
  rw [width_ascii hc.1] at hsize
  have hlt : ¬ s.size ≤ pos := by omega
  rw [Token.scanAt, hcons.triviaAt hc]
  simp only [if_neg hlt, scanLexeme_eq hp hends h]
  rfl

end Piece

namespace Lexes

variable {s : Source} {pos : Nat} {cs : List Char} {q : Quote} {p : Piece} {ts : List Piece}

/-- What stands at the first piece of a row. -/
theorem scan_cons (hl : Lexes q cs (p :: ts)) (h : s.Rest pos cs) :
    ∃ start ds, pos ≤ start ∧ Token.skipTrivia s pos = start ∧
      Token.scanAt s pos = (p.token q start, []) ∧ p.IsPlain ∧ p.EndsAt ds ∧
      s.Rest start (p.chars q ++ ds) ∧ Lexes q ds ts := by
  generalize hrow : p :: ts = row at hl
  induction hl generalizing pos with
  | nil => cases hrow
  | blank _ ih =>
      obtain ⟨start, ds, hle, htrivia, hscan, hrest⟩ := ih (h.tail (by decide)) hrow
      refine ⟨start, ds, Nat.le_of_succ_le hle, ?_, ?_, hrest⟩
      · rw [h.skipTrivia_blank, htrivia]
      · rw [h.scanAt_blank, hscan]
  | @cons ds _ _ hp hends hl _ =>
      cases hrow
      obtain ⟨c, es, hchars, hc⟩ := Piece.exists_chars_eq_cons q hp
      refine ⟨pos, ds, Nat.le_refl pos, ?_, Piece.scanAt_eq hp hends h, hp, hends, h, hl⟩
      rw [hchars] at h
      exact Source.Rest.skipTrivia h hc

theorem scan_nil (hl : Lexes q cs []) (h : s.Rest pos cs) :
    ∃ start, pos ≤ start ∧
      Token.scanAt s pos = ({ start, stop := start, kind := .endOfFile }, []) := by
  generalize hrow : ([] : List Piece) = row at hl
  induction hl generalizing pos with
  | nil => exact ⟨pos, Nat.le_refl pos, h.scanAt_nil⟩
  | blank _ ih =>
      obtain ⟨start, hle, hscan⟩ := ih (h.tail (by decide)) hrow
      exact ⟨start, Nat.le_of_succ_le hle, by rw [h.scanAt_blank, hscan]⟩
  | cons => cases hrow

theorem length_le (hl : Lexes q cs ts) : ts.length ≤ cs.length := by
  induction hl with
  | nil => exact Nat.le_refl 0
  | blank _ ih => exact Nat.le_succ_of_le ih
  | cons hp _ _ ih =>
      obtain ⟨c, ds, hchars, -⟩ := Piece.exists_chars_eq_cons q hp
      rw [hchars, List.length_append, List.length_cons, List.length_cons]
      omega

end Lexes

end PropContract
