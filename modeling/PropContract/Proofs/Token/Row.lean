import Mathlib.Data.List.Chain
import Mathlib.Data.List.Find
import PropContract.Parse.Expression
import PropContract.Proofs.Token.Piece

/-!
# Rows of tokens

The tokens from an offset to the end of a text, by their kinds and values. Names, parentheses and binary
operators between blanks are scanned as the tokens that they stand for.
-/

namespace PropContract

open Text

namespace Token

variable {s : Source} {pos : Nat} {ts : List (TokenKind × String)}

/-- Whether a text goes on from an offset with tokens of these kinds and values up to its end, and without
errors. -/
inductive Row (s : Source) : (pos : Nat) → List (TokenKind × String) → Prop
  | nil {pos token} (hscan : scanAt s pos = (token, [])) (hkind : token.kind = .endOfFile)
      (hle : pos ≤ token.start) : Row s pos []
  | cons {pos token ts} (hscan : scanAt s pos = (token, [])) (hlt : token.start < token.stop)
      (hle : pos ≤ token.start) (rest : Row s token.stop ts) :
      Row s pos ((token.kind, token.value) :: ts)

/-- Blanks before a row belong to it. -/
theorem Row.blank {cs : List Char} (h : Row s (pos + 1) ts) (hrest : s.Rest pos (' ' :: cs)) :
    Row s pos ts := by
  cases h with
  | nil hscan hkind hle => exact .nil (hrest.scanAt_blank.trans hscan) hkind (Nat.le_of_succ_le hle)
  | cons hscan hlt hle rest =>
      exact .cons (hrest.scanAt_blank.trans hscan) hlt (Nat.le_of_succ_le hle) rest

/-- Whether characters are one token of a kind and a value where the text goes on with `cs`. -/
structure Spells (chars : List Char) (kind : TokenKind) (value : String) (cs : List Char) : Prop where
  nonempty : chars ≠ []
  scan : ∀ s pos, s.Rest pos (chars ++ cs) →
    scanAt s pos = ({ start := pos, stop := pos + width chars, kind, value }, [])

/-- Whether a text is a row of tokens, with any blanks before them. -/
inductive SpellsRow : List Char → List (TokenKind × String) → Prop
  | nil : SpellsRow [] []
  | blank {cs ts} : SpellsRow cs ts → SpellsRow (' ' :: cs) ts
  | cons {chars cs ts kind value} : Spells chars kind value cs → SpellsRow cs ts →
      SpellsRow (chars ++ cs) ((kind, value) :: ts)

theorem SpellsRow.row {cs : List Char} (h : SpellsRow cs ts) (hrest : s.Rest pos cs) : Row s pos ts := by
  induction h generalizing pos with
  | nil => exact .nil hrest.scanAt_nil rfl (Nat.le_refl pos)
  | blank _ ih => exact (ih (hrest.tail (by decide))).blank hrest
  | @cons chars cs ts kind value h _ ih =>
      have hpos := Nat.lt_of_lt_of_le (List.length_pos_iff.mpr h.nonempty) (length_le_width chars)
      exact .cons (h.scan s pos hrest) (Nat.lt_add_of_pos_right hpos) (Nat.le_refl pos) (ih hrest.drop)

theorem SpellsRow.length_le {cs : List Char} (h : SpellsRow cs ts) : ts.length ≤ cs.length := by
  induction h with
  | nil => exact Nat.le_refl 0
  | blank _ ih => exact Nat.le_succ_of_le ih
  | cons h _ ih =>
      have hpos := List.length_pos_iff.mpr h.nonempty
      rw [List.length_append, List.length_cons]
      omega

/-! ## One token -/

theorem scanAt_of_scanLexeme {stop : Nat} {kind : TokenKind} {value : String} {c : Char} {cs : List Char}
    (hrest : s.Rest pos (c :: cs)) (hc : c.toNat < 0x80) (htrivia : triviaAt s pos = { stop := pos })
    (h : scanLexeme s pos = { stop, kind, value }) :
    scanAt s pos = ({ start := pos, stop, kind, value }, []) := by
  have hsize := hrest.size_eq
  rw [width_ascii hc] at hsize
  have hlt : ¬ s.size ≤ pos := by omega
  rw [scanAt, htrivia]
  simp only [if_neg hlt, h]
  rfl

end Token

namespace Text.Source

variable {s : Source} {pos : Nat} {ds : List Char}

/-- A run of characters with a property that all bytes outside of ASCII have may go on to the end. -/
theorem Rest.skipWhile_end {p : Char → Bool} (hp : ∀ c, 0x80 ≤ c.toNat → p c = true)
    (hds : ∀ d ∈ ds, p d = true) (h : s.Rest pos ds) : s.skipWhile p pos = pos + width ds := by
  have hrest : s.Rest pos (ds ++ []) := by rwa [List.append_nil]
  have hskip := hrest.find?_skip (p := fun c => !p c) (fun c hle => by simp [hp c hle])
    (fun d hd => by simp [hds d hd])
  have hsize := h.size_eq
  rw [Source.skipWhile, hskip, Source.find?, hsize, Nat.sub_self, Source.findIn, Option.getD_none]
  exact Nat.max_eq_right (Nat.le_add_right _ _)

end Text.Source

namespace Token

open Text.Source

variable {s : Source} {pos : Nat} {cs : List Char}

/-- A word that ends where the text does not go on with a part of a word. -/
theorem spells_word {text : String} (h : IsIdentifier text)
    (hends : ∀ c ∈ cs.head?, isIdentifierPart c = false) :
    Spells text.toList (Piece.word text).kind text cs := by
  obtain ⟨⟨c, ds, htext, hc⟩, hall⟩ := h
  have hascii : c.toNat < 0x80 := (hall c (by simp [htext])).1
  refine ⟨by simp [htext], fun s pos hrest => ?_⟩
  have hword : s.Rest pos (c :: (ds ++ cs)) := by
    rw [htext] at hrest
    exact hrest
  have hend : identifierEnd s pos = pos + width text.toList := by
    cases cs with
    | nil =>
        rw [List.append_nil] at hrest
        exact hrest.skipWhile_end (fun _ => isIdentifierPart_of_le) fun c hc => (hall c hc).2
    | cons e es =>
        exact hrest.skipWhile (fun _ => isIdentifierPart_of_le) (fun c hc => (hall c hc).2) (hends e rfl)
  have hslice := hrest.slice
  rw [String.ofList_toList] at hslice
  refine scanAt_of_scanLexeme hword hascii
    (hword.triviaAt (Piece.beginsToken_of_isIdentifierStart hascii hc)) ?_
  rw [hword.scanLexeme_word hascii hc, scanWord, hend, hslice]
  rfl

theorem spells_mark {m : Punct} (hm : m ∈ [.openParen, .closeParen]) :
    Spells m.spelling.toList (.punct m) "" cs := by
  have hplain : m ∈ Piece.marks := by
    simp only [List.mem_cons, List.not_mem_nil, or_false] at hm
    rcases hm with rfl | rfl <;> decide
  have hends : (Piece.mark m).EndsAt cs := by
    simp only [List.mem_cons, List.not_mem_nil, or_false] at hm
    rcases hm with rfl | rfl <;> trivial
  obtain ⟨c, hc⟩ := Piece.exists_isWrittenAs m hplain
  exact ⟨by simp [hc.spelling], fun s pos hrest =>
    Piece.scanAt_eq (show (Piece.mark m).IsPlain from hplain) hends
      (show s.Rest pos ((Piece.mark m).chars .double ++ cs) from hrest)⟩

end Token

/-! ## Binary operators -/

namespace TokenKind

/-- How a binary operator is written. -/
def operatorText : TokenKind → String
  | .punct p => p.spelling
  | .keyword k => k.spelling
  | _ => ""

/-- The value of the token of a binary operator. -/
def operatorValue : TokenKind → String
  | .keyword k => k.spelling
  | _ => ""

def operators : List TokenKind :=
  [.punct .questionQuestion, .punct .barBar, .punct .ampersandAmpersand, .punct .bar, .punct .caret,
   .punct .ampersand, .punct .equalsEquals, .punct .exclamationEquals, .punct .equalsEqualsEquals,
   .punct .exclamationEqualsEquals, .punct .lessThan, .punct .greaterThan, .punct .lessThanEquals,
   .punct .greaterThanEquals, .keyword .instanceOfWord, .keyword .inWord, .punct .lessThanLessThan,
   .punct .greaterThanGreaterThan, .punct .greaterThanGreaterThanGreaterThan, .punct .plus,
   .punct .minus, .punct .asterisk, .punct .slash, .punct .percent, .punct .asteriskAsterisk]

theorem mem_operators {k : TokenKind} (h : k.precedence ≠ 0) : k ∈ operators := by
  unfold precedence at h
  split at h
  all_goals first | exact absurd rfl h | decide

end TokenKind

namespace Token

open Text.Source

variable {cs : List Char}

/-- Bytes that hold no blank stand before a blank if they stand without it. -/
theorem isPrefixOf_before {w v rest : List UInt8} {b : UInt8} (hb : b ∉ w) :
    w.isPrefixOf (v ++ b :: rest) = w.isPrefixOf v := by
  induction w generalizing v with
  | nil => simp
  | cons x w ih =>
      obtain ⟨hne, hw⟩ := List.ne_and_not_mem_of_not_mem_cons hb
      cases v with
      | nil => simp [List.isPrefixOf, Ne.symm hne]
      | cons y v => simp only [List.cons_append, List.isPrefixOf, ih hw]

theorem blank_not_mem_punctuation : ∀ y ∈ TokenKind.punctuation, UInt8.ofNat ' '.toNat ∉ y.1 := by
  decide +kernel

/-- What is known of punctuation that is a binary operator. -/
theorem operators_spelling : ∀ p, TokenKind.punct p ∈ TokenKind.operators →
    ∃ c ds, p.spelling.toList = c :: ds ∧ c.toNat < 0x80 ∧ (c = '/' → ds = []) ∧
      isLineBreak c = false ∧ isLineBlank c = false ∧ Piece.BeginsPunctuation c ∧ c ≠ '.' ∧
      ∀ digit, (TokenKind.punctuation.find? fun (w, kind) =>
        w.isPrefixOf (bytesOf p.spelling.toList) && !(kind == .punct .questionDot && digit)) =
          some (bytesOf p.spelling.toList, .punct p) := by
  intro p hp
  simp only [TokenKind.operators, List.mem_cons, List.not_mem_nil, or_false, TokenKind.punct.injEq,
    reduceCtorEq, false_or] at hp
  rcases hp with rfl | rfl | rfl | rfl | rfl | rfl | rfl | rfl | rfl | rfl | rfl | rfl | rfl | rfl |
    rfl | rfl | rfl | rfl | rfl | rfl | rfl | rfl | rfl <;>
  exact ⟨_, _, rfl, by decide, by decide, by decide, by decide, by decide, by decide, by decide +kernel⟩

theorem triviaAt_operator {s : Source} {pos : Nat} {c : Char} {ds : List Char} (hascii : c.toNat < 0x80)
    (hbreak : isLineBreak c = false) (hblank : isLineBlank c = false) (hslash : c = '/' → ds = [])
    (h : s.Rest pos (c :: (ds ++ ' ' :: cs))) : triviaAt s pos = { stop := pos } := by
  by_cases hc : c = '/'
  · obtain rfl := hslash hc
    subst hc
    have hsize := h.size_eq
    rw [width_ascii hascii] at hsize
    have hn : s.size - pos = width ([] ++ ' ' :: cs) + 1 := by omega
    rw [triviaAt, hn, triviaIn, h.charAt hascii, (h.tail hascii).charAt (by decide)]
    rfl
  · exact h.triviaAt ⟨hascii, hbreak, hblank, hc⟩

theorem scanPunctuation_operator {p : Punct} (hp : .punct p ∈ TokenKind.operators) {s : Source} {pos : Nat}
    (h : s.Rest pos (p.spelling.toList ++ ' ' :: cs)) :
    scanPunctuation s pos = { stop := pos + width p.spelling.toList, kind := .punct p } := by
  obtain ⟨c, ds, -, -, -, -, -, -, -, hfind⟩ := operators_spelling p hp
  have hfound := hfind (s.charAt (pos + 2)).isDigit
  have hbytes : bytesOf (p.spelling.toList ++ ' ' :: cs) =
      bytesOf p.spelling.toList ++ UInt8.ofNat ' '.toNat :: bytesOf cs := by
    rw [bytesOf_append, bytesOf_cons, utf8EncodeChar_ascii (by decide)]
    rfl
  have heq : (TokenKind.punctuation.find? fun (w, kind) =>
      s.holdsAt pos w && !(kind == .punct .questionDot && (s.charAt (pos + 2)).isDigit)) =
        some (bytesOf p.spelling.toList, .punct p) := by
    rw [← hfound]
    refine List.find?_congr fun y hy => ?_
    dsimp only
    rw [h.holdsAt, hbytes, isPrefixOf_before (blank_not_mem_punctuation y hy)]
  rw [scanPunctuation, heq]
  rfl

/-- A binary operator before a blank. -/
theorem spells_operator {k : TokenKind} (h : k.precedence ≠ 0) :
    Spells k.operatorText.toList k k.operatorValue (' ' :: cs) := by
  have hmem := TokenKind.mem_operators h
  cases k with
  | punct p =>
      obtain ⟨c, ds, hchars, hascii, hslash, hbreak, hblank, hbegins, hdot, -⟩ := operators_spelling p hmem
      refine ⟨by simp [TokenKind.operatorText, hchars], fun s pos hrest => ?_⟩
      have hcons : s.Rest pos (c :: (ds ++ ' ' :: cs)) := by
        rw [TokenKind.operatorText, hchars] at hrest
        exact hrest
      refine scanAt_of_scanLexeme hcons hascii (triviaAt_operator hascii hbreak hblank hslash hcons) ?_
      rw [hcons.scanLexeme_punctuation hascii hbegins fun hc => absurd hc hdot]
      exact scanPunctuation_operator hmem hrest
  | keyword w =>
      simp only [TokenKind.operators, List.mem_cons, List.not_mem_nil, or_false, TokenKind.keyword.injEq,
        reduceCtorEq, false_or] at hmem
      have hends : ∀ c ∈ (' ' :: cs).head?, isIdentifierPart c = false := by
        rintro _ ⟨⟩
        decide
      rcases hmem with rfl | rfl
      · have hword : IsIdentifier "instanceof" := by decide
        exact spells_word hword hends
      · have hword : IsIdentifier "in" := by decide
        exact spells_word hword hends
  | _ => exact absurd rfl h

end Token

/-! ## Texts without arrows -/

namespace Text

/-- Whether a text is in ASCII and holds no arrow. -/
structure Arrowless (cs : List Char) : Prop where
  ascii : ∀ c ∈ cs, c.toNat < 0x80
  chain : cs.IsChain fun c d => ¬ (c = '=' ∧ d = '>')

namespace Arrowless

variable {c : Char} {cs ds : List Char}

theorem nil : Arrowless [] := ⟨by simp, .nil⟩

theorem cons (hascii : c.toNat < 0x80) (hc : c ≠ '=') (h : Arrowless cs) : Arrowless (c :: cs) :=
  ⟨List.forall_mem_cons.mpr ⟨hascii, h.ascii⟩,
    List.isChain_cons.mpr ⟨fun _ _ hand => hc hand.1, h.chain⟩⟩

theorem append (h : Arrowless cs) (h' : Arrowless ds) (hds : ∀ d ∈ ds.head?, d ≠ '>') :
    Arrowless (cs ++ ds) :=
  ⟨List.forall_mem_append.mpr ⟨h.ascii, h'.ascii⟩,
    List.isChain_append.mpr ⟨h.chain, h'.chain, fun _ _ d hd hand => hds d hd hand.2⟩⟩

theorem of_identifier {text : String} (h : IsIdentifier text) : Arrowless text.toList := by
  refine ⟨fun c hc => (h.2 c hc).1, List.isChain_iff_getElem.mpr fun i hi hand => ?_⟩
  have hpart := (h.2 _ (List.getElem_mem (Nat.lt_of_succ_lt hi))).2
  rw [hand.1] at hpart
  exact absurd hpart (by decide)

theorem operatorText {k : TokenKind} (h : k.precedence ≠ 0) : Arrowless k.operatorText.toList := by
  have hmem := TokenKind.mem_operators h
  -- A quantifier over characters could be decided by going through all characters that there are.
  have hall : ∀ k ∈ TokenKind.operators, (k.operatorText.toList.all fun c => c.toNat < 0x80) = true ∧
      k.operatorText.toList.IsChain fun c d => ¬ (c = '=' ∧ d = '>') := by
    decide +kernel
  exact ⟨fun c hc => of_decide_eq_true (List.all_eq_true.mp (hall k hmem).1 c hc), (hall k hmem).2⟩

theorem bytesOf_eq (h : ∀ c ∈ cs, c.toNat < 0x80) : bytesOf cs = cs.map fun c => UInt8.ofNat c.toNat := by
  induction cs with
  | nil => rfl
  | cons c cs ih =>
      obtain ⟨hc, hcs⟩ := List.forall_mem_cons.mp h
      rw [bytesOf_cons, utf8EncodeChar_ascii hc, ih hcs]
      rfl

/-- No arrow stands at any offset. -/
theorem startsWithAt {s : Source} (h : Arrowless cs) (hrest : s.Rest 0 cs) (pos : Nat) :
    s.startsWithAt pos "=>" = false := by
  have hbytes : s.bytes.data.toList = cs.map fun c => UInt8.ofNat c.toNat := by
    rw [← bytesOf_eq h.ascii, ← hrest.drop_bytes, List.drop_zero]
  have hbyte (i : Nat) : s.byte? i = (cs[i]?).map fun c => UInt8.ofNat c.toNat := by
    rw [Source.byte?_of_drop rfl, List.head?_drop, hbytes, List.getElem?_map]
  have hchar {i : Nat} {d : Char} (hd : d.toNat < 0x80) (hi : s.byte? i = some (UInt8.ofNat d.toNat)) :
      cs[i]? = some d := by
    rw [hbyte] at hi
    obtain ⟨c, hc, heq⟩ := Option.map_eq_some_iff.mp hi
    have hascii := h.ascii c (List.mem_of_getElem? hc)
    have heq := congrArg Char.ofUInt8 heq
    rw [ofUInt8_ascii hascii, ofUInt8_ascii hd] at heq
    rw [hc, heq]
  rw [Bool.eq_false_iff]
  intro hholds
  rw [Source.startsWithAt, show "=>".toUTF8.data.toList = [UInt8.ofNat '='.toNat, UInt8.ofNat '>'.toNat]
    by decide +kernel, Source.holdsAt, Source.holdsAt] at hholds
  simp only [Bool.and_eq_true, beq_iff_eq] at hholds
  have hequals := hchar (d := '=') (by decide) hholds.1
  have hgreater := hchar (d := '>') (by decide) hholds.2.1
  obtain ⟨hlt, hgreater⟩ := List.getElem?_eq_some_iff.mp hgreater
  obtain ⟨_, hequals⟩ := List.getElem?_eq_some_iff.mp hequals
  exact List.isChain_iff_getElem.mp h.chain pos hlt ⟨hequals, hgreater⟩

end Arrowless

end Text

end PropContract
