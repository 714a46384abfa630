import PropContract.Parse.Statement
import PropContract.Proofs.Token.Front
import PropContract.Proofs.Token.Piece
import PropContract.Proofs.Token.Suffix

/-!
# Lines

A statement that is stepped over is a row of tokens and closed groups. Such a row is the same one
wherever its text stands, if a blank, a line feed or a semicolon stands behind it.
-/

namespace PropContract

open Text

namespace Token

/-- Whether a token stands in the same line as what is before it, and a statement may go on with it other
than with a block. -/
structure InLine (t : Token) : Prop where
  sameLine : t.afterLineBreak = false
  kind : t.kind ∉ [.endOfFile, .punct .semicolon, .punct .openBrace, .punct .closeBrace]

theorem InLine.ne_endOfFile {t : Token} (h : t.InLine) : t.kind ≠ .endOfFile := fun heq =>
  h.kind (heq ▸ List.mem_cons_self)

/-- How a row ends: with a token behind which a statement may end, with one behind which a statement is still
to come, such as `else` or a group in round brackets, or with a block. -/
inductive Ending where
  | plain | owing | block
deriving DecidableEq, Repr

/-- Whether the text between two offsets is a row of tokens and of groups in round or square brackets, all in
one line and without errors; it may end with a group in braces. `owes` says whether a statement is to come
before the row. -/
inductive Line (s : Source) (stop : Nat) : (pos : Nat) → (owes : Bool) → Ending → Prop
  | plain : Line s stop stop false .plain
  | owing : Line s stop stop true .owing
  | block {pos : Nat} {token : Token} {owes : Bool} (hscan : scanAt s pos = (token, []))
      (hline : token.afterLineBreak = false) (hkind : token.kind = .punct .openBrace)
      (hclose : groupEnd s token.start = some stop) : Line s stop pos owes .block
  | token {pos : Nat} {token : Token} {owes : Bool} {ending : Ending} (hscan : scanAt s pos = (token, []))
      (hline : token.InLine) (hopener : Parser.isOpener token.kind = false)
      (rest : Line s stop token.stop token.kind.wantsStatement ending) : Line s stop pos owes ending
  | group {pos close : Nat} {token : Token} {owes : Bool} {ending : Ending} (hscan : scanAt s pos = (token, []))
      (hline : token.InLine) (hopener : Parser.isOpener token.kind = true)
      (hclose : groupEnd s token.start = some close)
      (rest : Line s stop close (token.kind == .punct .openParen) ending) : Line s stop pos owes ending

variable {t s : Source} {c : Char} {pos stop offset : Nat} {owes : Bool} {ending : Ending}

theorem triviaIn_broken (s : Source) (n pos : Nat) :
    triviaIn s n pos true = { triviaIn s n pos false with lineBreak := true } := by
  induction n generalizing pos with
  | zero => rfl
  | succ n ih =>
      rw [triviaIn, triviaIn]
      dsimp only
      split
      · rw [ih]
      split
      · rw [ih]
      split
      · rw [ih]
      split
      · cases blockCommentEnd s pos with
        | none => rfl
        | some found => cases hbroken : found.2 <;> simp [hbroken, ih]
      split
      · rw [ih]
      split
      · rw [ih]
      · rfl

/-- A line feed before a token puts it on a new line. -/
theorem scanAt_lineFeed {cs : List Char} (h : s.Rest pos ('\n' :: cs)) :
    scanAt s pos = ({ (scanAt s (pos + 1)).1 with afterLineBreak := true }, (scanAt s (pos + 1)).2) := by
  have hsize := h.size_eq
  rw [width_ascii (by decide)] at hsize
  have hn : s.size - pos = (s.size - (pos + 1)) + 1 := by omega
  have htrivia : triviaAt s pos = { triviaAt s (pos + 1) with lineBreak := true } := by
    rw [triviaAt, hn, triviaIn, h.charAt (by decide)]
    exact triviaIn_broken s _ _
  rw [scanAt, scanAt, htrivia]
  dsimp only
  split <;> rfl

namespace Line

/-- A row goes on being one if a blank, a line feed or a semicolon is put behind its text. -/
theorem front (h : Line s stop pos owes ending) (hextends : t.Extends s c) (hc : c = ' ' ∨ c = '\n' ∨ c = ';') :
    Line t stop pos owes ending := by
  have scan {pos : Nat} {token : Token} (hscan : scanAt s pos = (token, [])) (hkind : token.kind ≠ .endOfFile) :
      scanAt t pos = (token, []) := by
    rw [scanAt_front hextends hc (by rw [hscan]; exact hkind) (by rw [hscan]), hscan]
  induction h with
  | plain => exact .plain
  | owing => exact .owing
  | block hscan hline hkind hclose =>
      exact .block (scan hscan (by rw [hkind]; nofun)) hline hkind (groupEnd_front hextends hclose)
  | token hscan hline hopener _ ih => exact .token (scan hscan hline.ne_endOfFile) hline hopener ih
  | group hscan hline hopener hclose _ ih =>
      exact .group (scan hscan hline.ne_endOfFile) hline hopener (groupEnd_front hextends hclose) ih

theorem suffix (h : Line s stop pos owes ending) (hpos : s.OnBoundary pos) (hends : t.EndsWith offset s) :
    Line t (offset + stop) (offset + pos) owes ending := by
  have scan {pos : Nat} {token : Token} (hscan : scanAt s pos = (token, [])) :
      scanAt t (offset + pos) = (token.moved offset, []) := by
    rw [scanAt_suffix hends, hscan]
    rfl
  have fits {pos : Nat} {token : Token} (hpos : s.OnBoundary pos) (hscan : scanAt s pos = (token, [])) :
      token.Fits s := by
    have hfits := (scanAt_fits hpos).1
    rwa [hscan] at hfits
  have close {token : Token} {close : Nat} (hfits : token.Fits s) (hopener : Parser.isOpener token.kind = true)
      (hclose : groupEnd s token.start = some close) :
      groupEnd t (token.moved offset).start = some (offset + close) :=
    (groupEnd_suffix hends (hfits.opener hopener)).trans (by rw [hclose]; rfl)
  induction h with
  | plain => exact .plain
  | owing => exact .owing
  | block hscan hline hkind hclose =>
      exact .block (scan hscan) hline hkind (close (fits hpos hscan) (by rw [hkind]; rfl) hclose)
  | token hscan hline hopener _ ih =>
      exact .token (scan hscan) ⟨hline.sameLine, hline.kind⟩ hopener (ih (fits hpos hscan).stop)
  | group hscan hline hopener hclose _ ih =>
      exact .group (scan hscan) ⟨hline.sameLine, hline.kind⟩ hopener (close (fits hpos hscan) hopener hclose)
        (ih (opaqueEnd_ends s _ _ _ _ hclose).2)

/-- A blank may stand before a row. -/
theorem blank {cs : List Char} (h : Line s stop (pos + 1) owes ending) (hne : pos + 1 ≠ stop)
    (hrest : s.Rest pos (' ' :: cs)) : Line s stop pos owes ending := by
  cases h with
  | plain => exact absurd rfl hne
  | owing => exact absurd rfl hne
  | block hscan hline hkind hclose => exact .block (hrest.scanAt_blank.trans hscan) hline hkind hclose
  | token hscan hline hopener rest => exact .token (hrest.scanAt_blank.trans hscan) hline hopener rest
  | group hscan hline hopener hclose rest =>
      exact .group (hrest.scanAt_blank.trans hscan) hline hopener hclose rest

end Line

/-! ## Statements with a condition -/

/-- Whether the round bracket before a text is closed by the one behind it. -/
def Balanced (text : String) : Prop :=
  groupEnd (.ofString ("(" ++ text ++ ")")) 0 = some (text.utf8ByteSize + 2)

instance (text : String) : Decidable (Balanced text) :=
  inferInstanceAs (Decidable (_ = _))

/-- The words of statements with a condition in brackets. -/
def conditionWords : List Keyword := [.ifWord, .whileWord, .forWord, .withWord]

/-- A statement with a condition, up to the end of what stands under the condition. -/
def conditioned (k : Keyword) (condition body : String) : String :=
  k.spelling ++ " (" ++ condition ++ ") " ++ body

variable {k : Keyword} {condition body : String}

theorem toList_conditioned (k : Keyword) (condition body : String) :
    (conditioned k condition body).toList =
      k.spelling.toList ++ ' ' :: '(' :: (condition.toList ++ ')' :: ' ' :: body.toList) := by
  simp [conditioned, String.toList_append]

/-- Such a statement begins with its word. -/
theorem scanAt_conditioned (hk : k ∈ conditionWords) (condition body : String) :
    scanAt (.ofString (conditioned k condition body)) 0 =
      ({ start := 0, stop := k.spelling.utf8ByteSize, kind := .keyword k, value := k.spelling }, []) := by
  have hword : ∀ k ∈ conditionWords, scanAt (.ofString k.spelling) 0 =
      ({ start := 0, stop := k.spelling.utf8ByteSize, kind := .keyword k, value := k.spelling }, []) := by
    decide +kernel
  have htext : conditioned k condition body = k.spelling ++ (" (" ++ condition ++ ") " ++ body) := by
    simp only [conditioned, String.append_assoc]
  have hrest : (" (" ++ condition ++ ") " ++ body).toList = ' ' :: '(' :: (condition ++ ") " ++ body).toList := by
    simp [String.toList_append]
  have hextends := Source.extends_append (a := k.spelling) hrest (by decide)
  rw [htext, scanAt_front hextends (.inl rfl) (by rw [hword k hk]; nofun) (by rw [hword k hk]), hword k hk]

/-- The condition is stepped over as a group. -/
theorem groupEnd_conditioned (h : Balanced condition) (k : Keyword) (body : String) :
    groupEnd (.ofString (conditioned k condition body)) (k.spelling.utf8ByteSize + 1) =
      some (k.spelling.utf8ByteSize + 1 + (condition.utf8ByteSize + 2)) := by
  have htext : conditioned k condition body = k.spelling ++ " " ++ ("(" ++ condition ++ ")" ++ (" " ++ body)) := by
    simp [conditioned, String.append_assoc, ← String.toList_inj]
  have hblank : (" " ++ body).toList = ' ' :: body.toList := by
    rw [String.toList_append]
    rfl
  have hopen : ("(" ++ condition ++ ")" ++ (" " ++ body)).toList =
      '(' :: (condition ++ ")" ++ (" " ++ body)).toList := by
    simp [String.toList_append]
  have hgroup : groupEnd (.ofString ("(" ++ condition ++ ")" ++ (" " ++ body))) 0 =
      some (condition.utf8ByteSize + 2) :=
    groupEnd_front (Source.extends_append hblank (by decide)) h
  have hchar : (Source.ofString ("(" ++ condition ++ ")" ++ (" " ++ body))).charAt 0 = '(' := by
    have hrest := (Source.ofString ("(" ++ condition ++ ")" ++ (" " ++ body))).rest_zero
    exact Source.Rest.charAt (hopen ▸ hrest) (by decide)
  have hmoved := groupEnd_suffix (Source.endsWith_append (k.spelling ++ " ") _)
    (show (closer? (Source.charAt _ 0)).isSome = true by rw [hchar]; rfl)
  rw [hgroup, String.utf8ByteSize_append] at hmoved
  rw [htext]
  exact hmoved

/-- Behind its word, such a statement is a row, if what stands under the condition is one. -/
theorem line_conditioned (hcondition : Balanced condition) (hbody : body ≠ "")
    (h : Line (.ofString body) body.utf8ByteSize 0 true ending) (k : Keyword) (owes : Bool) :
    Line (.ofString (conditioned k condition body)) (conditioned k condition body).utf8ByteSize
      k.spelling.utf8ByteSize owes ending := by
  have hsize : (conditioned k condition body).utf8ByteSize =
      (k.spelling ++ " (" ++ condition ++ ") ").utf8ByteSize + body.utf8ByteSize :=
    String.utf8ByteSize_append
  have hhead : (k.spelling ++ " (" ++ condition ++ ") ").utf8ByteSize =
      k.spelling.utf8ByteSize + 1 + (condition.utf8ByteSize + 2) + 1 := by
    simp only [String.utf8ByteSize_append, show " (".utf8ByteSize = 2 from rfl, show ") ".utf8ByteSize = 2 from rfl]
    omega
  have hfull : 0 < body.utf8ByteSize := Nat.pos_of_ne_zero (mt String.utf8ByteSize_eq_zero_iff.mp hbody)
  have hrest := (Source.ofString (conditioned k condition body)).rest_zero
  have hword : (Source.ofString (conditioned k condition body)).Rest k.spelling.utf8ByteSize
      (' ' :: '(' :: (condition.toList ++ ')' :: ' ' :: body.toList)) := by
    rw [← Source.width_toList, ← Nat.zero_add (width _)]
    exact Source.Rest.drop (toList_conditioned k condition body ▸ hrest)
  have hopen := hword.tail (by decide)
  have hclose := (hopen.tail (by decide)).drop.tail (by decide)
  rw [Source.width_toList] at hclose
  have hscan : scanAt (.ofString (conditioned k condition body)) k.spelling.utf8ByteSize =
      ({ start := k.spelling.utf8ByteSize + 1, stop := k.spelling.utf8ByteSize + 2, kind := .punct .openParen }, []) :=
    hword.scanAt_blank.trans <|
      Piece.scanAt_eq (q := .double) (p := .mark .openParen) (show Punct.openParen ∈ Piece.marks by decide) trivial hopen
  refine .group hscan ⟨rfl, by simp⟩ rfl (groupEnd_conditioned hcondition k body) ?_
  have hmoved := h.suffix (Source.onBoundary_zero _)
    (Source.endsWith_append (k.spelling ++ " (" ++ condition ++ ") ") body)
  rw [Nat.add_zero, ← hsize, hhead] at hmoved
  have hblank : k.spelling.utf8ByteSize + 1 + 1 + condition.utf8ByteSize + 1 =
      k.spelling.utf8ByteSize + 1 + (condition.utf8ByteSize + 2) := by omega
  rw [hblank] at hclose
  exact hmoved.blank (by omega) hclose

end Token

end PropContract
