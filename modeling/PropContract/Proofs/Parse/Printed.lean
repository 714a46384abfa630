import PropContract.Proofs.Parse.Written

/-!
# Printed expressions

The text of an expression is scanned as the pieces that it is written with.
-/

namespace PropContract

open Text

def Text.quoted (q : Quote) (text : String) : String :=
  String.ofList (q.char :: Escape.escape q text.toList ++ [q.char])

namespace Written

mutual

def text (q : Quote) : Written → String
  | .name text => text
  | .strings values => "[" ++ ", ".intercalate (values.map (quoted q)) ++ "]"
  | .object properties => "\x7b" ++ ", ".intercalate (propertyTexts q properties) ++ "\x7d"
  | .member target text => target.text q ++ "." ++ text
  | .invoke target method argument =>
    target.text q ++ "." ++ method ++ "(" ++ argument.text q ++ ")"

def propertyTexts (q : Quote) : List (String × Written) → List String
  | [] => []
  | (key, e) :: properties =>
    (quoted q key ++ ": " ++ e.text q) :: propertyTexts q properties

end

mutual

/-- Whether all names of an expression, and of its members, are identifiers. -/
def Spelled : Written → Prop
  | .name text => IsIdentifier text
  | .strings _ => True
  | .object properties => PropertiesSpelled properties
  | .member target text => target.Spelled ∧ IsIdentifier text
  | .invoke target method argument => target.Spelled ∧ IsIdentifier method ∧ argument.Spelled

def PropertiesSpelled : List (String × Written) → Prop
  | [] => True
  | (_, e) :: properties => e.Spelled ∧ PropertiesSpelled properties

end

end Written

/-! ## Pieces of a text -/

/-- Whether a text goes on with a character that ends a word. -/
def EndsWord (cs : List Char) : Prop :=
  ∃ c ds, cs = c :: ds ∧ isIdentifierPart c = false

/-- Whether a text is a row of pieces, wherever a word may end after it. -/
def Spells (q : Quote) (text : String) (ts : List Piece) : Prop :=
  ∀ cs rest, Lexes q cs rest → EndsWord cs → Lexes q (text.toList ++ cs) (ts ++ rest)

/-- Whether a character is a mark other than the dot. -/
def IsMark (c : Char) (m : Punct) : Prop :=
  m ∈ Piece.marks ∧ m ≠ .dot ∧ m.spelling.toList = [c] ∧ isIdentifierPart c = false

namespace Spells

variable {q : Quote} {text text' : String} {ts ts' : List Piece}

theorem lexes_mark {m : Punct} {c : Char} {cs : List Char} {rest : List Piece} (hm : IsMark c m)
    (h : Lexes q cs rest) : Lexes q (c :: cs) (.mark m :: rest) := by
  obtain ⟨hmem, hdot, hc, -⟩ := hm
  have hends : (Piece.mark m).EndsAt cs := by
    cases m <;> trivial
  have hmark := Lexes.cons (p := .mark m) hmem hends h
  rwa [Piece.chars, hc] at hmark

theorem word (h : IsIdentifier text) : Spells q text [.word text] :=
  fun _ _ hl hends => .cons (p := .word text) h hends hl

theorem string (text : String) : Spells q (quoted q text) [.string text] := by
  intro cs rest hl _
  rw [quoted, String.toList_ofList]
  exact .cons (p := .string text) trivial trivial hl

theorem member {name : String} (h : Spells q text ts) (hname : IsIdentifier name) :
    Spells q (text ++ "." ++ name) (ts ++ [.mark .dot, .word name]) := by
  intro cs rest hl hends
  obtain ⟨c, ds, hc, hstart⟩ := hname.1
  have hdot : (Piece.mark .dot).EndsAt (name.toList ++ cs) :=
    ⟨c, ds ++ cs, by rw [hc]; rfl, (hname.2 c (by simp [hc])).1, hstart⟩
  have hword := word (q := q) hname cs rest hl hends
  have hmember : Lexes q ('.' :: (name.toList ++ cs)) (.mark .dot :: .word name :: rest) :=
    .cons (p := .mark .dot) (show Punct.dot ∈ Piece.marks by decide) hdot hword
  have hlexes := h _ _ hmember ⟨'.', _, rfl, by decide⟩
  simpa [String.toList_append] using hlexes

theorem between {l r : Punct} {c d : Char} (hl : IsMark c l) (hr : IsMark d r)
    (h : Spells q text ts) :
    Spells q (String.ofList [c] ++ text ++ String.ofList [d]) (.mark l :: (ts ++ [.mark r])) := by
  intro cs rest hlexes _
  have hinner := h _ _ (lexes_mark hr hlexes) ⟨d, cs, rfl, hr.2.2.2⟩
  have hall := lexes_mark hl hinner
  simpa [String.toList_append] using hall

theorem called (h : Spells q text ts) (h' : Spells q text' ts') :
    Spells q (text ++ "(" ++ text' ++ ")")
      (ts ++ .mark .openParen :: (ts' ++ [.mark .closeParen])) := by
  intro cs rest hl _
  have hclosed := lexes_mark (c := ')') (m := .closeParen) ⟨by decide, by decide, rfl, by decide⟩ hl
  have hinner := h' _ _ hclosed ⟨')', cs, rfl, by decide⟩
  have hparens := lexes_mark (c := '(') (m := .openParen) ⟨by decide, by decide, rfl, by decide⟩
    hinner
  have hlexes := h _ _ hparens ⟨'(', _, rfl, by decide⟩
  simpa [String.toList_append] using hlexes

theorem joined {m : Punct} {c : Char} (hm : IsMark c m) (h : Spells q text ts)
    (h' : Spells q text' ts') :
    Spells q (text ++ String.ofList [c, ' '] ++ text') (ts ++ .mark m :: ts') := by
  intro cs rest hl hends
  have hmark := lexes_mark hm (.blank (h' cs rest hl hends))
  have hlexes := h _ _ hmark ⟨c, _, rfl, hm.2.2.2⟩
  simpa [String.toList_append] using hlexes

theorem assigned (h : Spells q text ts) (h' : Spells q text' ts') :
    Spells q (text ++ " = " ++ text') (ts ++ .equals :: ts') := by
  intro cs rest hl hends
  have hequals : Lexes q ('=' :: ' ' :: (text'.toList ++ cs)) (.equals :: (ts' ++ rest)) :=
    .cons (p := .equals) trivial ⟨_, rfl⟩ (.blank (h' cs rest hl hends))
  have hlexes := h _ _ (.blank hequals) ⟨' ', _, rfl, by decide⟩
  simpa [String.toList_append] using hlexes

theorem spaced (h : Spells q text ts) (h' : Spells q text' ts') :
    Spells q (text ++ " " ++ text') (ts ++ ts') := by
  intro cs rest hl hends
  have hlexes := h _ _ (.blank (h' cs rest hl hends)) ⟨' ', _, rfl, by decide⟩
  simpa [String.toList_append] using hlexes

theorem lexes_semicolon (h : Spells q text ts) :
    Lexes q (text ++ ";").toList (ts ++ [.mark .semicolon]) := by
  have hmark := lexes_mark (q := q) (c := ';') (m := .semicolon)
    ⟨by decide, by decide, rfl, by decide⟩ .nil
  have hlexes := h _ _ hmark ⟨';', [], rfl, by decide⟩
  simpa [String.toList_append] using hlexes

theorem separated {texts : List String} {rows : List (List Piece)}
    (h : List.Forall₂ (Spells q) texts rows) :
    Spells q (", ".intercalate texts) (Piece.separated rows) := by
  induction h with
  | nil =>
      intro cs rest hl _
      simpa [Piece.separated] using hl
  | @cons text ts texts rows hrow hrows ih =>
      cases hrows with
      | nil => simpa [Piece.separated] using hrow
      | cons hnext _ =>
          rw [String.intercalate_cons_cons]
          exact hrow.joined (c := ',') (m := .comma) ⟨by decide, by decide, rfl, by decide⟩ ih

end Spells

namespace Written

variable {q : Quote}

mutual

theorem spells_text : ∀ {e : Written}, e.Spelled → Spells q (e.text q) e.pieces
  | .name text, h => .word h
  | .strings values, _ => by
      have hrows : List.Forall₂ (Spells q) (values.map (quoted q)) (values.map fun v => [.string v]) := by
        rw [List.forall₂_map_left_iff, List.forall₂_map_right_iff, List.forall₂_same]
        intro v _
        exact .string v
      exact .between (c := '[') (d := ']') ⟨by decide, by decide, rfl, by decide⟩
        ⟨by decide, by decide, rfl, by decide⟩ (.separated hrows)
  | .object properties, h =>
      .between (c := '\x7b') (d := '\x7d') ⟨by decide, by decide, rfl, by decide⟩
        ⟨by decide, by decide, rfl, by decide⟩ (.separated (spells_propertyTexts h))
  | .member target text, ⟨htarget, htext⟩ => (spells_text htarget).member htext
  | .invoke target method argument, ⟨htarget, hmethod, hargument⟩ =>
      ((spells_text htarget).member hmethod).called (spells_text hargument)

theorem spells_propertyTexts : ∀ {properties : List (String × Written)},
    PropertiesSpelled properties →
      List.Forall₂ (Spells q) (propertyTexts q properties) (propertyPieces properties)
  | [], _ => .nil
  | (key, e) :: properties, ⟨he, hproperties⟩ =>
      .cons (Spells.joined (c := ':') (m := .colon) ⟨by decide, by decide, rfl, by decide⟩
        (.string key) (spells_text he)) (spells_propertyTexts hproperties)

end

end Written

end PropContract
