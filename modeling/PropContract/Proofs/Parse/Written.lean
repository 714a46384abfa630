import Mathlib.Data.List.Forall2
import PropContract.Proofs.Parse.State

/-!
# Written expressions

Expressions of names, strings, objects, members and calls: the pieces that they are written with, and
the nodes that stand for them.
-/

namespace PropContract

/-- A name, an array of strings, an object of values under strings, a member, or a call of a member
with one argument. -/
inductive Written where
  | name (text : String)
  | strings (values : List String)
  | object (properties : List (String × Written))
  | member (target : Written) (text : String)
  | invoke (target : Written) (method : String) (argument : Written)
deriving Repr

/-- Rows of pieces with commas between them. -/
def Piece.separated : List (List Piece) → List Piece
  | [] => []
  | [row] => row
  | row :: next :: rows => row ++ .mark .comma :: separated (next :: rows)

namespace Written

mutual

def pieces : Written → List Piece
  | .name text => [.word text]
  | .strings values =>
    .mark .openBracket :: Piece.separated (values.map fun v => [.string v]) ++ [.mark .closeBracket]
  | .object properties =>
    .mark .openBrace :: Piece.separated (propertyPieces properties) ++ [.mark .closeBrace]
  | .member target text => target.pieces ++ [.mark .dot, .word text]
  | .invoke target method argument =>
    target.pieces ++ [.mark .dot, .word method] ++
      .mark .openParen :: (argument.pieces ++ [.mark .closeParen])

def propertyPieces : List (String × Written) → List (List Piece)
  | [] => []
  | (key, e) :: properties =>
    (.string key :: .mark .colon :: e.pieces) :: propertyPieces properties

end

mutual

/-- How many expressions stand inside one another, without the expression itself. -/
def height : Written → Nat
  | .name _ => 0
  | .strings values => if values.isEmpty then 0 else 1
  | .object properties => propertiesHeight properties
  | .member target _ => target.height
  | .invoke target _ argument => max target.height (argument.height + 1)

def propertiesHeight : List (String × Written) → Nat
  | [] => 0
  | (_, e) :: properties => max (e.height + 1) (propertiesHeight properties)

end

mutual

/-- Whether the names of an expression are no reserved words; members may be. -/
def NamesFree : Written → Prop
  | .name text => Keyword.ofSpelling? text = none
  | .strings _ => True
  | .object properties => PropertyNamesFree properties
  | .member target _ => target.NamesFree
  | .invoke target _ argument => target.NamesFree ∧ argument.NamesFree

def PropertyNamesFree : List (String × Written) → Prop
  | [] => True
  | (_, e) :: properties => e.NamesFree ∧ PropertyNamesFree properties

end

mutual

/-- Whether a node stands for an expression. An argument has a lower number than its call. -/
def Holds (a : Arena) : Written → NodeId → Prop
  | .name text, id => a.form? (some id) = some (.identifier text)
  | .strings values, id =>
    ∃ ids : List NodeId, a.form? (some id) = some (.arrayLiteral (ids.map some)) ∧
      List.Forall₂ (fun v i => a.form? (some i) = some (.literal .string v)) values ids
  | .object properties, id =>
    ∃ ids, a.form? (some id) = some (.objectLiteral ids) ∧ HoldsAll a properties ids
  | .member target text, id =>
    ∃ t n, a.form? (some id) = some (.propertyAccess (some t) (some n) false) ∧
      Holds a target t ∧ a.form? (some n) = some (.identifier text)
  | .invoke target method argument, id =>
    ∃ c x, a.form? (some id) = some (.call (some c) [some x] false) ∧
      (∃ t n, a.form? (some c) = some (.propertyAccess (some t) (some n) false) ∧
        Holds a target t ∧ a.form? (some n) = some (.identifier method)) ∧
      x < id ∧ Holds a argument x

/-- Whether nodes stand for the properties of an object. -/
def HoldsAll (a : Arena) : List (String × Written) → List NodeId → Prop
  | [], ids => ids = []
  | (key, e) :: properties, ids =>
    ∃ i n v rest, ids = i :: rest ∧ a.form? (some i) = some (.propertyAssignment n (some v)) ∧
      a.form? (some n) = some (.literal .string key) ∧ Holds a e v ∧ HoldsAll a properties rest

end

/-! ## Growing trees -/

mutual

theorem Holds.mono {a b : Arena} (hg : a.Grows b) :
    ∀ {e : Written} {id : NodeId}, e.Holds a id → e.Holds b id
  | .name _, id, h => hg id _ h
  | .strings _, id, ⟨ids, h, hvalues⟩ => ⟨ids, hg id _ h, hvalues.imp fun _ i hi => hg i _ hi⟩
  | .object _, id, ⟨ids, h, hproperties⟩ => ⟨ids, hg id _ h, HoldsAll.mono hg hproperties⟩
  | .member _ _, id, ⟨t, n, h, ht, hn⟩ => ⟨t, n, hg id _ h, Holds.mono hg ht, hg n _ hn⟩
  | .invoke _ _ _, id, ⟨c, x, h, ⟨t, n, hc, ht, hn⟩, hlt, hx⟩ =>
      ⟨c, x, hg id _ h, ⟨t, n, hg c _ hc, Holds.mono hg ht, hg n _ hn⟩, hlt, Holds.mono hg hx⟩

theorem HoldsAll.mono {a b : Arena} (hg : a.Grows b) :
    ∀ {properties : List (String × Written)} {ids : List NodeId},
      HoldsAll a properties ids → HoldsAll b properties ids
  | [], _, h => h
  | _ :: _, _, ⟨i, n, v, rest, hids, hi, hn, hv, hrest⟩ =>
      ⟨i, n, v, rest, hids, hg i _ hi, hg n _ hn, Holds.mono hg hv, HoldsAll.mono hg hrest⟩

end

theorem Holds.exists_form {a : Arena} {e : Written} {id : NodeId} (h : e.Holds a id) :
    ∃ form, a.form? (some id) = some form := by
  cases e with
  | name text => exact ⟨_, h⟩
  | strings values =>
      obtain ⟨ids, h, -⟩ := h
      exact ⟨_, h⟩
  | object properties =>
      obtain ⟨ids, h, -⟩ := h
      exact ⟨_, h⟩
  | member target text =>
      obtain ⟨t, n, h, -⟩ := h
      exact ⟨_, h⟩
  | invoke target method argument =>
      obtain ⟨c, x, h, -⟩ := h
      exact ⟨_, h⟩

/-! ## First pieces -/

/-- Whether pieces begin an expression that is no function. -/
def Begins : List Piece → Prop
  | .word text :: .mark m :: _ => Keyword.ofSpelling? text = none ∧ m ≠ .openParen
  | .mark m :: _ => m = .openBrace ∨ m = .openBracket
  | .string _ :: _ => True
  | _ => False

theorem begins_pieces {e : Written} (h : e.NamesFree) {m : Punct} (hm : m ≠ .openParen)
    (ts : List Piece) : Begins (e.pieces ++ .mark m :: ts) := by
  match e with
  | .name text => exact ⟨h, hm⟩
  | .strings values => exact .inr rfl
  | .object properties => exact .inl rfl
  | .member target text =>
      rw [pieces, List.append_assoc]
      exact begins_pieces (e := target) h (by decide) _
  | .invoke target method argument =>
      rw [pieces, List.append_assoc, List.append_assoc]
      exact begins_pieces (e := target) h.1 (by decide) _

theorem propertyPieces_eq (properties : List (String × Written)) :
    propertyPieces properties =
      properties.map fun p => .string p.1 :: .mark .colon :: p.2.pieces := by
  induction properties with
  | nil => rfl
  | cons p properties ih =>
      rw [propertyPieces, ih]
      rfl

/-! ## Lengths -/

mutual

theorem height_lt_length : ∀ e : Written, e.height < e.pieces.length
  | .name _ => Nat.zero_lt_one
  | .strings values => by
      rw [height, pieces]
      split <;> simp
  | .object properties => by
      have hle := propertiesHeight_le_length properties
      rw [height, pieces]
      simp only [List.length_cons, List.length_append, List.length_nil]
      omega
  | .member target _ => by
      have hlt := height_lt_length target
      rw [height, pieces]
      simp only [List.length_cons, List.length_append, List.length_nil]
      omega
  | .invoke target _ argument => by
      have hlt := height_lt_length target
      have hltArgument := height_lt_length argument
      rw [height, pieces]
      simp only [List.length_cons, List.length_append, List.length_nil]
      omega

theorem propertiesHeight_le_length : ∀ properties : List (String × Written),
    propertiesHeight properties ≤ (Piece.separated (propertyPieces properties)).length
  | [] => Nat.le_refl 0
  | [(_, e)] => by
      have hlt := height_lt_length e
      simp only [propertiesHeight, propertyPieces, Piece.separated, List.length_cons]
      omega
  | (_, e) :: p :: properties => by
      have hlt := height_lt_length e
      have hle := propertiesHeight_le_length (p :: properties)
      rw [propertiesHeight]
      simp only [propertyPieces, Piece.separated, List.length_cons, List.length_append] at hle ⊢
      omega

end

end Written

end PropContract
