import Mathlib.Data.List.GetD
import Mathlib.Logic.Function.Basic
import PropContract.Proofs.Tree.Links

/-!
# Trees under other numbers

The numbers of nodes tell them apart and nothing else. A tree that stands in another table under other numbers
answers every query in the same way.
-/

namespace PropContract

/-- A form whose children have other numbers. -/
def Form.renumber (φ : NodeId → NodeId) : Form → Form
  | .sourceFile statements fileName => .sourceFile (statements.map φ) fileName
  | .identifier name => .identifier name
  | .privateIdentifier name => .privateIdentifier name
  | .literal kind text => .literal kind text
  | .constant word => .constant word
  | .objectLiteral elements => .objectLiteral (elements.map φ)
  | .arrayLiteral elements => .arrayLiteral (elements.map (·.map φ))
  | .propertyAssignment name initializer => .propertyAssignment (φ name) (initializer.map φ)
  | .shorthandProperty name => .shorthandProperty (φ name)
  | .spreadAssignment e => .spreadAssignment (e.map φ)
  | .spreadElement e => .spreadElement (e.map φ)
  | .computedName e => .computedName (e.map φ)
  | .omitted => .omitted
  | .propertyAccess target name optional => .propertyAccess (target.map φ) (name.map φ) optional
  | .elementAccess target argument optional => .elementAccess (target.map φ) (argument.map φ) optional
  | .call callee arguments optional => .call (callee.map φ) (arguments.map (·.map φ)) optional
  | .new callee arguments => .new (callee.map φ) (arguments.map (·.map (·.map φ)))
  | .taggedTemplate tag template => .taggedTemplate (tag.map φ) (template.map φ)
  | .parenthesized e => .parenthesized (e.map φ)
  | .binary left operator right => .binary (left.map φ) operator (right.map φ)
  | .conditional condition whenTrue whenFalse =>
    .conditional (condition.map φ) (whenTrue.map φ) (whenFalse.map φ)
  | .prefixUnary operator operand => .prefixUnary operator (operand.map φ)
  | .postfixUnary operator operand => .postfixUnary operator (operand.map φ)
  | .arrowFunction body => .arrowFunction (body.map φ)
  | .functionExpression name body => .functionExpression (name.map φ) (body.map φ)
  | .classExpression name heritage members =>
    .classExpression (name.map φ) (heritage.map φ) (members.map φ)
  | .markup => .markup
  | .block => .block
  | .variableStatement word declarations => .variableStatement word (declarations.map φ)
  | .variableDeclaration name initializer => .variableDeclaration (name.map φ) (initializer.map φ)
  | .objectPattern elements => .objectPattern (elements.map φ)
  | .arrayPattern elements => .arrayPattern (elements.map φ)
  | .bindingElement propertyName name initializer rest =>
    .bindingElement (propertyName.map φ) (name.map φ) (initializer.map φ) rest
  | .functionDeclaration name body => .functionDeclaration (name.map φ) (body.map φ)
  | .classDeclaration name heritage members =>
    .classDeclaration (name.map φ) (heritage.map φ) (members.map φ)
  | .propertyDeclaration name initializer => .propertyDeclaration (φ name) (initializer.map φ)
  | .methodDeclaration name body => .methodDeclaration (name.map φ) (body.map φ)
  | .importDeclaration defaultName ns named specifier =>
    .importDeclaration (defaultName.map φ) (ns.map φ) (named.map (·.map φ)) (specifier.map φ)
  | .importSpecifier propertyName name => .importSpecifier (propertyName.map φ) (name.map φ)
  | .exportDeclaration clause ns specifier =>
    .exportDeclaration (clause.map (·.map φ)) (ns.map φ) (specifier.map φ)
  | .exportSpecifier propertyName name => .exportSpecifier (propertyName.map φ) (name.map φ)
  | .exportAssignment e => .exportAssignment (e.map φ)
  | .expressionStatement e => .expressionStatement (e.map φ)
  | .emptyStatement => .emptyStatement
  | .skippedStatement => .skippedStatement

theorem Form.children_renumber (φ : NodeId → NodeId) (form : Form) :
    (form.renumber φ).children = form.children.map (·.map φ) := by
  cases form with
  | new callee arguments => cases arguments <;> simp [renumber, children]
  | importDeclaration _ _ named _ => cases named <;> simp [renumber, children, Function.comp_def]
  | exportDeclaration clause _ _ => cases clause <;> simp [renumber, children, Function.comp_def]
  | _ => simp [renumber, children, Function.comp_def]

namespace Arena

/-- Whether what stands under a child of `a` stands in `b` under other numbers. Spans may differ. -/
inductive Copied (φ : NodeId → NodeId) (a b : Arena) : Child → Prop where
  | missing : Copied φ a b none
  | found {id : NodeId} {n n' : Node} : a.get? id = some n → b.get? (φ id) = some n' →
    n'.modifiers = n.modifiers → n'.form = n.form.renumber φ → (∀ c ∈ n.form.children, Copied φ a b c) →
      Copied φ a b (some id)

/-- Two tables without loops, and a way to number nodes of the one as nodes of the other. -/
structure Renumbers (φ : NodeId → NodeId) (a b : Arena) : Prop where
  source : a.Forest
  target : b.Forest
  injective : Function.Injective φ

variable {φ : NodeId → NodeId} {a b : Arena} {c e : Child} {form : Form} {n : Nat}

namespace Copied

theorem node {id : NodeId} (h : Copied φ a b (some id)) : ∃ n n', a.get? id = some n ∧ b.get? (φ id) = some n' ∧
    n'.modifiers = n.modifiers ∧ n'.form = n.form.renumber φ ∧ ∀ c ∈ n.form.children, Copied φ a b c := by
  cases h with
  | found hn hn' hmodifiers hform hchildren => exact ⟨_, _, hn, hn', hmodifiers, hform, hchildren⟩

theorem form? (h : Copied φ a b c) : b.form? (c.map φ) = (a.form? c).map (Form.renumber φ) := by
  cases h with
  | missing => rfl
  | found hn hn' _ hform _ => simp [Arena.form?, hn, hn', hform]

theorem form?_some {id : NodeId} (h : Copied φ a b (some id)) :
    b.form? (some (φ id)) = (a.form? (some id)).map (Form.renumber φ) := h.form?

theorem child (h : Copied φ a b c) (hform : a.form? c = some form) (he : e ∈ form.children) : Copied φ a b e := by
  cases h with
  | missing => cases hform
  | @found id n n' hn _ _ _ hchildren =>
      have hform : n.form = form := by simpa [Arena.form?, hn] using hform
      exact hchildren e (hform ▸ he)

/-! ## Queries -/

theorem identifierText (h : Copied φ a b c) : b.identifierText (c.map φ) = a.identifierText c := by
  rw [Arena.identifierText, Arena.identifierText, h.form?]
  rcases a.form? c with - | form
  · rfl
  · cases form <;> rfl

theorem stringText (h : Copied φ a b c) : b.stringText (c.map φ) = a.stringText c := by
  rw [Arena.stringText, Arena.stringText, h.form?]
  rcases a.form? c with - | form
  · rfl
  · cases form <;> rfl

theorem propertyNameText (h : Copied φ a b c) : b.propertyNameText (c.map φ) = a.propertyNameText c := by
  rw [Arena.propertyNameText, Arena.propertyNameText, h.form?]
  rcases a.form? c with - | form
  · rfl
  · cases form <;> rfl

theorem isObjectLiteral (h : Copied φ a b c) : b.isObjectLiteral (c.map φ) = a.isObjectLiteral c := by
  rw [Arena.isObjectLiteral, Arena.isObjectLiteral, h.form?]
  rcases a.form? c with - | form
  · rfl
  · cases form <;> rfl

theorem memberName (h : Copied φ a b c) :
    b.memberName (c.map φ) = (a.memberName c).map φ ∧ Copied φ a b (a.memberName c) := by
  rw [Arena.memberName, Arena.memberName, h.form?]
  rcases hform : a.form? c with - | form
  · exact ⟨rfl, .missing⟩
  · cases form
    case propertyAssignment => exact ⟨rfl, h.child hform (by simp [Form.children])⟩
    case shorthandProperty => exact ⟨rfl, h.child hform (by simp [Form.children])⟩
    case propertyDeclaration => exact ⟨rfl, h.child hform (by simp [Form.children])⟩
    case methodDeclaration => exact ⟨rfl, h.child hform (by simp [Form.children])⟩
    all_goals exact ⟨rfl, .missing⟩

theorem literalElements (h : Copied φ a b c) :
    b.literalElements (c.map φ) = (a.literalElements c).map (·.map φ) ∧
      ∀ e ∈ a.literalElements c, Copied φ a b e := by
  rw [Arena.literalElements, Arena.literalElements, h.form?]
  rcases hform : a.form? c with - | form
  · exact ⟨rfl, List.forall_mem_nil _⟩
  · cases form
    case objectLiteral =>
      refine ⟨?_, fun e he => h.child hform he⟩
      simp [Form.renumber]
    case arrayLiteral => exact ⟨rfl, fun e he => h.child hform he⟩
    all_goals exact ⟨rfl, List.forall_mem_nil _⟩

theorem stripParentheses (h : Copied φ a b c) :
    b.stripParentheses n (c.map φ) = (a.stripParentheses n c).map φ ∧ Copied φ a b (a.stripParentheses n c) := by
  induction n generalizing c with
  | zero => exact ⟨rfl, h⟩
  | succ n ih =>
      rw [Arena.stripParentheses, Arena.stripParentheses, h.form?]
      rcases hform : a.form? c with - | form
      · exact ⟨rfl, h⟩
      · cases form
        case parenthesized e => exact ih (h.child hform (by simp [Form.children]))
        all_goals exact ⟨rfl, h⟩

theorem accessNames (h : Copied φ a b c) : b.accessNames n (c.map φ) = a.accessNames n c := by
  induction n generalizing c with
  | zero => rfl
  | succ n ih =>
      rw [Arena.accessNames, Arena.accessNames, h.form?]
      rcases hform : a.form? c with - | form
      · rfl
      · cases form
        case propertyAccess target name optional =>
          have htarget := ih (h.child hform (e := target) (by simp [Form.children]))
          have hname := (h.child hform (e := name) (by simp [Form.children])).identifierText
          simp only [Option.map_some, Form.renumber, htarget, hname]
        all_goals rfl

end Copied

/-- Whether all these nodes are found in `b` under their numbers there, and their children are among them. -/
def standsIn (φ : NodeId → NodeId) (a b : Arena) (ids : List NodeId) : Bool :=
  ids.all fun id =>
    match a.get? id, b.get? (φ id) with
    | some n, some n' =>
      n'.modifiers == n.modifiers && n'.form == n.form.renumber φ && n.form.children.all (·.all ids.contains)
    | _, _ => false

theorem copied_of_standsIn (ha : a.Forest) {ids : List NodeId} (h : standsIn φ a b ids = true) {id : NodeId}
    (hid : id ∈ ids) : Copied φ a b (some id) := by
  induction id using Nat.strongRecOn with
  | ind id ih =>
      have hfound := List.all_eq_true.mp h id hid
      split at hfound
      · rename_i n n' hn hn'
        simp only [Bool.and_eq_true, beq_iff_eq, List.all_eq_true] at hfound
        obtain ⟨⟨hmodifiers, hform⟩, hchildren⟩ := hfound
        refine .found hn hn' hmodifiers hform fun c hc => ?_
        cases c with
        | none => exact .missing
        | some child =>
            exact ih child (ha.below id n hn child hc) (List.contains_iff_mem.mp (hchildren _ hc))
      · cases hfound

/-- A table of different numbers below `k` gives an injective numbering. -/
theorem injective_getD {table : List Nat} {k : Nat} (hnodup : table.Nodup) (hlt : ∀ id ∈ table, id < k) :
    Function.Injective fun id => table.getD id (id + k) := by
  intro x y h
  dsimp only at h
  by_cases hx : x < table.length <;> by_cases hy : y < table.length
  · rw [← List.getElem_eq_getD (h := hx), ← List.getElem_eq_getD (h := hy)] at h
    exact (hnodup.getElem_inj_iff).mp h
  · have hlow := hlt table[x] (List.getElem_mem hx)
    rw [← List.getElem_eq_getD (h := hx), List.getD_eq_default _ _ (Nat.le_of_not_lt hy)] at h
    omega
  · have hlow := hlt table[y] (List.getElem_mem hy)
    rw [← List.getElem_eq_getD (h := hy), List.getD_eq_default _ _ (Nat.le_of_not_lt hx)] at h
    omega
  · rw [List.getD_eq_default _ _ (Nat.le_of_not_lt hx), List.getD_eq_default _ _ (Nat.le_of_not_lt hy)] at h
    exact Nat.add_right_cancel h

namespace Renumbers

variable (hab : Renumbers φ a b) (h : Copied φ a b c)

include hab h

theorem unparenthesized :
    b.unparenthesized (c.map φ) = (a.unparenthesized c).map φ ∧ Copied φ a b (a.unparenthesized c) := by
  have hspec := h.stripParentheses (n := max a.size b.size)
  rwa [hab.source.linksEnd.parentheses _ _ (Nat.le_max_left _ _),
    hab.target.linksEnd.parentheses _ _ (Nat.le_max_right _ _)] at hspec

theorem accessChain : b.accessChain (c.map φ) = a.accessChain c := by
  rw [← hab.source.linksEnd.chain _ _ (Nat.le_max_left a.size b.size),
    ← hab.target.linksEnd.chain _ _ (Nat.le_max_right a.size b.size), h.accessNames]

end Renumbers

end Arena

end PropContract
