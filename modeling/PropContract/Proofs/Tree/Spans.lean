import PropContract.Proofs.Token.Fits
import PropContract.Proofs.Tree.Forest

/-!
# Spans of nodes

Where the text has no errors, the children of a node stand in it one after the other, and a node
without children is what its text says.
-/

namespace PropContract

open Text

/-- Whether a form without children is what the text between two offsets says. -/
def Form.Spells (src : Source) (start stop : Nat) : Form → Prop
  | .identifier name => src.Between start stop name
  | .privateIdentifier name => TokenKind.privateIdentifier.Spells src start stop name
  | .literal .string text => TokenKind.string.Spells src start stop text
  | .literal .plainTemplate text => TokenKind.plainTemplate.Spells src start stop text
  | .literal .template text => TokenKind.template.Spells src start stop text
  | .literal _ text => src.Between start stop text
  | _ => True

namespace Arena

variable {a b : Arena} {lo mid hi : Nat} {row row' : List Child} {n : Node}

/-- Whether nodes stand one after the other between two offsets, none of them missing. -/
def Row (a : Arena) : Nat → List Child → Nat → Prop
  | _, [], _ => True
  | lo, c :: cs, hi =>
    ∃ id n, c = some id ∧ a.get? id = some n ∧ lo ≤ n.start ∧ n.start ≤ n.stop ∧ n.stop ≤ hi ∧
      a.Row n.stop cs hi

/-- Whether nodes keep their spans in a larger tree. -/
def KeepsSpans (a b : Arena) : Prop :=
  ∀ id n, a.get? id = some n → ∃ m, b.get? id = some m ∧ m.start = n.start ∧ m.stop = n.stop

theorem keepsSpans_add (n : Node) : a.KeepsSpans (a.add n) := by
  intro id m hm
  obtain ⟨parent, hm'⟩ := exists_get?_add (n := n) hm
  exact ⟨_, hm', rfl, rfl⟩

theorem Row.mono (hab : a.KeepsSpans b) {lo' hi' : Nat} (hlo : lo' ≤ lo) (hhi : hi ≤ hi')
    (h : a.Row lo row hi) : b.Row lo' row hi' := by
  induction row generalizing lo lo' with
  | nil => trivial
  | cons c cs ih =>
      obtain ⟨id, n, hc, hn, hle, hspan, hstop, hrest⟩ := h
      obtain ⟨m, hm, hstart', hstop'⟩ := hab id n hn
      exact ⟨id, m, hc, hm, by omega, by omega, by omega, ih (by omega) hrest⟩

theorem Row.append (h : a.Row lo row hi) (h' : a.Row mid row' hi') (hlo : lo ≤ mid)
    (hmid : hi ≤ mid) (hhi : hi ≤ hi') : a.Row lo (row ++ row') hi' := by
  induction row generalizing lo with
  | nil => exact h'.mono (fun _ n hn => ⟨n, hn, rfl, rfl⟩) hlo (Nat.le_refl _)
  | cons c cs ih =>
      obtain ⟨id, n, hc, hn, hle, hspan, hstop, hrest⟩ := h
      exact ⟨id, n, hc, hn, hle, hspan, by omega, ih hrest (by omega)⟩

theorem Row.sublist (h : a.Row lo row hi) (hsub : row'.Sublist row) : a.Row lo row' hi := by
  induction hsub generalizing lo with
  | slnil => trivial
  | cons c _ ih =>
      obtain ⟨id, n, -, -, hle, hspan, -, hrest⟩ := h
      exact (ih hrest).mono (fun _ n hn => ⟨n, hn, rfl, rfl⟩) (by omega) (Nat.le_refl _)
  | cons_cons c _ ih =>
      obtain ⟨id, n, hc, hn, hle, hspan, hstop, hrest⟩ := h
      exact ⟨id, n, hc, hn, hle, hspan, hstop, ih hrest⟩

theorem Row.le (h : a.Row lo row hi) (hrow : row ≠ []) : lo ≤ hi := by
  cases row with
  | nil => exact absurd rfl hrow
  | cons c cs =>
      obtain ⟨id, n, -, -, hle, hspan, hstop, -⟩ := h
      omega

/-- One node in a row by itself. -/
theorem Row.singleton {id : NodeId} (h : a.get? id = some n) (hlo : lo ≤ n.start)
    (hspan : n.start ≤ n.stop) (hhi : n.stop ≤ hi) : a.Row lo [some id] hi :=
  ⟨id, n, rfl, h, hlo, hspan, hhi, trivial⟩

/-- Whether every node covers a part of the text, with its children in a row in it. -/
def Spanned (src : Source) (a : Arena) : Prop :=
  ∀ id n, a.get? id = some n →
    n.start ≤ n.stop ∧ n.stop ≤ src.size ∧ a.Row n.start n.form.row n.stop ∧
      n.form.Spells src n.start n.stop

theorem spanned_empty (src : Source) : Spanned src {} := fun _ _ h => by simp [get?] at h

theorem Spanned.add {src : Source} (h : a.Spanned src) (hle : n.start ≤ n.stop)
    (hsize : n.stop ≤ src.size) (hrow : a.Row n.start n.form.row n.stop)
    (hspells : n.form.Spells src n.start n.stop) : (a.add n).Spanned src := by
  intro id m hm
  have hkeeps (form : Form) {lo hi : Nat} (h : a.Row lo form.row hi) : (a.add n).Row lo form.row hi :=
    h.mono (keepsSpans_add n) (Nat.le_refl _) (Nat.le_refl _)
  obtain ⟨-, rfl⟩ | ⟨m', hm', hstart, hstop, hform⟩ := get?_add_cases hm
  · exact ⟨hle, hsize, hkeeps _ hrow, hspells⟩
  · obtain ⟨hle', hsize', hrow', hspells'⟩ := h id m' hm'
    rw [hstart, hstop, hform] at hrow' hspells'
    exact ⟨hstart ▸ hstop ▸ hle', hstop ▸ hsize', hkeeps _ hrow', hspells'⟩

/-- Whether every node covers whole characters. -/
def Bounded (src : Source) (a : Arena) : Prop :=
  ∀ id n, a.get? id = some n → n.start ≤ n.stop ∧ src.OnBoundary n.start ∧ src.OnBoundary n.stop

theorem bounded_empty (src : Source) : Bounded src {} := fun _ _ h => by simp [get?] at h

theorem Bounded.add {src : Source} (h : a.Bounded src) (hle : n.start ≤ n.stop)
    (hstart : src.OnBoundary n.start) (hstop : src.OnBoundary n.stop) : (a.add n).Bounded src := by
  intro id m hm
  obtain ⟨-, rfl⟩ | ⟨m', hm', hstart', hstop', -⟩ := get?_add_cases hm
  · exact ⟨hle, hstart, hstop⟩
  · exact hstart' ▸ hstop' ▸ h id m' hm'

end Arena

end PropContract
