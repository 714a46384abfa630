import Mathlib.Data.Nat.Basic
import Mathlib.Order.Basic
import PropContract.Contract.Classify
import PropContract.Proofs.Tree.Forest

/-!
# Following links

In a forest every link leads to a smaller node, so whoever follows links comes to an end before the nodes
run out: a larger budget than their number changes nothing.
-/

namespace PropContract.Arena

variable {a : Arena} {c e : Child} {form : Form} {n m : Nat}

/-- How many links can be followed from a child, at most. -/
def reach (a : Arena) : Child → Nat
  | some id => if id < a.size then id + 1 else 0
  | none => 0

theorem reach_le (a : Arena) (c : Child) : a.reach c ≤ a.size := by
  cases c with
  | none => exact Nat.zero_le _
  | some id =>
      rw [reach]
      split
      · assumption
      · exact Nat.zero_le _

/-- A link leads to where fewer links can be followed. -/
theorem Forest.reach_lt (h : a.Forest) (hform : a.form? c = some form) (he : e ∈ form.children) :
    a.reach e < a.reach c := by
  obtain ⟨id, rfl, hid⟩ := Option.bind_eq_some_iff.mp hform
  obtain ⟨n, hn, hnform⟩ := Option.bind_eq_some_iff.mp hid
  cases hnform
  have hc : a.reach (some id) = id + 1 := if_pos (lt_size_of_get? hn)
  rw [hc]
  cases e with
  | none => exact Nat.succ_pos _
  | some e =>
      have hlt := h.below id n hn e he
      rw [reach]
      split
      · exact Nat.succ_lt_succ hlt
      · exact Nat.succ_pos _

theorem form?_of_reach (h : a.reach c = 0) : a.form? c = none := by
  cases c with
  | none => rfl
  | some id =>
      rw [reach] at h
      split at h
      · exact nomatch h
      · rename_i hsize
        have hnone : a.get? id = none := Array.getElem?_eq_none (Nat.le_of_not_lt hsize)
        rw [form?]
        simp [hnone]

/-- Parentheses come to an end. -/
theorem Forest.stripParentheses_spec (h : a.Forest) (hn : a.reach c ≤ n) (hm : a.reach c ≤ m) :
    a.stripParentheses n c = a.stripParentheses m c ∧
      a.reach (a.stripParentheses n c) ≤ a.reach c ∧
      ∀ e, a.form? (a.stripParentheses n c) ≠ some (.parenthesized e) := by
  induction n generalizing c m with
  | zero =>
      have hform := form?_of_reach (Nat.le_zero.mp hn)
      refine ⟨?_, Nat.le_refl _, fun e he => ?_⟩
      · cases m with
        | zero => rfl
        | succ m => rw [stripParentheses, stripParentheses, hform]
      · rw [stripParentheses, hform] at he
        exact nomatch he
  | succ n ih =>
      rw [stripParentheses]
      split
      · rename_i e hform
        have hlt := h.reach_lt hform (List.mem_singleton_self e)
        obtain _ | m := m
        · omega
        obtain ⟨heq, hle, hnot⟩ := @ih e m (by omega) (by omega)
        rw [stripParentheses, hform]
        exact ⟨heq, by omega, hnot⟩
      · rename_i hnot
        refine ⟨?_, Nat.le_refl _, hnot⟩
        cases m with
        | zero => rfl
        | succ m =>
            rw [stripParentheses]
            split
            · exact absurd ‹_› (hnot _)
            · rfl

theorem Forest.reach_unparenthesized (h : a.Forest) (c : Child) :
    a.reach (a.unparenthesized c) ≤ a.reach c :=
  (h.stripParentheses_spec (a.reach_le c) (a.reach_le c)).2.1

theorem Forest.accessNames_eq (h : a.Forest) (hn : a.reach c ≤ n) (hm : a.reach c ≤ m) :
    a.accessNames n c = a.accessNames m c := by
  induction n generalizing c m with
  | zero =>
      have hform := form?_of_reach (Nat.le_zero.mp hn)
      cases m with
      | zero => rfl
      | succ m => rw [accessNames, accessNames, hform]
  | succ n ih =>
      cases m with
      | zero => rw [accessNames, accessNames, form?_of_reach (Nat.le_zero.mp hm)]
      | succ m =>
          rw [accessNames, accessNames]
          split
          · rename_i target name optional hform
            have hlt := h.reach_lt hform (List.mem_cons_self (a := target))
            rw [@ih target m (by omega) (by omega)]
          all_goals rfl

theorem Forest.stripRequiredIn_eq (h : a.Forest) {required : Bool} (hn : a.reach c ≤ n)
    (hm : a.reach c ≤ m) : a.stripRequiredIn n c required = a.stripRequiredIn m c required := by
  have hle := h.reach_unparenthesized c
  induction n generalizing c m required with
  | zero =>
      have hform := form?_of_reach (Nat.le_zero.mp (hle.trans hn))
      cases m with
      | zero => rfl
      | succ m =>
          rw [stripRequiredIn, stripRequiredIn, hform]
  | succ n ih =>
      cases m with
      | zero =>
          rw [stripRequiredIn, stripRequiredIn, form?_of_reach (Nat.le_zero.mp (hle.trans hm))]
      | succ m =>
          rw [stripRequiredIn, stripRequiredIn]
          split
          · rename_i target name optional hform
            have hlt := h.reach_lt hform (List.mem_cons_self (a := target))
            rw [@ih target m true (by omega) (by omega) (h.reach_unparenthesized _)]
          · rfl

theorem Forest.reach_stripRequiredIn (h : a.Forest) {required : Bool} :
    a.reach (a.stripRequiredIn n c required).1 ≤ a.reach c := by
  have hle := h.reach_unparenthesized c
  induction n generalizing c required with
  | zero => exact hle
  | succ n ih =>
      rw [stripRequiredIn]
      split
      · rename_i target name optional hform
        have hlt := h.reach_lt hform (List.mem_cons_self (a := target))
        split
        · exact (ih (h.reach_unparenthesized target)).trans (by omega)
        · exact hle
      · exact hle

theorem Forest.reach_stripRequired (h : a.Forest) (c : Child) : a.reach (a.stripRequired c).1 ≤ a.reach c :=
  h.reach_stripRequiredIn

theorem Forest.literalValueIn_eq (h : a.Forest) (hn : a.reach c ≤ n) (hm : a.reach c ≤ m) :
    a.literalValueIn n c = a.literalValueIn m c := by
  have hle := h.reach_unparenthesized c
  induction n generalizing c m with
  | zero =>
      have hform := form?_of_reach (Nat.le_zero.mp (hle.trans hn))
      cases m with
      | zero => rfl
      | succ m => rw [literalValueIn, literalValueIn, hform]
  | succ n ih =>
      cases m with
      | zero => rw [literalValueIn, literalValueIn, form?_of_reach (Nat.le_zero.mp (hle.trans hm))]
      | succ m =>
          rw [literalValueIn, literalValueIn]
          split
          case h_4 operand hform =>
            have hlt := h.reach_lt hform (List.mem_singleton_self operand)
            rw [@ih operand m (by omega) (by omega) (h.reach_unparenthesized _)]
          all_goals rfl

/-- Whether following links comes to an end: a budget beyond the number of nodes changes nothing. -/
structure LinksEnd (a : Arena) : Prop where
  parentheses : ∀ n c, a.size ≤ n → a.stripParentheses n c = a.unparenthesized c
  stripped : ∀ c e, a.form? (a.unparenthesized c) ≠ some (.parenthesized e)
  chain : ∀ n c, a.size ≤ n → (a.accessNames n c).map List.reverse = a.accessChain c
  required : ∀ n c, a.size ≤ n → a.stripRequiredIn n c false = a.stripRequired c
  value : ∀ n c, a.size ≤ n → a.literalValueIn n c = a.literalValue c

theorem Forest.linksEnd (h : a.Forest) : a.LinksEnd where
  parentheses _ c hn := (h.stripParentheses_spec ((a.reach_le c).trans hn) (a.reach_le c)).1
  stripped c := (h.stripParentheses_spec (a.reach_le c) (a.reach_le c)).2.2
  chain _ c hn := congrArg _ (h.accessNames_eq ((a.reach_le c).trans hn) (a.reach_le c))
  required _ c hn :=
    h.stripRequiredIn_eq ((a.reach_le c).trans hn) ((a.reach_le c).trans (Nat.le_succ _))
  value _ c hn := h.literalValueIn_eq ((a.reach_le c).trans hn) ((a.reach_le c).trans (Nat.le_succ _))

theorem LinksEnd.unparenthesized_eq (h : a.LinksEnd) (hform : a.form? c = some (.parenthesized e)) :
    a.unparenthesized c = a.unparenthesized e := by
  rw [← h.parentheses (a.size + 1) c (Nat.le_succ _), stripParentheses, hform]
  exact h.parentheses _ _ (Nat.le_refl _)

end PropContract.Arena
