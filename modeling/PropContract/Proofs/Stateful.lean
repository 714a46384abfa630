/-!
# Running stateful programs

What a program in a state monad gives and leaves behind, without the identity monad in between.
-/

namespace PropContract.Stateful

variable {σ α β : Type} (m : StateM σ α) (s : σ)

theorem run_pure (x : α) : (pure x : StateM σ α).run s = (x, s) := rfl

theorem run_bind (k : α → StateM σ β) : (m >>= k).run s = (k (m.run s).1).run (m.run s).2 := rfl

theorem run_map (f : α → β) : (f <$> m).run s = (f (m.run s).1, (m.run s).2) := rfl

theorem run_get : (get : StateM σ σ).run s = (s, s) := rfl

theorem run_modify (f : σ → σ) : (modify f : StateM σ PUnit).run s = (⟨⟩, f s) := rfl

end PropContract.Stateful
