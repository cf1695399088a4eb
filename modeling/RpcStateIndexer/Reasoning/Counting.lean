import RpcStateIndexer.Reasoning.Program

/-!
# Counting operations

How often a program asks something at most, whatever it is answered.
-/

namespace RpcStateIndexer.Reasoning.Program

variable {Op : Type} {Ans : Op → Type} {ε α β : Type} {counts : Sigma Ans → Bool}

/-- In each run at most `k` events count. -/
def AtMost (counts : Sigma Ans → Bool) (k : Nat) (p : Program Op Ans ε α) : Prop :=
  ∀ t r, Runs p t r → t.countP counts ≤ k

namespace AtMost

variable {k m : Nat} {p : Program Op Ans ε α} {f : α → Program Op Ans ε β}

theorem mono (h : AtMost counts k p) (hle : k ≤ m) : AtMost counts m p :=
  fun t r hruns => Nat.le_trans (h t r hruns) hle

theorem raise (e : ε) : AtMost counts 0 (.raise e : Program Op Ans ε α) := by
  intro t r hruns
  obtain ⟨rfl, -⟩ := runs_raise_iff.mp hruns
  exact Nat.le_refl 0

theorem ret (a : α) : AtMost counts 0 (.ret a : Program Op Ans ε α) := by
  intro t r hruns
  obtain ⟨rfl, -⟩ := runs_ret_iff.mp hruns
  exact Nat.le_refl 0

theorem ofExcept (x : Except ε α) : AtMost counts 0 (ofExcept x : Program Op Ans ε α) := by
  intro t r hruns
  obtain ⟨rfl, -⟩ := runs_ofExcept_iff.mp hruns
  exact Nat.le_refl 0

theorem bind (hp : AtMost counts k p) (hf : ∀ a, AtMost counts m (f a)) :
    AtMost counts (k + m) (p >>= f) := by
  intro t r hruns
  obtain ⟨a, t₁, t₂, rfl, h₁, h₂⟩ | ⟨e, h₁, -⟩ := runs_bind_iff.mp hruns
  · rw [List.countP_append]
    exact Nat.add_le_add (hp _ _ h₁) (hf a _ _ h₂)
  · exact Nat.le_trans (hp _ _ h₁) (Nat.le_add_right k m)

theorem outcome (hp : AtMost counts k p) : AtMost counts k p.outcome := by
  intro t r hruns
  obtain ⟨x, -, h⟩ := runs_outcome_iff.mp hruns
  exact hp _ _ h

/-- One operation counts at most once. -/
theorem call (op : Op) {g : Ans op → Program Op Ans ε α} (hg : ∀ a, AtMost counts k (g a)) :
    AtMost counts (1 + k) (.call op g) := by
  intro t r hruns
  obtain ⟨a, t', rfl, hrest⟩ := runs_call_iff.mp hruns
  have hhead : [(⟨op, a⟩ : Sigma Ans)].countP counts ≤ 1 := List.countP_le_length
  rw [← List.singleton_append, List.countP_append]
  exact Nat.add_le_add hhead (hg a _ _ hrest)

/-- An operation that does not count. -/
theorem skip {op : Op} {g : Ans op → Program Op Ans ε α} (hop : ∀ a, counts ⟨op, a⟩ = false)
    (hg : ∀ a, AtMost counts k (g a)) : AtMost counts k (.call op g) := by
  intro t r hruns
  obtain ⟨a, t', rfl, hrest⟩ := runs_call_iff.mp hruns
  rw [List.countP_cons_of_neg (ne_true_of_eq_false (hop a))]
  exact hg a _ _ hrest

end AtMost

end RpcStateIndexer.Reasoning.Program
