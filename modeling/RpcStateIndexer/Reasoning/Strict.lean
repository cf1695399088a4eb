import RpcStateIndexer.Reasoning.Program

/-!
# Programs that raise what goes wrong

A program is strict when it raises a bad answer at once.  Whatever is left of a strict program while it is
answered, now by an environment and now badly, can only return what the environment alone makes it return.
-/

namespace RpcStateIndexer.Reasoning.Program

variable {Op Op' : Type} {Ans : Op → Type} {Ans' : Op' → Type} {ε ε' α β : Type}

/-- A bad answer is raised at once. -/
def Strict (bad : (op : Op) → Ans op → Prop) : Program Op Ans ε α → Prop
  | .ret _ => True
  | .raise _ => True
  | .call op k => ∀ a, (bad op a → ∃ e, k a = .raise e) ∧ Strict bad (k a)

namespace Strict

variable {bad : (op : Op) → Ans op → Prop}

theorem bind {p : Program Op Ans ε α} {f : α → Program Op Ans ε β} (hp : Strict bad p)
    (hf : ∀ a, Strict bad (f a)) : Strict bad (p >>= f) := by
  induction p with
  | ret a => exact hf a
  | raise e => trivial
  | call op k ih =>
    intro a
    refine ⟨fun hbad => ?_, ih a (hp a).2⟩
    obtain ⟨e, he⟩ := (hp a).1 hbad
    exact ⟨e, show (k a >>= f) = _ by rw [he]; rfl⟩

theorem ofExcept (x : Except ε α) : Strict bad (ofExcept x : Program Op Ans ε α) := by
  cases x <;> trivial

theorem mapM {γ : Type} {f : γ → Program Op Ans ε β} {l : List γ} (h : ∀ x ∈ l, Strict bad (f x)) :
    Strict bad (l.mapM f) := by
  induction l with
  | nil => trivial
  | cons x l ih =>
    rw [List.mapM_cons]
    obtain ⟨hx, hl⟩ := List.forall_mem_cons.mp h
    exact bind hx fun _ => bind (ih hl) fun _ => trivial

theorem lift {emb : Op → Op'} {out : (op : Op) → Ans' (emb op) → Ans op} {err : ε → ε'}
    {bad' : (op : Op') → Ans' op → Prop} {p : Program Op Ans ε α} (h : Strict bad p)
    (hbad : ∀ op a, bad' (emb op) a → bad op (out op a)) : Strict bad' (p.lift emb out err) := by
  induction p with
  | ret a => trivial
  | raise e => trivial
  | call op k ih =>
    intro a
    refine ⟨fun ha => ?_, ih _ (h (out op a)).2⟩
    obtain ⟨e, he⟩ := (h (out op a)).1 (hbad op a ha)
    exact ⟨err e, show (k (out op a)).lift emb out err = _ by rw [he]; rfl⟩

end Strict

theorem answeredBy_lift {emb : Op → Op'} {out : (op : Op) → Ans' (emb op) → Ans op} {err : ε → ε'}
    (env : (op : Op') → Ans' op) (p : Program Op Ans ε α) :
    answeredBy env (p.lift emb out err) =
      (answeredBy (fun op => out op (env (emb op))) p).mapError err := by
  induction p with
  | ret a => rfl
  | raise e => rfl
  | call op k ih => exact ih _

/-- `q` is left of `p`: it has raised, or the environment makes it end as it makes `p`. -/
structure LeftOf (bad : (op : Op) → Ans op → Prop) (env : (op : Op) → Ans op)
    (p q : Program Op Ans ε α) : Prop where
  strict : Strict bad q
  ends : answeredBy env q = answeredBy env p ∨ ∃ e, q = .raise e

namespace LeftOf

variable {bad : (op : Op) → Ans op → Prop} {env : (op : Op) → Ans op} {p : Program Op Ans ε α}

theorem refl (h : Strict bad p) : LeftOf bad env p p := ⟨h, .inl rfl⟩

theorem step {op : Op} {k : Ans op → Program Op Ans ε α} (h : LeftOf bad env p (.call op k))
    {a : Ans op} (ha : a = env op ∨ bad op a) : LeftOf bad env p (k a) := by
  refine ⟨(h.strict a).2, ?_⟩
  rcases ha with rfl | ha
  · exact .inl (h.ends.resolve_right (fun ⟨_, he⟩ => nomatch he))
  · exact .inr ((h.strict a).1 ha)

/-- What it returns is what the environment makes the whole program return. -/
theorem returns {a : α} (h : LeftOf bad env p (.ret a)) : answeredBy env p = .ok a :=
  (h.ends.resolve_right (fun ⟨_, he⟩ => nomatch he)).symm

end LeftOf

end RpcStateIndexer.Reasoning.Program
