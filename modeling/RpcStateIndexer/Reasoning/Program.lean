import Mathlib.Logic.Relation
import Mathlib.Data.List.Basic
import Mathlib.Data.List.Forall2

/-!
# Programs over an effect signature

Code that talks to its environment is a decision tree: a node issues one operation and branches on
the answer.  The environment is a relation on worlds, so an answer may be adversarial, a write may
fail before or after it took effect, and a run may stop after any operation.  `Safe` is the weakest
precondition that also asks for a crash condition in every world passed through.
-/

namespace RpcStateIndexer.Reasoning

/-- A computation that issues operations `op : Op`, receives `Ans op`, and returns or raises. -/
inductive Program (Op : Type) (Ans : Op → Type) (ε : Type) (α : Type) : Type where
  | ret (a : α)
  | raise (e : ε)
  | call (op : Op) (k : Ans op → Program Op Ans ε α)

namespace Program

variable {Op : Type} {Ans : Op → Type} {ε α β γ : Type}

protected def bind : Program Op Ans ε α → (α → Program Op Ans ε β) → Program Op Ans ε β
  | .ret a, f => f a
  | .raise e, _ => .raise e
  | .call op k, f => .call op fun a => (k a).bind f

protected def tryCatch :
    Program Op Ans ε α → (ε → Program Op Ans ε α) → Program Op Ans ε α
  | .ret a, _ => .ret a
  | .raise e, h => h e
  | .call op k, h => .call op fun a => (k a).tryCatch h

instance : Monad (Program Op Ans ε) where
  pure := .ret
  bind := .bind

instance : MonadExceptOf ε (Program Op Ans ε) where
  throw := .raise
  tryCatch := .tryCatch

/-- What the program returns or raises, as a value. -/
def outcome : Program Op Ans ε α → Program Op Ans ε (Except ε α)
  | .ret a => .ret (.ok a)
  | .raise e => .ret (.error e)
  | .call op k => .call op fun a => (k a).outcome

/-- Issue one operation and return its answer. -/
def perform (op : Op) : Program Op Ans ε (Ans op) := .call op .ret

@[simp] theorem pure_eq (a : α) : (pure a : Program Op Ans ε α) = .ret a := rfl
@[simp] theorem throw_eq (e : ε) : (throw e : Program Op Ans ε α) = .raise e := rfl

@[simp] theorem ret_bind (a : α) (f : α → Program Op Ans ε β) : (.ret a >>= f) = f a := rfl

@[simp] theorem raise_bind (e : ε) (f : α → Program Op Ans ε β) :
    (.raise e >>= f) = .raise e := rfl

@[simp] theorem call_bind (op : Op) (k : Ans op → Program Op Ans ε α)
    (f : α → Program Op Ans ε β) : (.call op k >>= f) = .call op fun a => k a >>= f := rfl

theorem bind_ret (p : Program Op Ans ε α) : (p >>= .ret) = p := by
  induction p with
  | ret a => rfl
  | raise e => rfl
  | call op k ih => exact congrArg (Program.call op) (funext fun a => ih a)

theorem bind_assoc (p : Program Op Ans ε α) (f : α → Program Op Ans ε β)
    (g : β → Program Op Ans ε γ) : (p >>= f >>= g) = (p >>= fun a => f a >>= g) := by
  induction p with
  | ret a => rfl
  | raise e => rfl
  | call op k ih => exact congrArg (Program.call op) (funext fun a => ih a)

instance : LawfulMonad (Program Op Ans ε) :=
  LawfulMonad.mk' _ bind_ret (fun _ _ => rfl) bind_assoc

@[simp] theorem perform_bind (op : Op) (f : Ans op → Program Op Ans ε β) :
    (perform op >>= f) = .call op f := rfl

/-! ## Complete runs and the operations they issue -/

/-- `Runs p t r`: answering the operations of `p` as the trace `t` records ends in `r`. -/
inductive Runs : Program Op Ans ε α → List (Sigma Ans) → Except ε α → Prop where
  | ret (a : α) : Runs (.ret a) [] (.ok a)
  | raise (e : ε) : Runs (.raise e) [] (.error e)
  | call {op : Op} {k : Ans op → Program Op Ans ε α} {a : Ans op} {t : List (Sigma Ans)}
      {r : Except ε α} (rest : Runs (k a) t r) : Runs (.call op k) (⟨op, a⟩ :: t) r

@[simp] theorem runs_ret_iff {a : α} {t : List (Sigma Ans)} {r : Except ε α} :
    Runs (.ret a : Program Op Ans ε α) t r ↔ t = [] ∧ r = .ok a := by
  constructor
  · rintro ⟨⟩
    exact ⟨rfl, rfl⟩
  · rintro ⟨rfl, rfl⟩
    exact .ret a

@[simp] theorem runs_raise_iff {e : ε} {t : List (Sigma Ans)} {r : Except ε α} :
    Runs (.raise e : Program Op Ans ε α) t r ↔ t = [] ∧ r = .error e := by
  constructor
  · rintro ⟨⟩
    exact ⟨rfl, rfl⟩
  · rintro ⟨rfl, rfl⟩
    exact .raise e

theorem not_runs_raise_ok {e : ε} {t : List (Sigma Ans)} {a : α} :
    ¬ Runs (.raise e : Program Op Ans ε α) t (.ok a) := by
  rw [runs_raise_iff]
  rintro ⟨-, h⟩
  cases h

theorem runs_call_iff {op : Op} {k : Ans op → Program Op Ans ε α} {t : List (Sigma Ans)}
    {r : Except ε α} :
    Runs (.call op k) t r ↔ ∃ a t', t = ⟨op, a⟩ :: t' ∧ Runs (k a) t' r := by
  constructor
  · rintro ⟨⟩
    exact ⟨_, _, rfl, by assumption⟩
  · rintro ⟨a, t', rfl, h⟩
    exact .call h

/-- The answers determine how a run ends. -/
theorem Runs.unique {p : Program Op Ans ε α} {t : List (Sigma Ans)} {r r' : Except ε α} (h : Runs p t r)
    (h' : Runs p t r') : r = r' := by
  induction h with
  | ret a => exact (runs_ret_iff.mp h').2.symm
  | raise e => exact (runs_raise_iff.mp h').2.symm
  | call rest ih =>
    obtain ⟨a, t, htrace, hrest⟩ := runs_call_iff.mp h'
    cases htrace
    exact ih hrest

/-- A run of a bind is a run of its first part, followed by a run of the rest if that returned. -/
theorem runs_bind_iff {p : Program Op Ans ε α} {f : α → Program Op Ans ε β}
    {t : List (Sigma Ans)} {r : Except ε β} :
    Runs (p >>= f) t r ↔
      (∃ a t₁ t₂, t = t₁ ++ t₂ ∧ Runs p t₁ (.ok a) ∧ Runs (f a) t₂ r) ∨
        ∃ e, Runs p t (.error e) ∧ r = .error e := by
  induction p generalizing t with
  | ret a => simp
  | raise e => simp
  | call op k ih =>
    simp only [call_bind, runs_call_iff, ih]
    constructor
    · rintro ⟨a, t', rfl, ⟨b, t₁, t₂, rfl, h₁, h₂⟩ | ⟨e, h, rfl⟩⟩
      · exact .inl ⟨b, _, t₂, rfl, ⟨a, t₁, rfl, h₁⟩, h₂⟩
      · exact .inr ⟨e, ⟨a, t', rfl, h⟩, rfl⟩
    · rintro (⟨b, t₁, t₂, rfl, ⟨a, t', rfl, h₁⟩, h₂⟩ | ⟨e, ⟨a, t', rfl, h⟩, rfl⟩)
      · exact ⟨a, t' ++ t₂, rfl, .inl ⟨b, t', t₂, rfl, h₁, h₂⟩⟩
      · exact ⟨a, t', rfl, .inr ⟨e, h, rfl⟩⟩

theorem runs_bind_ok_iff {p : Program Op Ans ε α} {f : α → Program Op Ans ε β}
    {t : List (Sigma Ans)} {b : β} :
    Runs (p >>= f) t (.ok b) ↔
      ∃ a t₁ t₂, t = t₁ ++ t₂ ∧ Runs p t₁ (.ok a) ∧ Runs (f a) t₂ (.ok b) := by
  rw [runs_bind_iff, or_iff_left]
  rintro ⟨e, -, herror⟩
  exact absurd herror nofun

theorem runs_outcome_iff {p : Program Op Ans ε α} {t : List (Sigma Ans)}
    {r : Except ε (Except ε α)} : Runs p.outcome t r ↔ ∃ x, r = .ok x ∧ Runs p t x := by
  induction p generalizing t with
  | ret a =>
    rw [outcome, runs_ret_iff]
    constructor
    · rintro ⟨rfl, rfl⟩
      exact ⟨_, rfl, .ret a⟩
    · rintro ⟨x, rfl, hrun⟩
      obtain ⟨rfl, rfl⟩ := runs_ret_iff.mp hrun
      exact ⟨rfl, rfl⟩
  | raise e =>
    rw [outcome, runs_ret_iff]
    constructor
    · rintro ⟨rfl, rfl⟩
      exact ⟨_, rfl, .raise e⟩
    · rintro ⟨x, rfl, hrun⟩
      obtain ⟨rfl, rfl⟩ := runs_raise_iff.mp hrun
      exact ⟨rfl, rfl⟩
  | call op k ih =>
    rw [outcome, runs_call_iff]
    constructor
    · rintro ⟨a, t', rfl, hrest⟩
      obtain ⟨x, rfl, hrun⟩ := (ih a).mp hrest
      exact ⟨x, rfl, .call hrun⟩
    · rintro ⟨x, rfl, hrun⟩
      obtain ⟨a, t', rfl, hrest⟩ := runs_call_iff.mp hrun
      exact ⟨a, t', rfl, (ih a).mpr ⟨x, rfl, hrest⟩⟩

/-- A handler runs after the guarded part raised. -/
theorem runs_tryCatch_iff {p : Program Op Ans ε α} {h : ε → Program Op Ans ε α}
    {t : List (Sigma Ans)} {r : Except ε α} :
    Runs (tryCatch p h) t r ↔
      (∃ a, r = .ok a ∧ Runs p t (.ok a)) ∨
        ∃ e t₁ t₂, t = t₁ ++ t₂ ∧ Runs p t₁ (.error e) ∧ Runs (h e) t₂ r := by
  change Runs (p.tryCatch h) t r ↔ _
  induction p generalizing t with
  | ret a => simp [Program.tryCatch, and_comm]
  | raise e => simp [Program.tryCatch]
  | call op k ih =>
    simp only [Program.tryCatch, runs_call_iff, ih]
    constructor
    · rintro ⟨a, t', rfl, ⟨b, rfl, hrun⟩ | ⟨e, t₁, t₂, rfl, h₁, h₂⟩⟩
      · exact .inl ⟨b, rfl, a, t', rfl, hrun⟩
      · exact .inr ⟨e, _, t₂, rfl, ⟨a, t₁, rfl, h₁⟩, h₂⟩
    · rintro (⟨b, rfl, a, t', rfl, hrun⟩ | ⟨e, _, t₂, rfl, ⟨a, t₁, rfl, h₁⟩, h₂⟩)
      · exact ⟨a, t', rfl, .inl ⟨b, rfl, hrun⟩⟩
      · exact ⟨a, t₁ ++ t₂, rfl, .inr ⟨e, t₁, t₂, rfl, h₁, h₂⟩⟩

/-- A traversal that returns holds a run of each of its parts. -/
theorem runs_mapM_ok {f : α → Program Op Ans ε β} {l : List α} {t : List (Sigma Ans)} {bs : List β}
    (h : Runs (l.mapM f) t (.ok bs)) :
    List.Forall₂ (fun a b => ∃ t', t'.Sublist t ∧ Runs (f a) t' (.ok b)) l bs := by
  induction l generalizing t bs with
  | nil =>
    rw [List.mapM_nil] at h
    rw [Except.ok.inj (runs_ret_iff.mp h).2]
    exact .nil
  | cons a l ih =>
    rw [List.mapM_cons] at h
    obtain ⟨b, t₁, t₂, rfl, h₁, h₂⟩ := runs_bind_ok_iff.mp h
    obtain ⟨bs', t₃, t₄, rfl, h₃, h₄⟩ := runs_bind_ok_iff.mp h₂
    obtain ⟨rfl, hbs⟩ := runs_ret_iff.mp h₄
    rw [Except.ok.inj hbs, List.append_nil]
    refine .cons ⟨t₁, List.sublist_append_left _ _, h₁⟩ (List.Forall₂.imp ?_ (ih h₃))
    rintro x y ⟨t', hsub, hrun⟩
    exact ⟨t', hsub.trans (List.sublist_append_right _ _), hrun⟩

/-- A traversal that raises does so in a run of one of its parts. -/
theorem runs_mapM_error {f : α → Program Op Ans ε β} {l : List α} {t : List (Sigma Ans)} {e : ε}
    (h : Runs (l.mapM f) t (.error e)) : ∃ a ∈ l, ∃ t', Runs (f a) t' (.error e) := by
  induction l generalizing t with
  | nil =>
    rw [List.mapM_nil] at h
    cases (runs_ret_iff.mp h).2
  | cons a l ih =>
    rw [List.mapM_cons] at h
    rcases runs_bind_iff.mp h with ⟨b, t₁, t₂, -, -, hrest⟩ | ⟨e', ha, he⟩
    · rcases runs_bind_iff.mp hrest with ⟨bs, t₃, t₄, -, -, hret⟩ | ⟨e', hl, he⟩
      · cases (runs_ret_iff.mp hret).2
      · cases he
        obtain ⟨a', ha', hrun⟩ := ih hl
        exact ⟨a', List.mem_cons_of_mem a ha', hrun⟩
    · cases he
      exact ⟨a, List.mem_cons_self, t, ha⟩

@[simp] theorem runs_ofExcept_iff {x : Except ε α} {t : List (Sigma Ans)} {r : Except ε α} :
    Runs (ofExcept x : Program Op Ans ε α) t r ↔ t = [] ∧ r = x := by
  cases x with
  | error e => exact runs_raise_iff
  | ok a => exact runs_ret_iff

/-- A loop whose body calls nothing ends as the loop over what the body computes. -/
theorem runs_foldlM_ofExcept_iff {σ : Type} {step : σ → α → Except ε σ} {l : List α} {st : σ}
    {t : List (Sigma Ans)} {r : Except ε σ} :
    Runs (l.foldlM (fun st a => (ofExcept (step st a) : Program Op Ans ε σ)) st) t r ↔
      t = [] ∧ r = l.foldlM step st := by
  induction l generalizing st with
  | nil => exact runs_ret_iff
  | cons a l ih =>
    rw [List.foldlM_cons, List.foldlM_cons]
    cases hstep : step st a with
    | error e => exact runs_raise_iff
    | ok next => exact ih

/-- One operation whose answer is either returned or raised. -/
theorem runs_call_ofExcept_iff {op : Op} {k : Ans op → Program Op Ans ε α} {out : Ans op → Except ε α}
    (hk : ∀ a, k a = ofExcept (out a)) {t : List (Sigma Ans)} {r : Except ε α} :
    Runs (.call op k) t r ↔ ∃ a, t = [⟨op, a⟩] ∧ r = out a := by
  rw [runs_call_iff]
  constructor
  · rintro ⟨a, t', rfl, hrest⟩
    rw [hk] at hrest
    obtain ⟨rfl, rfl⟩ := runs_ofExcept_iff.mp hrest
    exact ⟨a, rfl, rfl⟩
  · rintro ⟨a, rfl, rfl⟩
    refine ⟨a, [], rfl, ?_⟩
    rw [hk]
    exact runs_ofExcept_iff.mpr ⟨rfl, rfl⟩

/-- The run of `p` against an environment that answers each operation the same way each time. -/
def answeredBy (env : (op : Op) → Ans op) : Program Op Ans ε α → Except ε α
  | .ret a => .ok a
  | .raise e => .error e
  | .call op k => answeredBy env (k (env op))

theorem answeredBy_bind (env : (op : Op) → Ans op) (p : Program Op Ans ε α)
    (f : α → Program Op Ans ε β) :
    answeredBy env (p >>= f) = (answeredBy env p >>= fun a => answeredBy env (f a)) := by
  induction p with
  | ret a => rfl
  | raise e => rfl
  | call op k ih => exact ih (env op)

@[simp] theorem answeredBy_ofExcept (env : (op : Op) → Ans op) (x : Except ε α) :
    answeredBy env (ofExcept x : Program Op Ans ε α) = x := by
  cases x <;> rfl

theorem answeredBy_outcome (env : (op : Op) → Ans op) (p : Program Op Ans ε α) :
    answeredBy env p.outcome = .ok (answeredBy env p) := by
  induction p with
  | ret a => rfl
  | raise e => rfl
  | call op k ih => exact ih (env op)

theorem answeredBy_tryCatch (env : (op : Op) → Ans op) (p : Program Op Ans ε α)
    (h : ε → Program Op Ans ε α) :
    answeredBy env (tryCatch p h) = tryCatch (answeredBy env p) fun e => answeredBy env (h e) := by
  change answeredBy env (p.tryCatch h) = _
  induction p with
  | ret a => rfl
  | raise e => rfl
  | call op k ih => exact ih (env op)

theorem answeredBy_mapM (env : (op : Op) → Ans op) (f : α → Program Op Ans ε β) (l : List α) :
    answeredBy env (l.mapM f) = l.mapM fun a => answeredBy env (f a) := by
  induction l with
  | nil => rfl
  | cons a l ih =>
    rw [List.mapM_cons, List.mapM_cons, answeredBy_bind]
    congr 1
    funext b
    rw [answeredBy_bind, ih]
    rfl

theorem answeredBy_foldlM {σ : Type} (env : (op : Op) → Ans op) (body : σ → α → Program Op Ans ε σ)
    (l : List α) (st : σ) :
    answeredBy env (l.foldlM body st) = l.foldlM (fun st a => answeredBy env (body st a)) st := by
  induction l generalizing st with
  | nil => rfl
  | cons a l ih =>
    rw [List.foldlM_cons, List.foldlM_cons, answeredBy_bind]
    congr 1
    funext next
    exact ih next

/-- The operations `p` issues against such an environment, with the answers. -/
def traceOf (env : (op : Op) → Ans op) : Program Op Ans ε α → List (Sigma Ans)
  | .ret _ => []
  | .raise _ => []
  | .call op k => ⟨op, env op⟩ :: traceOf env (k (env op))

theorem runs_answeredBy (env : (op : Op) → Ans op) (p : Program Op Ans ε α) :
    Runs p (traceOf env p) (answeredBy env p) := by
  induction p with
  | ret a => exact .ret a
  | raise e => exact .raise e
  | call op k ih => exact .call (ih _)

/-- A run whose answers are those of the environment ends as the environment ends it. -/
theorem eq_answeredBy {env : (op : Op) → Ans op} {p : Program Op Ans ε α} {t : List (Sigma Ans)}
    {r : Except ε α} (h : Runs p t r) (ht : ∀ x ∈ t, x.2 = env x.1) : r = answeredBy env p := by
  induction h with
  | ret a => rfl
  | raise e => rfl
  | @call op k a t r _ ih =>
    obtain ⟨ha, hrest⟩ := List.forall_mem_cons.mp ht
    rw [ih hrest, answeredBy, ← ha]

theorem answer_of_mem_traceOf {env : (op : Op) → Ans op} {p : Program Op Ans ε α}
    {x : Sigma Ans} (hx : x ∈ traceOf env p) : x.2 = env x.1 := by
  induction p with
  | ret a => simp [traceOf] at hx
  | raise e => simp [traceOf] at hx
  | call op k ih =>
    rcases List.mem_cons.mp hx with rfl | hx
    · rfl
    · exact ih _ hx

/-- An oracle that sees everything asked and answered so far drives every program to its end. -/
theorem exists_run_of_oracle (oracle : List (Sigma Ans) → (op : Op) → Ans op)
    (p : Program Op Ans ε α) (seen : List (Sigma Ans)) :
    ∃ t r, Runs p t r ∧ ∀ earlier x later, t = earlier ++ x :: later →
      x.2 = oracle (seen ++ earlier) x.1 := by
  induction p generalizing seen with
  | ret a => exact ⟨[], _, .ret a, by simp⟩
  | raise e => exact ⟨[], _, .raise e, by simp⟩
  | call op k ih =>
    obtain ⟨t, r, hrun, ht⟩ := ih (oracle seen op) (seen ++ [⟨op, oracle seen op⟩])
    refine ⟨⟨op, oracle seen op⟩ :: t, r, .call hrun, ?_⟩
    intro earlier x later hsplit
    cases earlier with
    | nil =>
      obtain ⟨rfl, -⟩ := List.cons.inj hsplit
      rw [List.append_nil]
    | cons y earlier =>
      obtain ⟨rfl, htail⟩ := List.cons.inj hsplit
      rw [ht earlier x later htail, List.append_assoc]
      rfl

/-! ## What a program may ask -/

/-- Whatever it is answered, `p` issues only operations of `P`. -/
def Asks (P : Op → Prop) : Program Op Ans ε α → Prop
  | .ret _ => True
  | .raise _ => True
  | .call op k => P op ∧ ∀ a, Asks P (k a)

namespace Asks

variable {P : Op → Prop}

theorem mono {P' : Op → Prop} {p : Program Op Ans ε α} (hp : Asks P p) (h : ∀ op, P op → P' op) :
    Asks P' p := by
  induction p with
  | ret a => trivial
  | raise e => trivial
  | call op k ih => exact ⟨h op hp.1, fun a => ih a (hp.2 a)⟩

theorem all (h : ∀ op, P op) (p : Program Op Ans ε α) : Asks P p := by
  induction p with
  | ret a => trivial
  | raise e => trivial
  | call op k ih => exact ⟨h op, ih⟩

theorem bind {p : Program Op Ans ε α} {f : α → Program Op Ans ε β} (hp : Asks P p)
    (hf : ∀ a, Asks P (f a)) : Asks P (p >>= f) := by
  induction p with
  | ret a => exact hf a
  | raise e => trivial
  | call op k ih => exact ⟨hp.1, fun a => ih a (hp.2 a)⟩

theorem tryCatch {p : Program Op Ans ε α} {h : ε → Program Op Ans ε α} (hp : Asks P p)
    (hh : ∀ e, Asks P (h e)) : Asks P (MonadExcept.tryCatch p h) := by
  change Asks P (p.tryCatch h)
  induction p with
  | ret a => trivial
  | raise e => exact hh e
  | call op k ih => exact ⟨hp.1, fun a => ih a (hp.2 a)⟩

theorem outcome {p : Program Op Ans ε α} (hp : Asks P p) : Asks P p.outcome := by
  induction p with
  | ret a => trivial
  | raise e => trivial
  | call op k ih => exact ⟨hp.1, fun a => ih a (hp.2 a)⟩

theorem ofExcept (x : Except ε α) : Asks P (ofExcept x : Program Op Ans ε α) := by
  cases x <;> trivial

/-- The rest of the program runs with the value that is there. -/
theorem ofExcept_bind {x : Except ε α} {f : α → Program Op Ans ε β} (h : ∀ a, x = .ok a → Asks P (f a)) :
    Asks P ((MonadExcept.ofExcept x : Program Op Ans ε α) >>= f) := by
  cases x with
  | error e => trivial
  | ok a => exact h a rfl

theorem forM {γ : Type} {body : γ → Program Op Ans ε PUnit} {l : List γ}
    (h : ∀ x ∈ l, Asks P (body x)) : Asks P (l.forM body) := by
  induction l with
  | nil => trivial
  | cons x l ih =>
    exact bind (h x List.mem_cons_self) fun _ => ih fun y hy => h y (List.mem_cons_of_mem _ hy)

theorem mapM {γ : Type} {f : γ → Program Op Ans ε β} {l : List γ} (h : ∀ x ∈ l, Asks P (f x)) :
    Asks P (l.mapM f) := by
  induction l with
  | nil => trivial
  | cons x l ih =>
    rw [List.mapM_cons]
    obtain ⟨hx, hl⟩ := List.forall_mem_cons.mp h
    exact bind hx fun _ => bind (ih hl) fun _ => trivial

theorem foldlM {σ : Type} {body : σ → γ → Program Op Ans ε σ} {l : List γ}
    (h : ∀ st, ∀ x ∈ l, Asks P (body st x))
    (st : σ) : Asks P (l.foldlM body st) := by
  induction l generalizing st with
  | nil => trivial
  | cons x l ih =>
    rw [List.foldlM_cons]
    refine bind (h st x List.mem_cons_self) fun next => ih (fun st y hy => ?_) next
    exact h st y (List.mem_cons_of_mem _ hy)

theorem runs {p : Program Op Ans ε α} {t : List (Sigma Ans)} {r : Except ε α} (hp : Asks P p)
    (h : Runs p t r) : ∀ x ∈ t, P x.1 := by
  induction h with
  | ret a => exact List.forall_mem_nil _
  | raise e => exact List.forall_mem_nil _
  | call _ ih => exact List.forall_mem_cons.mpr ⟨hp.1, ih (hp.2 _)⟩

/-- Only the answers to what a program asks matter. -/
theorem answeredBy_congr {env env' : (op : Op) → Ans op} {p : Program Op Ans ε α} (hp : Asks P p)
    (h : ∀ op, P op → env' op = env op) : answeredBy env' p = answeredBy env p := by
  induction p with
  | ret a => rfl
  | raise e => rfl
  | call op k ih =>
    change answeredBy env' (k (env' op)) = answeredBy env (k (env op))
    rw [h op hp.1]
    exact ih (env op) (hp.2 (env op))

end Asks

/-! ## Runs that are allowed -/

/-- Some run of `p` ends in `r`, each of its operations answered as `A` allows. -/
def MayEnd (A : Sigma Ans → Prop) (p : Program Op Ans ε α) (r : Except ε α) : Prop :=
  ∃ t, Runs p t r ∧ ∀ x ∈ t, A x

namespace MayEnd

variable {A : Sigma Ans → Prop}

theorem ret (a : α) : MayEnd A (.ret a : Program Op Ans ε α) (.ok a) :=
  ⟨[], .ret a, List.forall_mem_nil _⟩

theorem raise (e : ε) : MayEnd A (.raise e : Program Op Ans ε α) (.error e) :=
  ⟨[], .raise e, List.forall_mem_nil _⟩

theorem ofExcept (x : Except ε α) : MayEnd A (ofExcept x : Program Op Ans ε α) x :=
  ⟨[], runs_ofExcept_iff.mpr ⟨rfl, rfl⟩, List.forall_mem_nil _⟩

theorem call {op : Op} {k : Ans op → Program Op Ans ε α} {r : Except ε α} (a : Ans op)
    (ha : A ⟨op, a⟩) (h : MayEnd A (k a) r) : MayEnd A (.call op k) r := by
  obtain ⟨t, hrun, ht⟩ := h
  exact ⟨_, .call hrun, List.forall_mem_cons.mpr ⟨ha, ht⟩⟩

theorem bind {p : Program Op Ans ε α} {f : α → Program Op Ans ε β} {a : α} {r : Except ε β}
    (h : MayEnd A p (.ok a)) (h' : MayEnd A (f a) r) : MayEnd A (p >>= f) r := by
  obtain ⟨t, hrun, ht⟩ := h
  obtain ⟨t', hrun', ht'⟩ := h'
  refine ⟨t ++ t', runs_bind_iff.mpr (.inl ⟨a, t, t', rfl, hrun, hrun'⟩), ?_⟩
  exact List.forall_mem_append.mpr ⟨ht, ht'⟩

theorem bind_error {p : Program Op Ans ε α} {f : α → Program Op Ans ε β} {e : ε}
    (h : MayEnd A p (.error e)) : MayEnd A (p >>= f) (.error e) := by
  obtain ⟨t, hrun, ht⟩ := h
  exact ⟨t, runs_bind_iff.mpr (.inr ⟨e, hrun, rfl⟩), ht⟩

theorem outcome {p : Program Op Ans ε α} {r : Except ε α} (h : MayEnd A p r) :
    MayEnd A p.outcome (.ok r) := by
  obtain ⟨t, hrun, ht⟩ := h
  exact ⟨t, runs_outcome_iff.mpr ⟨r, rfl, hrun⟩, ht⟩

theorem guarded {p : Program Op Ans ε α} {f : ε → Program Op Ans ε α} {a : α}
    (h : MayEnd A p (.ok a)) : MayEnd A (tryCatch p f) (.ok a) := by
  obtain ⟨t, hrun, ht⟩ := h
  exact ⟨t, runs_tryCatch_iff.mpr (.inl ⟨a, rfl, hrun⟩), ht⟩

theorem handled {p : Program Op Ans ε α} {f : ε → Program Op Ans ε α} {e : ε} {r : Except ε α}
    (h : MayEnd A p (.error e)) (h' : MayEnd A (f e) r) : MayEnd A (tryCatch p f) r := by
  obtain ⟨t, hrun, ht⟩ := h
  obtain ⟨t', hrun', ht'⟩ := h'
  refine ⟨t ++ t', runs_tryCatch_iff.mpr (.inr ⟨e, t, t', rfl, hrun, hrun'⟩), ?_⟩
  exact List.forall_mem_append.mpr ⟨ht, ht'⟩

/-- A traversal may end in what its parts may end in. -/
theorem mapM {f : α → Program Op Ans ε β} {P : α → β → Prop} {l : List α}
    (h : ∀ a ∈ l, ∃ b, P a b ∧ MayEnd A (f a) (.ok b)) :
    ∃ bs, List.Forall₂ P l bs ∧ MayEnd A (l.mapM f) (.ok bs) := by
  induction l with
  | nil => exact ⟨[], .nil, .ret []⟩
  | cons a l ih =>
    obtain ⟨⟨b, hb, hfirst⟩, hl⟩ := List.forall_mem_cons.mp h
    obtain ⟨bs, hbs, hrest⟩ := ih hl
    refine ⟨b :: bs, .cons hb hbs, ?_⟩
    rw [List.mapM_cons]
    exact .bind hfirst (.bind hrest (.ret _))

end MayEnd

/-! ## Worlds, steps and crash safety -/

variable {W : Type}

/-- One operation answered by the environment `env`, which moves the world. -/
inductive Step (env : (op : Op) → W → Ans op → W → Prop) :
    Program Op Ans ε α × W → Program Op Ans ε α × W → Prop where
  | call {op : Op} {k : Ans op → Program Op Ans ε α} {w w' : W} {a : Ans op}
      (answer : env op w a w') : Step env (.call op k, w) (k a, w')

/-- Any number of operations; stopping here is a crash at that point. -/
abbrev Reaches (env : (op : Op) → W → Ans op → W → Prop) :
    Program Op Ans ε α × W → Program Op Ans ε α × W → Prop :=
  Relation.ReflTransGen (Step env)

/-- Every answer leads to a world with `C`, and every way to finish ends in `Q`. -/
def Safe (env : (op : Op) → W → Ans op → W → Prop) (C : W → Prop)
    (Q : Except ε α → W → Prop) : Program Op Ans ε α → W → Prop
  | .ret a, w => Q (.ok a) w
  | .raise e, w => Q (.error e) w
  | .call op k, w => ∀ a w', env op w a w' → C w' ∧ Safe env C Q (k a) w'

variable {env : (op : Op) → W → Ans op → W → Prop} {C : W → Prop}

@[simp] theorem safe_ret {Q : Except ε α → W → Prop} {a : α} {w : W} :
    Safe env C Q (.ret a : Program Op Ans ε α) w ↔ Q (.ok a) w := Iff.rfl

@[simp] theorem safe_raise {Q : Except ε α → W → Prop} {e : ε} {w : W} :
    Safe env C Q (.raise e : Program Op Ans ε α) w ↔ Q (.error e) w := Iff.rfl

theorem safe_call {Q : Except ε α → W → Prop} {op : Op} {k : Ans op → Program Op Ans ε α}
    {w : W} : Safe env C Q (.call op k) w ↔
      ∀ a w', env op w a w' → C w' ∧ Safe env C Q (k a) w' := Iff.rfl

theorem Safe.step {Q : Except ε α → W → Prop} {p p' : Program Op Ans ε α} {w w' : W}
    (h : Safe env C Q p w) (hs : Step env (p, w) (p', w')) :
    C w' ∧ Safe env C Q p' w' := by
  cases hs with
  | call answer => exact h _ _ answer

theorem Safe.reaches {Q : Except ε α → W → Prop} {p p' : Program Op Ans ε α} {w w' : W}
    (h : Safe env C Q p w) (hc : C w) (hr : Reaches env (p, w) (p', w')) :
    C w' ∧ Safe env C Q p' w' := by
  suffices aux : ∀ x, Reaches env (p, w) x → C x.2 ∧ Safe env C Q x.1 x.2 from aux _ hr
  intro x hx
  induction hx with
  | refl => exact ⟨hc, h⟩
  | tail _ hs ih => exact ih.2.step hs

/-- The crash condition survives a run that stops anywhere. -/
theorem Safe.crash {Q : Except ε α → W → Prop} {p p' : Program Op Ans ε α} {w w' : W}
    (h : Safe env C Q p w) (hc : C w) (hr : Reaches env (p, w) (p', w')) : C w' :=
  (h.reaches hc hr).1

theorem Safe.returns {Q : Except ε α → W → Prop} {p : Program Op Ans ε α} {a : α} {w w' : W}
    (h : Safe env C Q p w) (hc : C w) (hr : Reaches env (p, w) (.ret a, w')) : Q (.ok a) w' :=
  (h.reaches hc hr).2

theorem Safe.raises {Q : Except ε α → W → Prop} {p : Program Op Ans ε α} {e : ε} {w w' : W}
    (h : Safe env C Q p w) (hc : C w) (hr : Reaches env (p, w) (.raise e, w')) :
    Q (.error e) w' :=
  (h.reaches hc hr).2

theorem Safe.mono {C' : W → Prop} {Q Q' : Except ε α → W → Prop} {p : Program Op Ans ε α}
    {w : W} (h : Safe env C Q p w) (hC : ∀ w, C w → C' w) (hQ : ∀ r w, Q r w → Q' r w) :
    Safe env C' Q' p w := by
  induction p generalizing w with
  | ret a => exact hQ _ _ h
  | raise e => exact hQ _ _ h
  | call op k ih => exact fun a w' ha => ⟨hC _ (h a w' ha).1, ih a (h a w' ha).2⟩

/-- Two analyses of one program hold together. -/
theorem Safe.and {C' : W → Prop} {Q Q' : Except ε α → W → Prop} {p : Program Op Ans ε α} {w : W}
    (h : Safe env C Q p w) (h' : Safe env C' Q' p w) :
    Safe env (fun w => C w ∧ C' w) (fun r w => Q r w ∧ Q' r w) p w := by
  induction p generalizing w with
  | ret a => exact ⟨h, h'⟩
  | raise e => exact ⟨h, h'⟩
  | call op k ih =>
    intro a w' ha
    exact ⟨⟨(h a w' ha).1, (h' a w' ha).1⟩, ih a (h a w' ha).2 (h' a w' ha).2⟩

/-- A run whose answers satisfy `A` ends as the environment that allows just those answers. -/
theorem Safe.runs {A : Sigma Ans → Prop} {Q : Except ε α → W → Prop} {p : Program Op Ans ε α}
    {w : W} {t : List (Sigma Ans)} {r : Except ε α}
    (h : Safe (fun op w a w' => A ⟨op, a⟩ ∧ w' = w) C Q p w) (hr : Runs p t r)
    (ht : ∀ x ∈ t, A x) : Q r w := by
  induction hr with
  | ret a => exact h
  | raise e => exact h
  | call _ ih =>
    refine ih (h _ w ⟨ht _ List.mem_cons_self, rfl⟩).2 ?_
    exact fun x hx => ht x (List.mem_cons_of_mem _ hx)

/-- What the postcondition of a bind asks of its first part. -/
def andThen (env : (op : Op) → W → Ans op → W → Prop) (C : W → Prop)
    (Q : Except ε β → W → Prop) (f : α → Program Op Ans ε β) : Except ε α → W → Prop
  | .ok a, w => Safe env C Q (f a) w
  | .error e, w => Q (.error e) w

/-- What the postcondition of a handler asks of the guarded part. -/
def orElse (env : (op : Op) → W → Ans op → W → Prop) (C : W → Prop)
    (Q : Except ε α → W → Prop) (h : ε → Program Op Ans ε α) : Except ε α → W → Prop
  | .ok a, w => Q (.ok a) w
  | .error e, w => Safe env C Q (h e) w

@[simp] theorem andThen_ok {Q : Except ε β → W → Prop} {f : α → Program Op Ans ε β} {a : α}
    {w : W} : andThen env C Q f (.ok a) w ↔ Safe env C Q (f a) w := Iff.rfl

@[simp] theorem andThen_error {Q : Except ε β → W → Prop} {f : α → Program Op Ans ε β} {e : ε}
    {w : W} : andThen env C Q f (.error e) w ↔ Q (.error e) w := Iff.rfl

@[simp] theorem orElse_ok {Q : Except ε α → W → Prop} {h : ε → Program Op Ans ε α} {a : α}
    {w : W} : orElse env C Q h (.ok a) w ↔ Q (.ok a) w := Iff.rfl

@[simp] theorem orElse_error {Q : Except ε α → W → Prop} {h : ε → Program Op Ans ε α} {e : ε}
    {w : W} : orElse env C Q h (.error e) w ↔ Safe env C Q (h e) w := Iff.rfl

theorem safe_bind {Q : Except ε β → W → Prop} {p : Program Op Ans ε α}
    {f : α → Program Op Ans ε β} {w : W} :
    Safe env C Q (p >>= f) w ↔ Safe env C (andThen env C Q f) p w := by
  induction p generalizing w with
  | ret a => rfl
  | raise e => rfl
  | call op k ih =>
    simp only [call_bind, safe_call]
    exact forall_congr' fun a => forall_congr' fun w' => forall_congr' fun _ =>
      and_congr_right fun _ => ih a

theorem safe_outcome {Q : Except ε (Except ε α) → W → Prop} {p : Program Op Ans ε α} {w : W} :
    Safe env C Q p.outcome w ↔ Safe env C (fun r w => Q (.ok r) w) p w := by
  induction p generalizing w with
  | ret a => rfl
  | raise e => rfl
  | call op k ih =>
    exact forall_congr' fun a => forall_congr' fun w' => forall_congr' fun _ =>
      and_congr_right fun _ => ih a

theorem safe_tryCatch {Q : Except ε α → W → Prop} {p : Program Op Ans ε α}
    {h : ε → Program Op Ans ε α} {w : W} :
    Safe env C Q (tryCatch p h) w ↔ Safe env C (orElse env C Q h) p w := by
  change Safe env C Q (p.tryCatch h) w ↔ _
  induction p generalizing w with
  | ret a => rfl
  | raise e => rfl
  | call op k ih =>
    simp only [Program.tryCatch, safe_call]
    exact forall_congr' fun a => forall_congr' fun w' => forall_congr' fun _ =>
      and_congr_right fun _ => ih a

/-- A loop over a list keeps an invariant that each pass re-establishes. -/
theorem safe_forM {γ : Type} (I : List γ → W → Prop) {Q : Except ε PUnit → W → Prop}
    {body : γ → Program Op Ans ε PUnit} {l : List γ} {w : W} (h₀ : I l w)
    (hnil : ∀ w, I [] w → Q (.ok ⟨⟩) w)
    (hbody : ∀ x l w, I (x :: l) w → Safe env C (fun r w' => match r with
      | .ok _ => I l w'
      | .error e => Q (.error e) w') (body x) w) :
    Safe env C Q (l.forM body) w := by
  induction l generalizing w with
  | nil => exact hnil w h₀
  | cons x l ih =>
    change Safe env C Q (body x >>= fun _ => l.forM body) w
    rw [safe_bind]
    refine (hbody x l w h₀).mono (fun _ h => h) ?_
    rintro (e | a) w' hw
    · exact hw
    · exact ih hw

/-! ## Returning with a postcondition -/

/-- Every prefix of a run keeps `C`, and a return satisfies `P`; of an exception nothing is asked but
`C`. -/
def Returns (env : (op : Op) → W → Ans op → W → Prop) (C : W → Prop) (P : α → W → Prop)
    (p : Program Op Ans ε α) (w : W) : Prop :=
  Safe env C (fun r w' => match r with
    | .ok a => P a w'
    | .error _ => C w') p w

namespace Returns

variable {P P' : α → W → Prop} {R : β → W → Prop}

theorem ret {a : α} {w : W} (h : P a w) : Returns env C P (.ret a : Program Op Ans ε α) w := h

theorem raise {e : ε} {w : W} (h : C w) : Returns env C P (.raise e : Program Op Ans ε α) w := h

theorem mono {p : Program Op Ans ε α} {w : W} (h : Returns env C P p w)
    (hP : ∀ a w, P a w → P' a w) : Returns env C P' p w := by
  refine Safe.mono h (fun _ hc => hc) ?_
  intro r w' hr
  cases r with
  | error e => exact hr
  | ok a => exact hP a w' hr

/-- What the first part establishes on returning is all the second may use. -/
theorem bind {p : Program Op Ans ε α} {f : α → Program Op Ans ε β} {w : W}
    (hp : Returns env C P p w) (hf : ∀ a w', P a w' → Returns env C R (f a) w') :
    Returns env C R (p >>= f) w := by
  apply safe_bind.mpr
  refine Safe.mono hp (fun _ hc => hc) ?_
  intro r w' hr
  cases r with
  | error e => exact hr
  | ok a => exact hf a w' hr

/-- A pure part that may raise comes first. -/
theorem ofExcept_bind {x : Except ε α} {f : α → Program Op Ans ε β} {w : W} (hc : C w)
    (h : ∀ a, x = .ok a → Returns env C R (f a) w) : Returns env C R (ofExcept x >>= f) w := by
  cases x with
  | error e => exact hc
  | ok a => exact h a rfl

/-- A pure part that may raise comes last. -/
theorem ofExcept {x : Except ε α} {w : W} (hc : C w) (h : ∀ a, x = .ok a → P a w) :
    Returns env C P (MonadExcept.ofExcept x : Program Op Ans ε α) w := by
  cases x with
  | error e => exact hc
  | ok a => exact h a rfl

/-- A loop over a list, by an invariant of what is left of it. -/
theorem forM {γ : Type} (I : List γ → W → Prop) {body : γ → Program Op Ans ε PUnit} {l : List γ}
    {w : W} (h₀ : I l w)
    (hbody : ∀ x l w, I (x :: l) w → Returns env C (fun _ w' => I l w') (body x) w) :
    Returns env C (fun _ w' => I [] w') (l.forM body) w := by
  apply safe_forM I h₀
  · intro w' hw
    exact hw
  · intro x l w' hw
    refine Safe.mono (hbody x l w' hw) (fun _ hc => hc) ?_
    intro r w'' hr
    cases r with
    | error e => exact hr
    | ok a => exact hr

/-- A loop over a list whose passes each establish something that growing worlds keep. -/
theorem forM_each {γ : Type} (le : W → W → Prop) (hrefl : ∀ w, le w w)
    (htrans : ∀ a b c, le a b → le b c → le a c) {S : γ → W → Prop}
    (hmono : ∀ x w w', le w w' → S x w → S x w') {body : γ → Program Op Ans ε PUnit} {l : List γ}
    {w : W} (hw : C w)
    (hbody : ∀ x ∈ l, ∀ w, C w →
      Returns env C (fun _ w' => C w' ∧ le w w' ∧ S x w') (body x) w) :
    Returns env C (fun _ w' => C w' ∧ le w w' ∧ ∀ x ∈ l, S x w') (l.forM body) w := by
  induction l generalizing w with
  | nil => exact ⟨hw, hrefl w, List.forall_mem_nil _⟩
  | cons x l ih =>
    change Returns env C _ (body x >>= fun _ => l.forM body) w
    apply bind (hbody x List.mem_cons_self w hw)
    rintro _ w₁ ⟨hw₁, hle₁, hx⟩
    apply mono (ih hw₁ fun y hy => hbody y (List.mem_cons_of_mem _ hy))
    rintro _ w₂ ⟨hw₂, hle₂, hall⟩
    refine ⟨hw₂, htrans _ _ _ hle₁ hle₂, List.forall_mem_cons.mpr ⟨hmono x _ _ hle₂ hx, hall⟩⟩

/-- A traversal, by an invariant of what is left of the list and a relation of items to results that
every pass keeps. -/
theorem mapM {γ : Type} (I : List γ → W → Prop) (S : γ → β → W → Prop)
    {f : γ → Program Op Ans ε β} {l : List γ} {w : W} (h₀ : I l w)
    (hbody : ∀ x l w, I (x :: l) w → Returns env C (fun b w' => I l w' ∧ S x b w' ∧
      ∀ y c, S y c w → S y c w') (f x) w) :
    Returns env C (fun bs w' => I [] w' ∧ List.Forall₂ (fun x b => S x b w') l bs ∧
      ∀ y c, S y c w → S y c w') (l.mapM f) w := by
  induction l generalizing w with
  | nil =>
    rw [List.mapM_nil]
    exact ⟨h₀, .nil, fun _ _ h => h⟩
  | cons x l ih =>
    rw [List.mapM_cons]
    apply bind (hbody x l w h₀)
    rintro b w₁ ⟨h₁, hx, hkeep₁⟩
    apply bind (ih h₁)
    rintro bs w₂ ⟨h₂, hall, hkeep₂⟩
    exact ⟨h₂, .cons (hkeep₂ x b hx) hall, fun y c h => hkeep₂ y c (hkeep₁ y c h)⟩

/-- A fold over a list, by an invariant of what is left of it, what has been gathered and the world. -/
theorem foldlM {γ σ : Type} (I : List γ → σ → W → Prop) {body : σ → γ → Program Op Ans ε σ} {l : List γ}
    {st : σ} {w : W} (h₀ : I l st w)
    (hbody : ∀ x l st w, I (x :: l) st w → Returns env C (I l) (body st x) w) :
    Returns env C (I []) (l.foldlM body st) w := by
  induction l generalizing st w with
  | nil => exact h₀
  | cons x l ih =>
    rw [List.foldlM_cons]
    exact bind (hbody x l st w h₀) fun st' w' h => ih h

/-- Nothing is asked of the run. -/
theorem top (p : Program Op Ans ε α) (w : W) :
    Returns env (fun _ => True) (fun _ _ => True) p w := by
  induction p generalizing w with
  | ret a => exact trivial
  | raise e => exact trivial
  | call op k ih => exact fun a w' _ => ⟨trivial, ih a w'⟩

/-- When a return asks for no more than an exception does, both keep `C`. -/
theorem safe {p : Program Op Ans ε α} {w : W} (h : Returns env C (fun _ w => C w) p w) :
    Safe env C (fun _ w => C w) p w := by
  refine Safe.mono h (fun _ hc => hc) ?_
  intro r w' hr
  cases r with
  | error e => exact hr
  | ok a => exact hr

/-- A run that stops anywhere keeps `C`. -/
theorem crash {p p' : Program Op Ans ε α} {w w' : W} (h : Returns env C P p w) (hc : C w)
    (hr : Reaches env (p, w) (p', w')) : C w' :=
  Safe.crash h hc hr

end Returns

/-- What every operation that a program may ask keeps, the program keeps. -/
theorem Asks.safe {P : Op → Prop} {p : Program Op Ans ε α} (h : Asks P p)
    (hstep : ∀ op w a w', P op → C w → env op w a w' → C w') {w : W} (hc : C w) :
    Safe env C (fun _ w => C w) p w := by
  induction p generalizing w with
  | ret a => exact hc
  | raise e => exact hc
  | call op k ih =>
    intro a w' ha
    have hc' := hstep op w a w' h.1 hc ha
    exact ⟨hc', ih a (h.2 a) hc'⟩

/-! ## Recording a run -/

/-- The environment, with a record of what was asked and answered kept beside the world. -/
def recorded (env : (op : Op) → W → Ans op → W → Prop) (op : Op) (w : W × List (Sigma Ans))
    (a : Ans op) (w' : W × List (Sigma Ans)) : Prop :=
  env op w.1 a w'.1 ∧ w'.2 = w.2 ++ [⟨op, a⟩]

/-- The record alone: anything may be answered. -/
def recording (op : Op) (t : List (Sigma Ans)) (a : Ans op) (t' : List (Sigma Ans)) : Prop :=
  t' = t ++ [⟨op, a⟩]

theorem Reaches.world {p p' : Program Op Ans ε α} {w w' : W} {t t' : List (Sigma Ans)}
    (h : Reaches (recorded env) (p, w, t) (p', w', t')) : Reaches env (p, w) (p', w') := by
  refine Relation.ReflTransGen.lift (r := Step (recorded env))
    (fun c : Program Op Ans ε α × W × List (Sigma Ans) => (c.1, c.2.1)) ?_ _ _ h
  rintro a b ⟨hanswer, -⟩
  exact .call hanswer

theorem Reaches.record {p p' : Program Op Ans ε α} {w w' : W} {t t' : List (Sigma Ans)}
    (h : Reaches (recorded env) (p, w, t) (p', w', t')) : Reaches recording (p, t) (p', t') := by
  refine Relation.ReflTransGen.lift (r := Step (recorded env))
    (fun c : Program Op Ans ε α × W × List (Sigma Ans) => (c.1, c.2.2)) ?_ _ _ h
  rintro a b ⟨-, hrecord⟩
  exact .call hrecord

/-- A program that asks only `P` adds only `P` to the record. -/
theorem Asks.returns {P : Op → Prop} {p : Program Op Ans ε α} {t₀ t : List (Sigma Ans)}
    (h : Asks P p) (ht : ∃ t₁, t = t₀ ++ t₁ ∧ ∀ x ∈ t₁, P x.1) :
    Returns recording (fun t => ∃ t₁, t = t₀ ++ t₁ ∧ ∀ x ∈ t₁, P x.1)
      (fun _ t => ∃ t₁, t = t₀ ++ t₁ ∧ ∀ x ∈ t₁, P x.1) p t := by
  induction p generalizing t with
  | ret a => exact ht
  | raise e => exact ht
  | call op k ih =>
    rintro a t' rfl
    have ht' : ∃ t₁, t ++ [⟨op, a⟩] = t₀ ++ t₁ ∧ ∀ x ∈ t₁, P x.1 := by
      obtain ⟨t₁, rfl, hall⟩ := ht
      refine ⟨t₁ ++ [⟨op, a⟩], List.append_assoc _ _ _, List.forall_mem_append.mpr ⟨hall, ?_⟩⟩
      exact fun x hx => (List.mem_singleton.mp hx) ▸ h.1
    exact ⟨ht', ih a (h.2 a) ht'⟩

/-! ## Deterministic environments -/

/-- The run against an environment that is a function of the operation and the world. -/
def exec (handler : (op : Op) → W → Ans op × W) : Program Op Ans ε α → W → Except ε α × W
  | .ret a, w => (.ok a, w)
  | .raise e, w => (.error e, w)
  | .call op k, w => exec handler (k (handler op w).1) (handler op w).2

/-- The program that is left when a run has ended. -/
def ended : Except ε α → Program Op Ans ε α
  | .ok a => .ret a
  | .error e => .raise e

/-- A program that stops at some point stops there with what comes after it. -/
theorem reaches_bind_left {p p' : Program Op Ans ε α} {f : α → Program Op Ans ε β} {w w' : W}
    (h : Reaches env (p, w) (p', w')) : Reaches env (p >>= f, w) (p' >>= f, w') := by
  refine Relation.ReflTransGen.lift (r := Step env)
    (fun c : Program Op Ans ε α × W => (c.1 >>= f, c.2)) ?_ _ _ h
  rintro _ _ ⟨hanswer⟩
  exact .call hanswer

/-- A run to a value, continued. -/
theorem reaches_bind {p : Program Op Ans ε α} {f : α → Program Op Ans ε β} {a : α} {w w' : W}
    (h : Reaches env (p, w) (.ret a, w')) : Reaches env (p >>= f, w) (f a, w') :=
  reaches_bind_left h

/-- A run to a value does not come to the handler. -/
theorem reaches_tryCatch {p : Program Op Ans ε α} {f : ε → Program Op Ans ε α} {a : α} {w w' : W}
    (h : Reaches env (p, w) (.ret a, w')) :
    Reaches env (MonadExcept.tryCatch p f, w) (.ret a, w') := by
  refine Relation.ReflTransGen.lift (r := Step env)
    (fun c : Program Op Ans ε α × W => (MonadExcept.tryCatch c.1 f, c.2)) ?_ _ _ h
  rintro _ _ ⟨hanswer⟩
  exact .call hanswer

theorem reaches_exec {handler : (op : Op) → W → Ans op × W}
    (h : ∀ op w, env op w (handler op w).1 (handler op w).2) (p : Program Op Ans ε α) (w : W) :
    Reaches env (p, w) (ended (exec handler p w).1, (exec handler p w).2) := by
  induction p generalizing w with
  | ret a => exact .refl
  | raise e => exact .refl
  | call op k ih => exact .head (.call (h op w)) (ih _ _)

/-- The run leaves a trace, and every answer in it is the environment's. -/
theorem exists_runs_exec (handler : (op : Op) → W → Ans op × W) (p : Program Op Ans ε α) (w : W) :
    ∃ t, Runs p t (exec handler p w).1 ∧ ∀ x ∈ t, ∃ w', x.2 = (handler x.1 w').1 := by
  induction p generalizing w with
  | ret a => exact ⟨[], .ret a, List.forall_mem_nil _⟩
  | raise e => exact ⟨[], .raise e, List.forall_mem_nil _⟩
  | call op k ih =>
    obtain ⟨t, hrun, hanswers⟩ := ih (handler op w).1 (handler op w).2
    refine ⟨⟨op, (handler op w).1⟩ :: t, .call hrun, ?_⟩
    exact List.forall_mem_cons.mpr ⟨⟨w, rfl⟩, hanswers⟩

/-- The first operations of that run; nothing more happens once it has ended. -/
def advance (handler : (op : Op) → W → Ans op × W) :
    Nat → Program Op Ans ε α × W → Program Op Ans ε α × W
  | 0, c => c
  | _ + 1, (.ret a, w) => (.ret a, w)
  | _ + 1, (.raise e, w) => (.raise e, w)
  | n + 1, (.call op k, w) => advance handler n (k (handler op w).1, (handler op w).2)

theorem reaches_advance {handler : (op : Op) → W → Ans op × W}
    (h : ∀ op w, env op w (handler op w).1 (handler op w).2) (n : Nat)
    (c : Program Op Ans ε α × W) : Reaches env c (advance handler n c) := by
  induction n generalizing c with
  | zero => exact .refl
  | succ n ih =>
    obtain ⟨p, w⟩ := c
    cases p with
    | ret a => exact .refl
    | raise e => exact .refl
    | call op k => exact .head (.call (h op w)) (ih _)

/-- One operation more is a step, unless the run has ended. -/
theorem advance_succ {handler : (op : Op) → W → Ans op × W}
    (h : ∀ op w, env op w (handler op w).1 (handler op w).2) (n : Nat)
    (c : Program Op Ans ε α × W) :
    advance handler (n + 1) c = advance handler n c ∨
      Step env (advance handler n c) (advance handler (n + 1) c) := by
  induction n generalizing c with
  | zero =>
    obtain ⟨p, w⟩ := c
    cases p with
    | ret a => exact .inl rfl
    | raise e => exact .inl rfl
    | call op k => exact .inr (.call (h op w))
  | succ n ih =>
    obtain ⟨p, w⟩ := c
    cases p with
    | ret a => exact .inl rfl
    | raise e => exact .inl rfl
    | call op k => exact ih (k (handler op w).1, (handler op w).2)

@[simp] theorem exec_ret (handler : (op : Op) → W → Ans op × W) (a : α) (w : W) :
    exec handler (.ret a : Program Op Ans ε α) w = (.ok a, w) := rfl

@[simp] theorem exec_bind (handler : (op : Op) → W → Ans op × W) (p : Program Op Ans ε α)
    (f : α → Program Op Ans ε β) (w : W) :
    exec handler (p >>= f) w = match exec handler p w with
      | (.ok a, w') => exec handler (f a) w'
      | (.error e, w') => (.error e, w') := by
  induction p generalizing w with
  | ret a => rfl
  | raise e => rfl
  | call op k ih => exact ih _ _

theorem exec_bind_ok {handler : (op : Op) → W → Ans op × W} {p : Program Op Ans ε α} {a : α} {w w' : W}
    (h : exec handler p w = (.ok a, w')) (f : α → Program Op Ans ε β) :
    exec handler (p >>= f) w = exec handler (f a) w' := by
  rw [exec_bind, h]

@[simp] theorem exec_tryCatch (handler : (op : Op) → W → Ans op × W) (p : Program Op Ans ε α)
    (f : ε → Program Op Ans ε α) (w : W) :
    exec handler (tryCatch p f) w = match exec handler p w with
      | (.ok a, w') => (.ok a, w')
      | (.error e, w') => exec handler (f e) w' := by
  change exec handler (p.tryCatch f) w = _
  induction p generalizing w with
  | ret a => rfl
  | raise e => rfl
  | call op k ih => exact ih _ _

@[simp] theorem exec_ofExcept (handler : (op : Op) → W → Ans op × W) (x : Except ε α) (w : W) :
    exec handler (ofExcept x : Program Op Ans ε α) w = (x, w) := by
  cases x <;> rfl

theorem exec_forM_nil {γ : Type} (handler : (op : Op) → W → Ans op × W)
    (body : γ → Program Op Ans ε PUnit) (w : W) :
    exec handler ([].forM body) w = (.ok ⟨⟩, w) := rfl

theorem exec_forM_cons {γ : Type} {handler : (op : Op) → W → Ans op × W}
    {body : γ → Program Op Ans ε PUnit} {x : γ} {l : List γ} {w w' : W}
    (h : exec handler (body x) w = (.ok ⟨⟩, w')) :
    exec handler ((x :: l).forM body) w = exec handler (l.forM body) w' := by
  change exec handler (body x >>= fun _ => l.forM body) w = _
  exact exec_bind_ok h _

/-- A loop ends normally when each pass does, from every world that keeps an invariant. -/
theorem exec_forM {γ : Type} {handler : (op : Op) → W → Ans op × W} (I : W → Prop)
    {body : γ → Program Op Ans ε PUnit} {l : List γ}
    (hbody : ∀ x ∈ l, ∀ w, I w → ∃ w', exec handler (body x) w = (.ok ⟨⟩, w') ∧ I w') {w : W}
    (hw : I w) : ∃ w', exec handler (l.forM body) w = (.ok ⟨⟩, w') ∧ I w' := by
  induction l generalizing w with
  | nil => exact ⟨w, rfl, hw⟩
  | cons x l ih =>
    obtain ⟨w₁, hx, hw₁⟩ := hbody x (by simp) w hw
    obtain ⟨w₂, hl, hw₂⟩ := ih (fun y hy => hbody y (by simp [hy])) hw₁
    exact ⟨w₂, by rw [exec_forM_cons hx, hl], hw₂⟩

/-- A traversal whose parts leave the world alone returns their results. -/
theorem exec_mapM {γ : Type} {handler : (op : Op) → W → Ans op × W} {S : γ → β → Prop}
    {f : γ → Program Op Ans ε β} {l : List γ} {w : W}
    (h : ∀ x ∈ l, ∃ b, exec handler (f x) w = (.ok b, w) ∧ S x b) :
    ∃ bs, exec handler (l.mapM f) w = (.ok bs, w) ∧ List.Forall₂ S l bs := by
  induction l with
  | nil => exact ⟨[], rfl, .nil⟩
  | cons x l ih =>
    obtain ⟨b, hx, hb⟩ := h x List.mem_cons_self
    obtain ⟨bs, hl, hbs⟩ := ih fun y hy => h y (List.mem_cons_of_mem _ hy)
    refine ⟨b :: bs, ?_, .cons hb hbs⟩
    rw [List.mapM_cons, exec_bind, hx]
    simp only [exec_bind, hl, pure_eq, exec_ret]

/-! ## Running a program inside a larger effect signature -/

variable {Op' : Type} {Ans' : Op' → Type} {ε' : Type}

/-- Issue each operation through `emb`, read its answer back with `out`, and rename exceptions. -/
def lift (emb : Op → Op') (out : (op : Op) → Ans' (emb op) → Ans op) (err : ε → ε') :
    Program Op Ans ε α → Program Op' Ans' ε' α
  | .ret a => .ret a
  | .raise e => .raise (err e)
  | .call op k => .call (emb op) fun a => lift emb out err (k (out op a))

/-- A run of an embedded program is one of the program, its operations issued through `emb`; `back` reads
its answers as those of the larger signature. -/
theorem runs_lift_iff {emb : Op → Op'} {out : (op : Op) → Ans' (emb op) → Ans op} {err : ε → ε'}
    (back : (op : Op) → Ans op → Ans' (emb op)) (hback : ∀ op a, back op (out op a) = a)
    (hout : ∀ op a, out op (back op a) = a) {p : Program Op Ans ε α} {t' : List (Sigma Ans')}
    {r' : Except ε' α} :
    Runs (p.lift emb out err) t' r' ↔ ∃ t r, Runs p t r ∧ t' = t.map (fun x => ⟨emb x.1, back x.1 x.2⟩) ∧
      r' = r.mapError err := by
  induction p generalizing t' with
  | ret a =>
    rw [lift, runs_ret_iff]
    constructor
    · rintro ⟨rfl, rfl⟩
      exact ⟨[], _, .ret a, rfl, rfl⟩
    · rintro ⟨t, r, hrun, rfl, rfl⟩
      obtain ⟨rfl, rfl⟩ := runs_ret_iff.mp hrun
      exact ⟨rfl, rfl⟩
  | raise e =>
    rw [lift, runs_raise_iff]
    constructor
    · rintro ⟨rfl, rfl⟩
      exact ⟨[], _, .raise e, rfl, rfl⟩
    · rintro ⟨t, r, hrun, rfl, rfl⟩
      obtain ⟨rfl, rfl⟩ := runs_raise_iff.mp hrun
      exact ⟨rfl, rfl⟩
  | call op k ih =>
    rw [lift, runs_call_iff]
    constructor
    · rintro ⟨a, t', rfl, hrest⟩
      obtain ⟨t, r, hrun, rfl, rfl⟩ := (ih (out op a)).mp hrest
      refine ⟨⟨op, out op a⟩ :: t, r, .call hrun, ?_, rfl⟩
      rw [List.map_cons, hback]
    · rintro ⟨t, r, hrun, rfl, rfl⟩
      obtain ⟨a, t, rfl, hrest⟩ := runs_call_iff.mp hrun
      refine ⟨back op a, _, rfl, ?_⟩
      rw [hout]
      exact (ih a).mpr ⟨t, r, hrest, rfl, rfl⟩

theorem Asks.lift {emb : Op → Op'} {out : (op : Op) → Ans' (emb op) → Ans op} {err : ε → ε'}
    {P : Op → Prop} {P' : Op' → Prop} (hP : ∀ op, P op → P' (emb op)) {p : Program Op Ans ε α}
    (h : Asks P p) : Asks P' (p.lift emb out err) := by
  induction p with
  | ret a => trivial
  | raise e => trivial
  | call op k ih => exact ⟨hP op h.1, fun a => ih (out op a) (h.2 (out op a))⟩

/-- An embedded program runs as it does alone when its operations leave the world alone. -/
theorem exec_lift {emb : Op → Op'} {out : (op : Op) → Ans' (emb op) → Ans op} {err : ε → ε'}
    {handler : (op : Op') → W → Ans' op × W} {answer : (op : Op) → Ans op} {w : W}
    (h : ∀ op, out op (handler (emb op) w).1 = answer op ∧ (handler (emb op) w).2 = w)
    (p : Program Op Ans ε α) :
    exec handler (p.lift emb out err) w = ((answeredBy answer p).mapError err, w) := by
  induction p with
  | ret a => rfl
  | raise e => rfl
  | call op k ih =>
    rw [lift, exec, (h op).1, (h op).2, ih]
    rfl

/-- An embedded program whose operations leave the world alone only contributes its result: it is
enough to treat every run whose answers the environment allows. -/
theorem safe_lift {emb : Op → Op'} {out : (op : Op) → Ans' (emb op) → Ans op} {err : ε → ε'}
    {env : (op : Op') → W → Ans' op → W → Prop} {Q : Except ε' α → W → Prop}
    (allowed : Sigma Ans → Prop) {p : Program Op Ans ε α} {w : W} (hc : C w)
    (hstep : ∀ op a w', env (emb op) w a w' → w' = w ∧ allowed ⟨op, out op a⟩)
    (hrun : ∀ t r, Runs p t r → (∀ x ∈ t, allowed x) → Q (r.mapError err) w) :
    Safe env C Q (p.lift emb out err) w := by
  induction p with
  | ret a => exact hrun [] _ (.ret a) (by simp)
  | raise e => exact hrun [] _ (.raise e) (by simp)
  | call op k ih =>
    intro a w' ha
    obtain ⟨rfl, hallow⟩ := hstep op a w' ha
    refine ⟨hc, ih (out op a) fun t r hr ht => hrun (⟨op, out op a⟩ :: t) r (.call hr) ?_⟩
    intro x hx
    rcases List.mem_cons.mp hx with rfl | hx
    · exact hallow
    · exact ht x hx

/-- On the part of the world that its operations touch, an embedded program runs as it does alone. -/
theorem safe_lift_view {V : Type} {emb : Op → Op'} {out : (op : Op) → Ans' (emb op) → Ans op} {err : ε → ε'}
    {env : (op : Op') → W → Ans' op → W → Prop} {env₀ : (op : Op) → V → Ans op → V → Prop} (view : W → V)
    {I : W → Prop}
    (hstep : ∀ op w a w', I w → env (emb op) w a w' → env₀ op (view w) (out op a) (view w') ∧ I w')
    {p : Program Op Ans ε α} {w : W} (hw : I w) :
    Safe env (fun w' => I w' ∧ ∃ p', Reaches env₀ (p, view w) (p', view w'))
      (fun r w' => I w' ∧ ∃ r', r = r'.mapError err ∧ Reaches env₀ (p, view w) (ended r', view w'))
      (p.lift emb out err) w := by
  suffices aux : ∀ q w', I w' → Reaches env₀ (p, view w) (q, view w') →
      Safe env (fun w' => I w' ∧ ∃ p', Reaches env₀ (p, view w) (p', view w'))
        (fun r w' => I w' ∧ ∃ r', r = r'.mapError err ∧ Reaches env₀ (p, view w) (ended r', view w'))
        (q.lift emb out err) w' from aux p w hw .refl
  intro q
  induction q with
  | ret a => exact fun w' hw' hreach => ⟨hw', .ok a, rfl, hreach⟩
  | raise e => exact fun w' hw' hreach => ⟨hw', .error e, rfl, hreach⟩
  | call op k ih =>
    intro w' hw' hreach a w'' ha
    obtain ⟨hanswer, hw''⟩ := hstep op w' a w'' hw' ha
    have hnext := hreach.tail (.call hanswer)
    exact ⟨⟨hw'', _, hnext⟩, ih (out op a) w'' hw'' hnext⟩

/-- A run of a program is one of the embedded program, in the part of the world that `put` places. -/
theorem reaches_lift {V : Type} {emb : Op → Op'} {out : (op : Op) → Ans' (emb op) → Ans op} {err : ε → ε'}
    {env₀ : (op : Op) → V → Ans op → V → Prop} {env : (op : Op') → W → Ans' op → W → Prop} (put : V → W)
    (hstep : ∀ op v a v', env₀ op v a v' → ∃ a', out op a' = a ∧ env (emb op) (put v) a' (put v'))
    {p p' : Program Op Ans ε α} {v v' : V} (h : Reaches env₀ (p, v) (p', v')) :
    Reaches env (p.lift emb out err, put v) (p'.lift emb out err, put v') := by
  refine Relation.ReflTransGen.lift (r := Step env₀)
    (fun c : Program Op Ans ε α × V => (c.1.lift emb out err, put c.2)) ?_ _ _ h
  rintro _ _ ⟨hanswer⟩
  obtain ⟨a', rfl, hanswer'⟩ := hstep _ _ _ _ hanswer
  exact .call hanswer'

/-- An embedded program whose operations only extend a record ends with the record of one of its runs. -/
theorem safe_lift_record {emb : Op → Op'} {out : (op : Op) → Ans' (emb op) → Ans op} {err : ε → ε'}
    {env : (op : Op') → W → Ans' op → W → Prop} {Q : Except ε' α → W → Prop}
    (record : List (Sigma Ans) → W)
    (hstep : ∀ t op a w', env (emb op) (record t) a w' → w' = record (t ++ [⟨op, out op a⟩]) ∧ C w')
    {p : Program Op Ans ε α} {t : List (Sigma Ans)}
    (hrun : ∀ t' r, Runs p t' r → Q (r.mapError err) (record (t ++ t'))) :
    Safe env C Q (p.lift emb out err) (record t) := by
  induction p generalizing t with
  | ret a =>
    have hend := hrun [] _ (.ret a)
    rwa [List.append_nil] at hend
  | raise e =>
    have hend := hrun [] _ (.raise e)
    rwa [List.append_nil] at hend
  | call op k ih =>
    intro a w' ha
    obtain ⟨rfl, hc⟩ := hstep t op a w' ha
    refine ⟨hc, ih (out op a) fun t' r hr => ?_⟩
    rw [List.append_assoc]
    exact hrun _ r (.call hr)

end Program

end RpcStateIndexer.Reasoning
