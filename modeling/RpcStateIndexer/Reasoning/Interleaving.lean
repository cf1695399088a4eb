import Mathlib.Logic.Function.Basic
import RpcStateIndexer.Reasoning.Program

/-!
# Parties over one world

Any number of parties run programs over one shared world, one operation at a time and in any order;
the world also moves by itself.  Each party has a stage, a ghost value that its own operations and
their answers move.  An invariant of the stages and the world that every single operation preserves
holds in every state that a run passes through, and no proof looks into a program twice.
-/

namespace RpcStateIndexer.Reasoning

open Program

variable {P W σ ε α : Type} [DecidableEq P] {Op : Type} {Ans : Op → Type}

structure Parties (P : Type) (Op : Type) (Ans : Op → Type) (ε α σ W : Type) where
  program : P → Program Op Ans ε α
  stage : P → σ
  world : W

namespace Parties

/-- One operation of one party, or a move of the world itself. -/
inductive Step (env : P → (op : Op) → W → Ans op → W → Prop)
    (move : P → σ → (op : Op) → Ans op → σ) (ambient : W → W → Prop) :
    Parties P Op Ans ε α σ W → Parties P Op Ans ε α σ W → Prop
  | ambient {s : Parties P Op Ans ε α σ W} {w : W} (h : ambient s.world w) :
    Step env move ambient s { s with world := w }
  | party {s : Parties P Op Ans ε α σ W} (p : P) {op : Op} {k : Ans op → Program Op Ans ε α}
    {a : Ans op} {w : W} (hop : s.program p = .call op k) (answer : env p op s.world a w) :
    Step env move ambient s
      { program := Function.update s.program p (k a)
        stage := Function.update s.stage p (move p (s.stage p) op a)
        world := w }

/-- Runs whose steps are all taken where the assumption `A` holds. -/
abbrev Run (A : (P → σ) → W → Prop) (env : P → (op : Op) → W → Ans op → W → Prop)
    (move : P → σ → (op : Op) → Ans op → σ) (ambient : W → W → Prop) :
    Parties P Op Ans ε α σ W → Parties P Op Ans ε α σ W → Prop :=
  Relation.ReflTransGen fun s s' => A s.stage s.world ∧ Step env move ambient s s'

/-- The operations of a program as moves of a stage. -/
def staged (move : σ → (op : Op) → Ans op → σ) (op : Op) (stage : σ) (a : Ans op) (stage' : σ) :
    Prop :=
  stage' = move stage op a

variable {env : P → (op : Op) → W → Ans op → W → Prop} {move : P → σ → (op : Op) → Ans op → σ}
  {ambient : W → W → Prop} {A I : (P → σ) → W → Prop} {C : P → σ → Prop}
  {Q : P → Except ε α → σ → Prop}

/-- Every party keeps to its stages, from the one it is at, and ends at a stage that fits its end. -/
def Keeps (move : P → σ → (op : Op) → Ans op → σ) (C : P → σ → Prop)
    (Q : P → Except ε α → σ → Prop) (s : Parties P Op Ans ε α σ W) : Prop :=
  ∀ p, C p (s.stage p) ∧ Safe (staged (move p)) (C p) (Q p) (s.program p) (s.stage p)

theorem Keeps.step {s s' : Parties P Op Ans ε α σ W} (h : Keeps move C Q s)
    (hstep : Step env move ambient s s') : Keeps move C Q s' := by
  cases hstep with
  | ambient _ => exact h
  | party p hop answer =>
    intro q
    by_cases hq : q = p
    · subst hq
      simp only [Function.update_self]
      have hsafe := (h q).2
      rw [hop] at hsafe
      exact hsafe _ _ rfl
    · simp only [Function.update_of_ne hq]
      exact h q

omit [DecidableEq P] in
/-- A party that has returned did so at a stage that fits its result. -/
theorem Keeps.returned {s : Parties P Op Ans ε α σ W} (h : Keeps move C Q s) {p : P} {a : α}
    (hp : s.program p = .ret a) : Q p (.ok a) (s.stage p) := by
  have hsafe := (h p).2
  rw [hp] at hsafe
  exact hsafe

/-- The stages a party may be at bound what its next operation can do to an invariant. -/
theorem invariant_step (hambient : ∀ stage w w', A stage w → I stage w → ambient w w' → I stage w')
    (hparty : ∀ stage w p op a w', A stage w → I stage w → C p (stage p) →
      C p (move p (stage p) op a) → env p op w a w' →
      I (Function.update stage p (move p (stage p) op a)) w')
    {s s' : Parties P Op Ans ε α σ W} (hkeeps : Keeps move C Q s) (hA : A s.stage s.world)
    (hI : I s.stage s.world) (hstep : Step env move ambient s s') : I s'.stage s'.world := by
  cases hstep with
  | ambient h => exact hambient _ _ _ hA hI h
  | party p hop answer =>
    have hsafe := (hkeeps p).2
    rw [hop] at hsafe
    exact hparty _ _ p _ _ _ hA hI (hkeeps p).1 (hsafe _ _ rfl).1 answer

/-- What every operation preserves holds along every run. -/
theorem invariant_run (hambient : ∀ stage w w', A stage w → I stage w → ambient w w' → I stage w')
    (hparty : ∀ stage w p op a w', A stage w → I stage w → C p (stage p) →
      C p (move p (stage p) op a) → env p op w a w' →
      I (Function.update stage p (move p (stage p) op a)) w')
    {s s' : Parties P Op Ans ε α σ W} (hkeeps : Keeps move C Q s) (hI : I s.stage s.world)
    (hrun : Run A env move ambient s s') : Keeps move C Q s' ∧ I s'.stage s'.world := by
  induction hrun with
  | refl => exact ⟨hkeeps, hI⟩
  | tail _ hlast ih =>
    exact ⟨ih.1.step hlast.2, invariant_step hambient hparty ih.1 hlast.1 ih.2 hlast.2⟩

/-- A party may run alone; the others stay where they are. -/
theorem run_of_reaches (hA : ∀ stage w, A stage w) {s : Parties P Op Ans ε α σ W} (p : P)
    {rest : Program Op Ans ε α} {w : W}
    (h : Reaches (env p) (s.program p, s.world) (rest, w)) :
    ∃ s', Run A env move ambient s s' ∧ s'.program p = rest ∧ s'.world = w ∧
      ∀ q, q ≠ p → s'.program q = s.program q := by
  suffices aux : ∀ c : Program Op Ans ε α × W, Reaches (env p) (s.program p, s.world) c →
      ∃ s', Run A env move ambient s s' ∧ s'.program p = c.1 ∧ s'.world = c.2 ∧
        ∀ q, q ≠ p → s'.program q = s.program q from aux _ h
  intro c hc
  induction hc with
  | refl => exact ⟨s, .refl, rfl, rfl, fun _ _ => rfl⟩
  | tail _ hlast ih =>
    obtain ⟨s', hrun, hprogram, hworld, hothers⟩ := ih
    cases hlast with
    | call answer =>
      subst hworld
      refine ⟨_, hrun.tail ⟨hA _ _, .party p hprogram answer⟩, Function.update_self .., rfl, ?_⟩
      intro q hq
      rw [← hothers q hq]
      exact Function.update_of_ne hq ..

end Parties

end RpcStateIndexer.Reasoning
