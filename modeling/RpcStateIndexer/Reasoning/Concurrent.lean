import RpcStateIndexer.Reasoning.Program

/-!
# Programs that run at the same time

`both` runs two programs to their ends and lets the environment choose, operation by operation, which
of them moves; `gather` does so with a list.  A task group bounds how many of its tasks have started,
keeps the result of each task at the task's own place, and gives up at the first exception.  Whatever
the order, a part that returned has a run of its own inside the run of the whole.
-/

namespace RpcStateIndexer.Reasoning

namespace Program

variable {Op : Type} {Ans : Op → Type} {ε α β γ : Type}

/-! ## Two programs, and any number -/

section Gather

variable (turn : Op) (left : Ans turn → Bool)

/-- The first program is about to issue `op`; `next` is what runs once it has its answer. -/
def bothCall (op : Op) (next : Ans op → Program Op Ans ε β → Program Op Ans ε (α × β)) :
    Program Op Ans ε β → Program Op Ans ε (α × β)
  | .ret b => .call op fun a => next a (.ret b)
  | .raise e => .raise e
  | .call op' k => .call turn fun c =>
      if left c then .call op fun a => next a (.call op' k)
      else .call op' fun a => bothCall op next (k a)

/-- Both programs; an exception of either ends the whole. -/
def both : Program Op Ans ε α → Program Op Ans ε β → Program Op Ans ε (α × β)
  | .ret a, q => q >>= fun b => .ret (a, b)
  | .raise e, _ => .raise e
  | .call op k, q => bothCall turn left op (fun a => both (k a)) q

/-- The results of all programs, in the order of the list. -/
def gather : List (Program Op Ans ε α) → Program Op Ans ε (List α)
  | [] => .ret []
  | p :: ps => both turn left p (gather ps) >>= fun (a, as) => .ret (a :: as)

variable {turn left}

/-- What a run of two programs says of each: a part that returned, or the one that raised, has a run
whose operations stand in their own order among those of the whole. -/
def HoldsParts (p : Program Op Ans ε α) (q : Program Op Ans ε β) (t : List (Sigma Ans)) :
    Except ε (α × β) → Prop
  | .ok (x, y) => ∃ t₁ t₂, t₁.Sublist t ∧ t₂.Sublist t ∧ Runs p t₁ (.ok x) ∧ Runs q t₂ (.ok y)
  | .error e => ∃ t', t'.Sublist t ∧ (Runs p t' (.error e) ∨ Runs q t' (.error e))

namespace HoldsParts

variable {p : Program Op Ans ε α} {q : Program Op Ans ε β} {t : List (Sigma Ans)}
  {r : Except ε (α × β)}

theorem skip (h : HoldsParts p q t r) (x : Sigma Ans) : HoldsParts p q (x :: t) r := by
  match r, h with
  | .ok (_, _), ⟨t₁, t₂, hsub₁, hsub₂, hruns⟩ => exact ⟨t₁, t₂, hsub₁.cons x, hsub₂.cons x, hruns⟩
  | .error _, ⟨t', hsub, hruns⟩ => exact ⟨t', hsub.cons x, hruns⟩

theorem first {op : Op} {k : Ans op → Program Op Ans ε α} {a : Ans op}
    (h : HoldsParts (k a) q t r) : HoldsParts (.call op k) q (⟨op, a⟩ :: t) r := by
  match r, h with
  | .ok (_, _), ⟨_, t₂, hsub₁, hsub₂, hrun₁, hrun₂⟩ =>
    exact ⟨_, t₂, hsub₁.cons_cons _, hsub₂.cons _, .call hrun₁, hrun₂⟩
  | .error _, ⟨_, hsub, .inl hrun⟩ => exact ⟨_, hsub.cons_cons _, .inl (.call hrun)⟩
  | .error _, ⟨t', hsub, .inr hrun⟩ => exact ⟨t', hsub.cons _, .inr hrun⟩

theorem second {op : Op} {k : Ans op → Program Op Ans ε β} {a : Ans op}
    (h : HoldsParts p (k a) t r) : HoldsParts p (.call op k) (⟨op, a⟩ :: t) r := by
  match r, h with
  | .ok (_, _), ⟨t₁, _, hsub₁, hsub₂, hrun₁, hrun₂⟩ =>
    exact ⟨t₁, _, hsub₁.cons _, hsub₂.cons_cons _, hrun₁, .call hrun₂⟩
  | .error _, ⟨t', hsub, .inl hrun⟩ => exact ⟨t', hsub.cons _, .inl hrun⟩
  | .error _, ⟨_, hsub, .inr hrun⟩ => exact ⟨_, hsub.cons_cons _, .inr (.call hrun)⟩

end HoldsParts

theorem runs_bothCall {op : Op} {k : Ans op → Program Op Ans ε α} {q : Program Op Ans ε β}
    {t : List (Sigma Ans)} {r : Except ε (α × β)}
    (ih : ∀ (a : Ans op) (q : Program Op Ans ε β) (t : List (Sigma Ans)),
      Runs (both turn left (k a) q) t r → HoldsParts (k a) q t r)
    (h : Runs (bothCall turn left op (fun a => both turn left (k a)) q) t r) :
    HoldsParts (.call op k) q t r := by
  induction q generalizing t with
  | ret b =>
    obtain ⟨a, t', rfl, hrest⟩ := runs_call_iff.mp h
    exact (ih a _ t' hrest).first
  | raise e =>
    obtain ⟨rfl, rfl⟩ := runs_raise_iff.mp h
    exact ⟨[], List.nil_sublist _, .inr (.raise e)⟩
  | call op' k' ihq =>
    obtain ⟨c, t', rfl, hrest⟩ := runs_call_iff.mp h
    by_cases hc : left c = true
    · rw [if_pos hc] at hrest
      obtain ⟨a, t'', rfl, hmoved⟩ := runs_call_iff.mp hrest
      exact (ih a _ t'' hmoved).first.skip _
    · rw [if_neg hc] at hrest
      obtain ⟨a, t'', rfl, hmoved⟩ := runs_call_iff.mp hrest
      exact (ihq a hmoved).second.skip _

theorem runs_both {p : Program Op Ans ε α} {q : Program Op Ans ε β} {t : List (Sigma Ans)}
    {r : Except ε (α × β)} (h : Runs (both turn left p q) t r) : HoldsParts p q t r := by
  induction p generalizing q t with
  | ret a =>
    rcases runs_bind_iff.mp h with ⟨b, t₁, t₂, rfl, h₁, h₂⟩ | ⟨e, h₁, rfl⟩
    · obtain ⟨rfl, rfl⟩ := runs_ret_iff.mp h₂
      exact ⟨[], t₁, List.nil_sublist _, List.sublist_append_left _ _, .ret a, h₁⟩
    · exact ⟨t, List.Sublist.refl t, .inr h₁⟩
  | raise e =>
    obtain ⟨rfl, rfl⟩ := runs_raise_iff.mp h
    exact ⟨[], List.nil_sublist _, .inl (.raise e)⟩
  | call op k ih => exact runs_bothCall (fun a q t hrun => ih a hrun) h

/-- A gathering that returns holds a run of each of its programs. -/
theorem runs_gather_ok {ps : List (Program Op Ans ε α)} {t : List (Sigma Ans)} {values : List α}
    (h : Runs (gather turn left ps) t (.ok values)) :
    List.Forall₂ (fun p a => ∃ t', t'.Sublist t ∧ Runs p t' (.ok a)) ps values := by
  induction ps generalizing t values with
  | nil =>
    obtain ⟨-, hvalues⟩ := runs_ret_iff.mp h
    rw [Except.ok.inj hvalues]
    exact .nil
  | cons p ps ih =>
    obtain ⟨⟨a, as⟩, t₁, t₂, rfl, h₁, h₂⟩ := runs_bind_ok_iff.mp h
    obtain ⟨-, hvalues⟩ := runs_ret_iff.mp h₂
    rw [Except.ok.inj hvalues]
    obtain ⟨ta, tas, hsuba, hsubas, hruna, hrunas⟩ := runs_both h₁
    refine .cons ⟨ta, hsuba.trans (List.sublist_append_left _ _), hruna⟩ ?_
    refine List.Forall₂.imp ?_ (ih hrunas)
    rintro p b ⟨t', hsub, hrun⟩
    exact ⟨t', (hsub.trans hsubas).trans (List.sublist_append_left _ _), hrun⟩

/-- A gathering that raises holds a run of one of its programs that raises. -/
theorem runs_gather_error {ps : List (Program Op Ans ε α)} {t : List (Sigma Ans)} {e : ε}
    (h : Runs (gather turn left ps) t (.error e)) :
    ∃ p ∈ ps, ∃ t', t'.Sublist t ∧ Runs p t' (.error e) := by
  induction ps generalizing t with
  | nil => exact absurd (runs_ret_iff.mp h).2 nofun
  | cons p ps ih =>
    rcases runs_bind_iff.mp h with ⟨⟨a, as⟩, t₁, t₂, rfl, -, h₂⟩ | ⟨e', h₁, herror⟩
    · exact absurd (runs_ret_iff.mp h₂).2 nofun
    · obtain rfl := Except.error.inj herror
      obtain ⟨t', hsub, hrun | hrun⟩ := runs_both h₁
      · exact ⟨p, List.mem_cons_self, t', hsub, hrun⟩
      · obtain ⟨q, hq, t'', hsub', hrun'⟩ := ih hrun
        exact ⟨q, List.mem_cons_of_mem _ hq, t'', hsub'.trans hsub, hrun'⟩

/-- Two programs together ask what either asks, and whose turn it is. -/
theorem Asks.both {P : Op → Prop} {p : Program Op Ans ε α} {q : Program Op Ans ε β} (hturn : P turn)
    (hp : Asks P p) (hq : Asks P q) : Asks P (both turn left p q) := by
  induction p generalizing q with
  | ret a => exact hq.bind fun _ => trivial
  | raise e => trivial
  | call op k ih =>
    show Asks P (bothCall turn left op _ q)
    induction q with
    | ret b => exact ⟨hp.1, fun a => ih a (hp.2 a) hq⟩
    | raise e => trivial
    | call op' k' ihq =>
      refine ⟨hturn, fun c => ?_⟩
      by_cases hc : left c = true
      · simp only [hc, if_true]
        exact ⟨hp.1, fun a => ih a (hp.2 a) hq⟩
      · simp only [hc]
        exact ⟨hq.1, fun a => ihq a (hq.2 a)⟩

theorem Asks.gather {P : Op → Prop} {ps : List (Program Op Ans ε α)} (hturn : P turn)
    (hps : ∀ p ∈ ps, Asks P p) : Asks P (gather turn left ps) := by
  induction ps with
  | nil => trivial
  | cons p ps ih =>
    obtain ⟨hp, hrest⟩ := List.forall_mem_cons.mp hps
    exact (Asks.both hturn hp (ih hrest)).bind fun _ => trivial

/-- The program raises nothing before it asks. -/
def Starts : Program Op Ans ε α → Prop
  | .raise _ => False
  | _ => True

theorem Starts.bind {p : Program Op Ans ε α} {f : α → Program Op Ans ε β} (hp : p.Starts)
    (hf : ∀ a, (f a).Starts) : (p >>= f).Starts :=
  match p, hp with
  | .ret a, _ => hf a
  | .call _ _, _ => trivial

theorem Starts.both {p : Program Op Ans ε α} {q : Program Op Ans ε β} (hp : p.Starts) (hq : q.Starts) :
    (both turn left p q).Starts :=
  match p, q, hp, hq with
  | .ret _, _, _, hq => hq.bind fun _ => trivial
  | .call _ _, .ret _, _, _ => trivial
  | .call _ _, .call _ _, _, _ => trivial

/-- Where the first program always moves, it runs to its end before the second. -/
theorem answeredBy_both {env : (op : Op) → Ans op} (hleft : left (env turn) = true)
    (p : Program Op Ans ε α) {q : Program Op Ans ε β} (hq : q.Starts) :
    answeredBy env (both turn left p q) =
      (answeredBy env p >>= fun a => answeredBy env q >>= fun b => .ok (a, b)) := by
  induction p with
  | ret a => exact answeredBy_bind env q _
  | raise e => rfl
  | call op k ih =>
    cases q with
    | ret b => exact ih (env op)
    | raise e => exact hq.elim
    | call op' k' =>
      -- Both are waiting, and the turn goes to the first.
      show answeredBy env (if left (env turn) then _ else _) = _
      rw [if_pos hleft]
      exact ih (env op)

theorem answeredBy_gather {env : (op : Op) → Ans op} (hleft : left (env turn) = true)
    {ps : List (Program Op Ans ε α)} (hps : ∀ p ∈ ps, p.Starts) :
    answeredBy env (gather turn left ps) = ps.mapM (answeredBy env) ∧ (gather turn left ps).Starts := by
  induction ps with
  | nil => exact ⟨rfl, trivial⟩
  | cons p ps ih =>
    obtain ⟨hp, hrest⟩ := List.forall_mem_cons.mp hps
    obtain ⟨hanswered, hstarts⟩ := ih hrest
    refine ⟨?_, (hp.both hstarts).bind fun _ => trivial⟩
    rw [gather, answeredBy_bind, answeredBy_both hleft p hstarts, hanswered, List.mapM_cons]
    cases answeredBy env p with
    | error e => rfl
    | ok a => cases ps.mapM (answeredBy env) <;> rfl

end Gather

/-! ## Task groups -/

/-- A task of a group: it waits for a permit, runs, or has stored its result. -/
inductive Task (Op : Type) (Ans : Op → Type) (ε α : Type) : Type where
  | waiting (p : Program Op Ans ε α)
  | running (p : Program Op Ans ε α)
  | finished (a : α)

namespace Task

def isRunning : Task Op Ans ε α → Bool
  | .running _ => true
  | _ => false

/-- The task may still end in `a` after the operations `t`. -/
def Ends (task : Task Op Ans ε α) (t : List (Sigma Ans)) (a : α) : Prop :=
  match task with
  | .waiting p => Runs p t (.ok a)
  | .running p => Runs p t (.ok a)
  | .finished b => t = [] ∧ b = a

end Task

/-- Runs of a group with `permits` permits.  The first exception cancels the tasks that are left. -/
inductive GroupRuns (permits : Nat) :
    List (Task Op Ans ε α) → List (Sigma Ans) → Except ε (List α) → Prop where
  | done (values : List α) : GroupRuns permits (values.map .finished) [] (.ok values)
  | start {before after : List (Task Op Ans ε α)} {p : Program Op Ans ε α} {t : List (Sigma Ans)}
      {r : Except ε (List α)} (permit : (before ++ after).countP Task.isRunning < permits)
      (rest : GroupRuns permits (before ++ .running p :: after) t r) :
      GroupRuns permits (before ++ .waiting p :: after) t r
  | call {before after : List (Task Op Ans ε α)} {op : Op} {k : Ans op → Program Op Ans ε α}
      {a : Ans op} {t : List (Sigma Ans)} {r : Except ε (List α)}
      (rest : GroupRuns permits (before ++ .running (k a) :: after) t r) :
      GroupRuns permits (before ++ .running (.call op k) :: after) (⟨op, a⟩ :: t) r
  | finish {before after : List (Task Op Ans ε α)} {a : α} {t : List (Sigma Ans)}
      {r : Except ε (List α)} (rest : GroupRuns permits (before ++ .finished a :: after) t r) :
      GroupRuns permits (before ++ .running (.ret a) :: after) t r
  | fail {before after : List (Task Op Ans ε α)} {e : ε} :
      GroupRuns permits (before ++ .running (.raise e) :: after) [] (.error e)

theorem forall₂_replace {γ δ : Type} {R R' : γ → δ → Prop} {before after : List γ} {x x' : γ}
    {l : List δ} (h : List.Forall₂ R (before ++ x :: after) l) (hother : ∀ c d, R c d → R' c d)
    (hx : ∀ d, R x d → R' x' d) : List.Forall₂ R' (before ++ x' :: after) l := by
  induction before generalizing l with
  | nil =>
    cases h with
    | cons hfirst hrest => exact .cons (hx _ hfirst) (hrest.imp fun c d => hother c d)
  | cons y before ih =>
    cases h with
    | cons hfirst hrest => exact .cons (hother _ _ hfirst) (ih hrest)

/-- A group that returns holds a run of each of its tasks, whatever the order in which they ended. -/
theorem groupRuns_ok {permits : Nat} {tasks : List (Task Op Ans ε α)} {t : List (Sigma Ans)}
    {r : Except ε (List α)} (h : GroupRuns permits tasks t r) {values : List α}
    (hr : r = .ok values) :
    List.Forall₂ (fun task a => ∃ t', t'.Sublist t ∧ task.Ends t' a) tasks values := by
  induction h generalizing values with
  | done values' =>
    obtain rfl := Except.ok.inj hr
    rw [List.forall₂_map_left_iff, List.forall₂_same]
    exact fun a _ => ⟨[], List.Sublist.refl _, rfl, rfl⟩
  | start _ _ ih => exact forall₂_replace (ih hr) (fun _ _ h => h) fun _ h => h
  | call _ ih =>
    refine forall₂_replace (ih hr) ?_ ?_
    · rintro task a ⟨t', hsub, hends⟩
      exact ⟨t', hsub.cons _, hends⟩
    · rintro a ⟨t', hsub, hends⟩
      exact ⟨_, hsub.cons_cons _, .call hends⟩
  | finish _ ih =>
    refine forall₂_replace (ih hr) (fun _ _ h => h) ?_
    rintro a ⟨t', hsub, rfl, rfl⟩
    exact ⟨[], List.nil_sublist _, .ret _⟩
  | fail => exact absurd hr nofun

/-- A task that has not started or has stored its result does not run. -/
theorem countP_isRunning_eq_zero (values : List α) (ps : List (Program Op Ans ε α)) :
    (values.map (Task.finished : α → Task Op Ans ε α) ++ ps.map Task.waiting).countP
      Task.isRunning = 0 := by
  rw [List.countP_eq_zero]
  intro task htask
  rcases List.mem_append.mp htask with h | h
  · obtain ⟨_, -, rfl⟩ := List.mem_map.mp h
    exact Bool.false_ne_true
  · obtain ⟨_, -, rfl⟩ := List.mem_map.mp h
    exact Bool.false_ne_true

/-- A running task may go on to its end before any other moves. -/
theorem groupRuns_running {permits : Nat} {before after : List (Task Op Ans ε α)}
    {p : Program Op Ans ε α} {t t' : List (Sigma Ans)} {a : α} {r : Except ε (List α)}
    (h : Runs p t (.ok a)) (rest : GroupRuns permits (before ++ .finished a :: after) t' r) :
    GroupRuns permits (before ++ .running p :: after) (t ++ t') r := by
  induction p generalizing t with
  | ret b =>
    obtain ⟨rfl, hb⟩ := runs_ret_iff.mp h
    obtain rfl := Except.ok.inj hb
    exact .finish rest
  | raise e => exact absurd h not_runs_raise_ok
  | call op k ih =>
    obtain ⟨b, t₁, rfl, hrun⟩ := runs_call_iff.mp h
    exact .call (ih b hrun)

/-- A group may return what its tasks may return. -/
theorem MayEnd.group {A : Sigma Ans → Prop} {permits : Nat} (hpermits : 1 ≤ permits)
    {f : γ → Program Op Ans ε α} {P : γ → α → Prop} {l : List γ}
    (h : ∀ c ∈ l, ∃ a, P c a ∧ MayEnd A (f c) (.ok a)) (values : List α) :
    ∃ as t, List.Forall₂ P l as ∧
      GroupRuns permits (values.map .finished ++ (l.map f).map .waiting) t (.ok (values ++ as)) ∧
      ∀ x ∈ t, A x := by
  induction l generalizing values with
  | nil =>
    refine ⟨[], [], .nil, ?_, List.forall_mem_nil _⟩
    rw [List.map_nil, List.map_nil, List.append_nil, List.append_nil]
    exact .done values
  | cons c l ih =>
    obtain ⟨⟨a, ha, t, hrun, ht⟩, hl⟩ := List.forall_mem_cons.mp h
    obtain ⟨as, t', has, hrest, ht'⟩ := ih hl (values ++ [a])
    refine ⟨a :: as, t ++ t', .cons ha has, .start ?_ (groupRuns_running hrun ?_),
      List.forall_mem_append.mpr ⟨ht, ht'⟩⟩
    · have hidle := countP_isRunning_eq_zero values (l.map f)
      omega
    · rw [List.map_append, List.append_assoc, List.append_assoc] at hrest
      exact hrest

/-- With a permit to give, a group comes to an end: its tasks may run one after another. -/
theorem exists_groupRuns (env : (op : Op) → Ans op) {permits : Nat} (hpermits : 1 ≤ permits)
    (ps : List (Program Op Ans ε α)) (values : List α) :
    ∃ t r, GroupRuns permits (values.map .finished ++ ps.map .waiting) t r ∧
      ∀ x ∈ t, x.2 = env x.1 := by
  induction ps generalizing values with
  | nil =>
    refine ⟨[], .ok values, ?_, List.forall_mem_nil _⟩
    rw [List.map_nil, List.append_nil]
    exact .done values
  | cons p ps ih =>
    have hidle := countP_isRunning_eq_zero values ps
    have hrunning : ∃ t r, GroupRuns permits
        (values.map .finished ++ .running p :: ps.map .waiting) t r ∧ ∀ x ∈ t, x.2 = env x.1 := by
      clear hidle
      induction p with
      | ret a =>
        obtain ⟨t, r, hrun, ht⟩ := ih (values ++ [a])
        rw [List.map_append, List.append_assoc] at hrun
        exact ⟨t, r, .finish hrun, ht⟩
      | raise e => exact ⟨[], _, .fail, List.forall_mem_nil _⟩
      | call op k ihp =>
        obtain ⟨t, r, hrun, ht⟩ := ihp (env op)
        exact ⟨⟨op, env op⟩ :: t, r, .call hrun, List.forall_mem_cons.mpr ⟨rfl, ht⟩⟩
    obtain ⟨t, r, hrun, ht⟩ := hrunning
    exact ⟨t, r, .start (by omega) hrun, ht⟩

end Program

end RpcStateIndexer.Reasoning
