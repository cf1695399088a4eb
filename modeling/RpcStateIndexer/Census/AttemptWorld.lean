import RpcStateIndexer.Census.Runner

/-!
# One attempt among many

An attempt writes rows under its own identifier only, so its rows in a shared store evolve as if it
ran alone: other writers may interleave with any of its operations.  A fast read may answer anything;
a consistent read answers what is stored.  The one thing that may happen to an attempt's own rows
behind its back is a failed state, which the handler of a cancelled coroutine appends.
-/

namespace RpcStateIndexer

open Reasoning Program

/-! ## The rows of one attempt -/

namespace CensusStore

/-- The rows of one attempt; the registry and the anchors belong to none. -/
def ofAttempt (s : CensusStore) (id : Uuid) : CensusStore where
  attempts := s.attempts.filter fun r => r.attemptId = id
  universeMembers := s.universeMembers.filter fun r => r.scope.attemptId = id
  errors := s.errors.filter fun r => r.scope.attemptId = id
  tokenBalances := s.tokenBalances.filter fun r => r.scope.attemptId = id
  tokenScalars := s.tokenScalars.filter fun r => r.scope.attemptId = id
  poolBalances := s.poolBalances.filter fun r => r.scope.attemptId = id
  poolClState := s.poolClState.filter fun r => r.scope.attemptId = id
  poolTicks := s.poolTicks.filter fun r => r.scope.attemptId = id
  publications := s.publications.filter fun r => r.attemptId = id

/-- Everything but the states of the attempt. -/
def observed (s : CensusStore) : CensusStore := { s with attempts := [] }

end CensusStore

/-- Every row of the insert carries the attempt's identifier. -/
def CensusWrite.Owned (id : Uuid) : CensusWrite → Prop
  | .attemptState row => row.attemptId = id
  | .universeMembers rows => ∀ row ∈ rows, row.scope.attemptId = id
  | .terminalErrors rows => ∀ row ∈ rows, row.scope.attemptId = id
  | .tokenBalances rows => ∀ row ∈ rows, row.scope.attemptId = id
  | .tokenScalars rows => ∀ row ∈ rows, row.scope.attemptId = id
  | .poolBalances rows => ∀ row ∈ rows, row.scope.attemptId = id
  | .poolClState rows => ∀ row ∈ rows, row.scope.attemptId = id
  | .poolTicks rows => ∀ row ∈ rows, row.scope.attemptId = id
  | .publication row => row.attemptId = id

def CensusOp.Owned (id : Uuid) : CensusOp → Prop
  | .write x => x.Owned id
  | .select _ scope _ => scope.attemptId = id
  | .uuid4 => True
  | .now => True

private theorem filter_append_all {α : Type} {l new : List α} {p : α → Bool}
    (h : ∀ a ∈ new, p a = true) : (l ++ new).filter p = l.filter p ++ new := by
  rw [List.filter_append, List.filter_eq_self.mpr h]

private theorem filter_append_none {α : Type} {l new : List α} {p : α → Bool}
    (h : ∀ a ∈ new, p a = false) : (l ++ new).filter p = l.filter p := by
  have hnone : new.filter p = [] := List.filter_eq_nil_iff.mpr (by simpa using h)
  rw [List.filter_append, hnone, List.append_nil]

theorem ofAttempt_write {id : Uuid} {x : CensusWrite} (h : x.Owned id) (s : CensusStore) :
    (s.write x).ofAttempt id = (s.ofAttempt id).write x := by
  cases x <;> simp only [CensusWrite.Owned] at h <;>
    simp only [CensusStore.write, CensusStore.ofAttempt, CensusStore.mk.injEq, true_and, and_true]
  case attemptState row => exact filter_append_all (by simpa using h)
  case publication row => exact filter_append_all (by simpa using h)
  all_goals exact filter_append_all (by simpa using h)

theorem ofAttempt_write_other {id other : Uuid} {x : CensusWrite} (h : x.Owned other)
    (hne : other ≠ id) (s : CensusStore) : (s.write x).ofAttempt id = s.ofAttempt id := by
  cases x <;> simp only [CensusWrite.Owned] at h <;>
    simp only [CensusStore.write, CensusStore.ofAttempt, CensusStore.mk.injEq, true_and, and_true]
  case attemptState row => exact filter_append_none (by simpa [h] using hne)
  case publication row => exact filter_append_none (by simpa [h] using hne)
  all_goals exact filter_append_none (fun row hrow => by simpa [h row hrow] using hne)

/-! ## Reads of an attempt's scope see its own rows -/

theorem filter_final {α κ : Type} [DecidableEq κ] {key : α → κ} {p : α → Bool}
    (hp : ∀ a b, key a = key b → p a = p b) (rows : List α) :
    (final key rows).filter p = final key (rows.filter p) := by
  induction rows with
  | nil => rfl
  | cons row rows ih =>
    by_cases hlater : ∃ later ∈ rows, key later = key row
    · obtain ⟨later, hmem, hkey⟩ := hlater
      have hany : (rows.any fun later => decide (key later = key row)) = true :=
        List.any_eq_true.mpr ⟨later, hmem, by simpa using hkey⟩
      rw [final, if_pos hany, ih]
      cases hrow : p row with
      | false => rw [List.filter_cons_of_neg (by simp [hrow])]
      | true =>
        have hany' : ((rows.filter p).any fun later => decide (key later = key row)) = true :=
          List.any_eq_true.mpr ⟨later, List.mem_filter.mpr ⟨hmem, (hp _ _ hkey).trans hrow⟩,
            by simpa using hkey⟩
        rw [List.filter_cons_of_pos hrow, final, if_pos hany']
    · have hnone : ¬ (rows.any fun later => decide (key later = key row)) = true := by
        simpa using hlater
      have hnone' : ¬ ((rows.filter p).any fun later => decide (key later = key row)) = true := by
        simp only [List.any_eq_true, List.mem_filter, decide_eq_true_eq, not_exists, not_and]
        exact fun x hx hk => hlater ⟨x, hx.1, hk⟩
      rw [final, if_neg hnone]
      cases hrow : p row with
      | false => rw [List.filter_cons_of_neg (by simp [hrow]), List.filter_cons_of_neg (by simp [hrow]), ih]
      | true =>
        rw [List.filter_cons_of_pos hrow, List.filter_cons_of_pos hrow, final, if_neg hnone', ih]

/-- Of the rows of one attempt a query over its scope sees as much as of all rows. -/
theorem filter_final_of_imp {α κ : Type} [DecidableEq κ] {key : α → κ} {p q : α → Bool}
    (hp : ∀ a b, key a = key b → p a = p b) (hpq : ∀ a, p a = true → q a = true) (rows : List α) :
    (final key (rows.filter q)).filter p = (final key rows).filter p := by
  rw [filter_final hp, filter_final hp, List.filter_filter]
  congr 1
  apply List.filter_congr
  intro a _
  cases hpa : p a with
  | false => rfl
  | true => simp [hpq a hpa]

theorem select_ofAttempt {id : Uuid} {scope : AttemptScope} (h : scope.attemptId = id)
    (s : CensusStore) (q : CensusQuery) :
    (s.ofAttempt id).select scope q = s.select scope q := by
  have hobs : ∀ {α κ : Type} [DecidableEq κ] (column : α → κ) (rows : List (Stored α)),
      CensusStore.observationsOf column (rows.filter fun r => r.scope.attemptId = id) scope =
        CensusStore.observationsOf column rows scope := by
    intro α κ _ column rows
    rw [CensusStore.observationsOf, CensusStore.observationsOf, CensusStore.finalOf,
      CensusStore.finalOf, filter_final_of_imp]
    · intro a b hab
      simp only [Stored.key, Prod.mk.injEq] at hab
      rw [hab.1]
    · intro a ha
      simpa [of_decide_eq_true ha] using h
  cases q with
  | terminalErrors =>
    show ((final ErrorRow.key (s.ofAttempt id).errors).filter _).length = _
    rw [CensusStore.ofAttempt, filter_final_of_imp]
    · rfl
    · intro a b hab
      simp only [ErrorRow.key, Prod.mk.injEq] at hab
      rw [hab.1]
    · intro a ha
      simpa [of_decide_eq_true ha] using h
  | universeRows =>
    show CensusStore.universeRows _ _ = CensusStore.universeRows _ _
    rw [CensusStore.universeRows, CensusStore.universeRows, CensusStore.ofAttempt,
      filter_final_of_imp]
    · intro a b hab
      simp only [UniverseMemberRow.key, Prod.mk.injEq] at hab
      rw [hab.1]
    · intro a ha
      simpa [of_decide_eq_true ha] using h
  | balanceRows => exact congrArg _ (hobs _ _)
  | scalarRows => exact congrArg _ (hobs _ _)
  | poolBalanceRows => exact congrArg _ (hobs _ _)
  | clStateRows => exact congrArg _ (hobs _ _)
  | tickRows => exact congrArg _ (hobs _ _)

/-! ## The environment of an attempt -/

/-- What an operation does to the store.  A write that fails may have taken effect. -/
inductive Answered : (op : CensusOp) → CensusStore → CensusAns op → CensusStore → Prop where
  | written (x : CensusWrite) (s : CensusStore) : Answered (.write x) s (.ok ()) (s.write x)
  | lost (x : CensusWrite) (s : CensusStore) (f : Failure) : Answered (.write x) s (.error f) s
  | unacknowledged (x : CensusWrite) (s : CensusStore) (f : Failure) :
      Answered (.write x) s (.error f) (s.write x)
  | consistent (q : CensusQuery) (scope : AttemptScope) (s : CensusStore) :
      Answered (.select q scope true) s (.ok (s.select scope q)) s
  | fast (q : CensusQuery) (scope : AttemptScope) (s : CensusStore) (rows : q.Rows) :
      Answered (.select q scope false) s (.ok rows) s
  | unread (q : CensusQuery) (scope : AttemptScope) (c : Bool) (s : CensusStore) (f : Failure) :
      Answered (.select q scope c) s (.error f) s
  | uuid4 (s : CensusStore) (id : Uuid) : Answered .uuid4 s id s
  | now (s : CensusStore) (time : Nat) : Answered .now s time s

/-- What others may do between two operations of the attempt. -/
structure Interferes (id : Uuid) (s s' : CensusStore) : Prop where
  observed : (s'.ofAttempt id).observed = (s.ofAttempt id).observed
  attempts : ∃ failed : List AttemptRow, (∀ row ∈ failed, row.status = .failed) ∧
    (s'.ofAttempt id).attempts = (s.ofAttempt id).attempts ++ failed

theorem Interferes.refl (id : Uuid) (s : CensusStore) : Interferes id s s :=
  ⟨rfl, [], by simp, by simp⟩

/-- The store, and what the attempt has been answered so far. -/
structure AttemptWorld where
  store : CensusStore
  log : List (Sigma CensusAns)

def censusEnv (id : Uuid) (op : CensusOp) (w : AttemptWorld) (a : CensusAns op)
    (w' : AttemptWorld) : Prop :=
  ∃ s, Interferes id w.store s ∧ Answered op s a w'.store ∧ w'.log = w.log ++ [⟨op, a⟩]

/-! ## Where an attempt stands -/

/-- The attempt's rows are `X`, some of its states and answers are on record, and so far it has
touched no rows but its own. -/
structure At (id : Uuid) (X : CensusStore) (states : List AttemptRow) (log : List (Sigma CensusAns))
    (w : AttemptWorld) : Prop where
  rows : (w.store.ofAttempt id).observed = X
  states_mem : ∀ row ∈ states, row ∈ (w.store.ofAttempt id).attempts
  logged : ∀ e ∈ log, e ∈ w.log
  owned : ∀ e ∈ w.log, e.1.Owned id

section Rules

variable {id : Uuid} {X : CensusStore} {states : List AttemptRow} {log : List (Sigma CensusAns)}
  {w w' : AttemptWorld} {C : AttemptWorld → Prop}

theorem At.interferes {s : CensusStore} (h : At id X states log w)
    (hs : Interferes id w.store s) : At id X states log ⟨s, w.log⟩ where
  rows := hs.observed.trans h.rows
  states_mem row hrow := by
    obtain ⟨failed, -, hattempts⟩ := hs.attempts
    rw [hattempts]
    exact List.mem_append_left _ (h.states_mem row hrow)
  logged := h.logged
  owned := h.owned

/-- An answer that leaves the store alone is put on record. -/
theorem At.answer (h : At id X states log w) (op : CensusOp) {a : CensusAns op}
    (hop : op.Owned id) (hlog : w'.log = w.log ++ [⟨op, a⟩]) (hstore : w'.store = w.store) :
    At id X states (⟨op, a⟩ :: log) w' where
  rows := by rw [hstore, h.rows]
  states_mem row hrow := by
    rw [hstore]
    exact h.states_mem row hrow
  logged e he := by
    rw [hlog, List.mem_append]
    rcases List.mem_cons.mp he with rfl | he
    · exact .inr (by simp)
    · exact .inl (h.logged e he)
  owned e he := by
    rw [hlog, List.mem_append] at he
    rcases he with he | he
    · exact h.owned e he
    · obtain rfl := List.mem_singleton.mp he
      exact hop

theorem At.forget (h : At id X states log w) {states' : List AttemptRow}
    {log' : List (Sigma CensusAns)} (hstates : ∀ row ∈ states', row ∈ states)
    (hlog : ∀ e ∈ log', e ∈ log) : At id X states' log' w :=
  ⟨h.rows, fun row hrow => h.states_mem row (hstates row hrow),
    fun e he => h.logged e (hlog e he), h.owned⟩

/-- A write of observations that took effect. -/
theorem At.write {x : CensusWrite} {a : CensusAns (.write x)} (h : At id X states log w)
    (hx : x.Owned id) (hstate : ∀ row, x ≠ .attemptState row)
    (hlog : w'.log = w.log ++ [⟨.write x, a⟩]) (hstore : w'.store = w.store.write x) :
    At id (X.write x) states log w' where
  rows := by
    rw [hstore, ofAttempt_write hx, ← h.rows]
    cases x with
    | attemptState row => exact absurd rfl (hstate row)
    | _ => rfl
  states_mem row hrow := by
    rw [hstore, ofAttempt_write hx]
    have hmem := h.states_mem row hrow
    cases x with
    | attemptState row => exact absurd rfl (hstate row)
    | _ => exact hmem
  logged e he := by
    rw [hlog]
    exact List.mem_append_left _ (h.logged e he)
  owned e he := by
    rw [hlog, List.mem_append] at he
    rcases he with he | he
    · exact h.owned e he
    · obtain rfl := List.mem_singleton.mp he
      exact hx

/-- A state of the attempt that took effect. -/
theorem At.writeState {row : AttemptRow} {a : CensusAns (.write (.attemptState row))}
    (h : At id X states log w) (hrow : row.attemptId = id)
    (hlog : w'.log = w.log ++ [⟨.write (.attemptState row), a⟩])
    (hstore : w'.store = w.store.write (.attemptState row)) :
    At id X (row :: states) log w' where
  rows := by
    rw [hstore, ofAttempt_write (x := .attemptState row) hrow, ← h.rows]
    rfl
  states_mem r hr := by
    rw [hstore, ofAttempt_write (x := .attemptState row) hrow]
    show r ∈ (w.store.ofAttempt id).attempts ++ [row]
    rcases List.mem_cons.mp hr with rfl | hr
    · simp
    · exact List.mem_append_left _ (h.states_mem r hr)
  logged e he := by
    rw [hlog]
    exact List.mem_append_left _ (h.logged e he)
  owned e he := by
    rw [hlog, List.mem_append] at he
    rcases he with he | he
    · exact h.owned e he
    · obtain rfl := List.mem_singleton.mp he
      exact hrow

/-- Inserting observations: they are stored when the call returns, and may be when it raises. -/
theorem returns_insert {x : CensusWrite} (h : At id X states log w) (hx : x.Owned id)
    (hstate : ∀ row, x ≠ .attemptState row)
    (hC : ∀ w', At id X states log w' ∨ At id (X.write x) states log w' → C w') :
    Returns (censusEnv id) C (fun _ w' => At id (X.write x) states log w') (insert x) w := by
  intro a w' hstep
  obtain ⟨s, hs, hanswer, hlog⟩ := hstep
  have hat := h.interferes hs
  generalize hs' : w'.store = s' at hanswer
  cases hanswer with
  | written =>
    have hw := hat.write hx hstate hlog hs'
    exact ⟨hC _ (.inr hw), hw⟩
  | lost f =>
    have hw : At id X states log w' :=
      (hat.answer (.write x) hx hlog hs').forget (fun _ h => h) fun _ => List.mem_cons_of_mem _
    exact ⟨hC _ (.inl hw), hC _ (.inl hw)⟩
  | unacknowledged f =>
    have hw := hat.write hx hstate hlog hs'
    exact ⟨hC _ (.inr hw), hC _ (.inr hw)⟩

theorem returns_insertState {row : AttemptRow} (h : At id X states log w)
    (hrow : row.attemptId = id) (hC : ∀ w', At id X states log w' → C w') :
    Returns (censusEnv id) C (fun _ w' => At id X (row :: states) log w')
      (insert (.attemptState row)) w := by
  intro a w' hstep
  obtain ⟨s, hs, hanswer, hlog⟩ := hstep
  have hat := h.interferes hs
  have hdrop : At id X (row :: states) log w' → At id X states log w' := fun hw =>
    hw.forget (fun _ => List.mem_cons_of_mem _) fun _ h => h
  generalize hs' : w'.store = s' at hanswer
  cases hanswer with
  | written =>
    have hw := hat.writeState hrow hlog hs'
    exact ⟨hC _ (hdrop hw), hw⟩
  | lost f =>
    have hw : At id X states log w' := (hat.answer (.write (.attemptState row)) hrow hlog
      hs').forget (fun _ h => h) fun _ => List.mem_cons_of_mem _
    exact ⟨hC _ hw, hC _ hw⟩
  | unacknowledged f =>
    have hw := hdrop (hat.writeState hrow hlog hs')
    exact ⟨hC _ hw, hC _ hw⟩

/-- The states of an attempt do not show in what it reads. -/
theorem select_observed (s : CensusStore) (scope : AttemptScope) (q : CensusQuery) :
    s.observed.select scope q = s.select scope q := by
  cases q <;> rfl

/-- A read goes on record; a consistent one reads the attempt's rows. -/
theorem returns_query {q : CensusQuery} {scope : AttemptScope} {c : Bool}
    (h : At id X states log w) (hscope : scope.attemptId = id)
    (hC : ∀ w', At id X states log w' → C w') :
    Returns (censusEnv id) C (fun rows w' =>
      At id X states (⟨.select q scope c, .ok rows⟩ :: log) w' ∧
        (c = true → rows = X.select scope q)) (query q scope c) w := by
  intro a w' hstep
  obtain ⟨s, hs, hanswer, hlog⟩ := hstep
  have hat := h.interferes hs
  have hforget : ∀ {a : CensusAns (.select q scope c)},
      At id X states (⟨.select q scope c, a⟩ :: log) w' → At id X states log w' := fun hw =>
    hw.forget (fun _ h => h) fun _ => List.mem_cons_of_mem _
  generalize hs' : w'.store = s' at hanswer
  cases hanswer with
  | consistent =>
    have hw := hat.answer (.select q scope _) hscope hlog hs'
    refine ⟨hC _ (hforget hw), hw, fun _ => ?_⟩
    rw [← select_ofAttempt hscope, ← select_observed, hat.rows]
  | fast rows =>
    have hw := hat.answer (.select q scope _) hscope hlog hs'
    exact ⟨hC _ (hforget hw), hw, fun hc => absurd hc (by decide)⟩
  | unread f =>
    have hw := hforget (hat.answer (.select q scope _) hscope hlog hs')
    exact ⟨hC _ hw, hC _ hw⟩

theorem returns_uuid4 (h : At id X states log w) (hC : ∀ w', At id X states log w' → C w') :
    Returns (censusEnv id) C (fun _ w' => At id X states log w')
      (perform CensusOp.uuid4 : CensusProgram Uuid) w := by
  intro a w' hstep
  obtain ⟨s, hs, hanswer, hlog⟩ := hstep
  generalize hs' : w'.store = s' at hanswer
  cases hanswer with
  | uuid4 =>
    have hw : At id X states log w' := ((h.interferes hs).answer .uuid4 trivial hlog hs').forget
      (fun _ h => h) fun _ => List.mem_cons_of_mem _
    exact ⟨hC _ hw, hw⟩

theorem returns_now (h : At id X states log w) (hC : ∀ w', At id X states log w' → C w') :
    Returns (censusEnv id) C (fun _ w' => At id X states log w')
      (perform CensusOp.now : CensusProgram Nat) w := by
  intro a w' hstep
  obtain ⟨s, hs, hanswer, hlog⟩ := hstep
  generalize hs' : w'.store = s' at hanswer
  cases hanswer with
  | now =>
    have hw : At id X states log w' := ((h.interferes hs).answer .now trivial hlog hs').forget
      (fun _ h => h) fun _ => List.mem_cons_of_mem _
    exact ⟨hC _ hw, hw⟩

end Rules

end RpcStateIndexer
