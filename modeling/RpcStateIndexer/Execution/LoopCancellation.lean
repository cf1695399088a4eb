import Mathlib.Algebra.Order.BigOperators.Group.List
import RpcStateIndexer.Execution.TaskLoops
import RpcStateIndexer.Rpc.Call

/-!
# Cancellation of the retry loops

A cancellation that a loop takes for a failure is recorded against an endpoint, or hidden behind another
exception.  Where it is delivered decides which loop lets it through.
-/

namespace RpcStateIndexer

open Reasoning Program

/-! ## The health that a trace leaves -/

namespace EndpointPool

/-- The pool after one event of a task. -/
def recorded (ticks now : Nat) (pool : EndpointPool) (x : Sigma TaskAns) : EndpointPool :=
  match x.1 with
  | .now (.recordSuccess endpoint) => pool.recordSuccess endpoint.name
  | .now (.recordFailure endpoint failover block archiveUnavailable) =>
    pool.recordFailure now ticks endpoint.name failover block archiveUnavailable
  | _ => pool

/-- The pool after a trace; `clock` has the instant of each event, the first of them being the `i`-th. -/
def afterTrace (ticks : Nat) (clock : Nat → Nat) : EndpointPool → Nat → List (Sigma TaskAns) → EndpointPool
  | pool, _, [] => pool
  | pool, i, x :: t => afterTrace ticks clock (pool.recorded ticks (clock i) x) (i + 1) t

/-- What a failure is charged to: the health flag, the failures and the cooldown of every endpoint. -/
def charges (pool : EndpointPool) : List (Bool × Nat × WithTop Nat) :=
  pool.endpoints.map fun e => (e.health.healthy, e.health.consecutiveFailures, e.health.cooldownUntil)

def totalFailures (pool : EndpointPool) : Nat :=
  (pool.endpoints.map fun e => e.health.consecutiveFailures).sum

theorem totalFailures_eq (pool : EndpointPool) :
    pool.totalFailures = (pool.charges.map fun x => x.2.1).sum := by
  rw [totalFailures, charges, List.map_map]
  rfl

theorem afterTrace_append (ticks : Nat) (clock : Nat → Nat) (pool : EndpointPool) (i : Nat)
    (t t' : List (Sigma TaskAns)) : afterTrace ticks clock pool i (t ++ t') =
      afterTrace ticks clock (afterTrace ticks clock pool i t) (i + t.length) t' := by
  induction t generalizing pool i with
  | nil => rfl
  | cons x t ih =>
    rw [List.cons_append, afterTrace, ih, afterTrace, List.length_cons, Nat.add_assoc,
      Nat.add_comm 1]

theorem configs_setHealth (pool : EndpointPool) (name : String)
    (update : EndpointHealth → EndpointHealth) : (pool.setHealth name update).configs = pool.configs := by
  rw [configs, configs, setHealth, List.map_map]
  refine List.map_congr_left fun e _ => ?_
  rw [Function.comp]
  split <;> rfl

theorem configs_recorded (ticks now : Nat) (pool : EndpointPool) (x : Sigma TaskAns) :
    (pool.recorded ticks now x).configs = pool.configs := by
  unfold recorded
  split
  · exact configs_setHealth _ _ _
  · exact configs_setHealth _ _ _
  · rfl

theorem configs_afterTrace (ticks : Nat) (clock : Nat → Nat) (pool : EndpointPool) (i : Nat)
    (t : List (Sigma TaskAns)) : (afterTrace ticks clock pool i t).configs = pool.configs := by
  induction t generalizing pool i with
  | nil => rfl
  | cons x t ih => rw [afterTrace, ih, configs_recorded]

/-- A failure that counts for the endpoints of a name takes no other endpoint's count down. -/
theorem totalFailures_setHealth (pool : EndpointPool) (name : String)
    {update : EndpointHealth → EndpointHealth}
    (hupdate : ∀ health, (update health).consecutiveFailures = health.consecutiveFailures + 1) :
    pool.totalFailures ≤ (pool.setHealth name update).totalFailures ∧
      ((∃ e ∈ pool.endpoints, e.config.name = name) →
        pool.totalFailures < (pool.setHealth name update).totalFailures) := by
  have hcount : ∀ e : Endpoint, (if e.config.name = name then { e with health := update e.health }
        else e).health.consecutiveFailures =
      if e.config.name = name then e.health.consecutiveFailures + 1
        else e.health.consecutiveFailures := by
    intro e
    split
    · exact hupdate e.health
    · rfl
  have hle : ∀ e ∈ pool.endpoints, e.health.consecutiveFailures ≤
      ((fun e : Endpoint => e.health.consecutiveFailures) ∘ fun e =>
        if e.config.name = name then { e with health := update e.health } else e) e := by
    intro e _
    rw [Function.comp, hcount]
    split <;> omega
  rw [totalFailures, totalFailures, setHealth, List.map_map]
  refine ⟨List.sum_le_sum hle, ?_⟩
  rintro ⟨e, he, hname⟩
  refine List.sum_lt_sum _ _ hle ⟨e, he, ?_⟩
  rw [Function.comp, hcount, if_pos hname]
  omega

theorem totalFailures_recordFailure (pool : EndpointPool) (now ticks : Nat) (endpoint : EndpointConfig)
    (failover : Bool) (block : Option Nat) (archiveUnavailable : Bool) :
    pool.totalFailures ≤
        (pool.recordFailure now ticks endpoint.name failover block archiveUnavailable).totalFailures ∧
      (endpoint ∈ pool.configs → pool.totalFailures <
        (pool.recordFailure now ticks endpoint.name failover block archiveUnavailable).totalFailures) := by
  rw [recordFailure]
  refine (totalFailures_setHealth pool endpoint.name fun health => ?_).imp_right fun hlt hmem => hlt ?_
  · dsimp only
    split <;> rfl
  · obtain ⟨e, he, rfl⟩ := List.mem_map.mp hmem
    exact ⟨e, he, rfl⟩

end EndpointPool

/-! ## Charges in a trace -/

/-- A success is recorded. -/
def isSuccess (x : Sigma TaskAns) : Bool :=
  match x.1 with
  | .now (.recordSuccess _) => true
  | _ => false

/-- A failure of an endpoint of the pool is recorded. -/
def Charged (pool : EndpointPool) (t : List (Sigma TaskAns)) : Prop :=
  ∃ endpoint ∈ pool.configs, ∃ failover block archiveUnavailable,
    (⟨.now (.recordFailure endpoint failover block archiveUnavailable), ()⟩ : Sigma TaskAns) ∈ t

theorem Charged.append_left {pool : EndpointPool} {t t' : List (Sigma TaskAns)} (h : Charged pool t') :
    Charged pool (t ++ t') := by
  obtain ⟨endpoint, hmem, failover, block, archive, hrecord⟩ := h
  exact ⟨endpoint, hmem, failover, block, archive, List.mem_append_right _ hrecord⟩

theorem charged_failureRecord {pool : EndpointPool} {endpoint : EndpointConfig}
    (h : endpoint ∈ pool.configs) (e : TaskFault) (block : Option Nat) (t : List (Sigma TaskAns)) :
    Charged pool (failureRecord endpoint e block :: t) :=
  ⟨endpoint, h, _, _, _, List.mem_cons_self⟩

namespace EndpointPool

variable {ticks : Nat} {clock : Nat → Nat} {t : List (Sigma TaskAns)}

/-- Without a success no count of failures goes down. -/
theorem totalFailures_recorded (pool : EndpointPool) (now : Nat) {x : Sigma TaskAns}
    (hsuccess : isSuccess x = false) :
    pool.totalFailures ≤ (pool.recorded ticks now x).totalFailures := by
  unfold recorded
  split
  · next endpoint heq =>
    rw [isSuccess, heq] at hsuccess
    cases hsuccess
  · exact (totalFailures_recordFailure pool now ticks _ _ _ _).1
  · exact le_rfl

theorem totalFailures_afterTrace (pool : EndpointPool) (i : Nat)
    (hsuccess : ∀ x ∈ t, isSuccess x = false) :
    pool.totalFailures ≤ (afterTrace ticks clock pool i t).totalFailures := by
  induction t generalizing pool i with
  | nil => exact le_rfl
  | cons x t ih =>
    obtain ⟨hx, hrest⟩ := List.forall_mem_cons.mp hsuccess
    exact (totalFailures_recorded pool (clock i) hx).trans (ih _ _ hrest)

/-- A charge that no success takes back shows. -/
theorem charges_afterTrace_ne {pool : EndpointPool} (i : Nat) (hsuccess : ∀ x ∈ t, isSuccess x = false)
    (hcharged : Charged pool t) : (afterTrace ticks clock pool i t).charges ≠ pool.charges := by
  obtain ⟨endpoint, hmem, failover, block, archive, hrecord⟩ := hcharged
  obtain ⟨before, after, rfl⟩ := List.append_of_mem hrecord
  obtain ⟨hbefore, hrest⟩ := List.forall_mem_append.mp hsuccess
  obtain ⟨-, hafter⟩ := List.forall_mem_cons.mp hrest
  have hfirst : pool.totalFailures ≤ (afterTrace ticks clock pool i before).totalFailures :=
    totalFailures_afterTrace pool i hbefore
  rw [afterTrace_append, afterTrace]
  generalize hmiddle : afterTrace ticks clock pool i before = middle at hfirst ⊢
  rw [← configs_afterTrace ticks clock pool i before, hmiddle] at hmem
  have hcount := (totalFailures_recordFailure middle (clock (i + before.length)) ticks endpoint failover
    block archive).2 hmem
  have hlast := @totalFailures_afterTrace ticks clock _
    (middle.recorded ticks (clock (i + before.length))
      ⟨.now (.recordFailure endpoint failover block archive), ()⟩) (i + before.length + 1) hafter
  intro heq
  have htotal := congrArg (fun charges : List (Bool × Nat × WithTop Nat) =>
    (charges.map fun x => x.2.1).sum) heq
  rw [← totalFailures_eq, ← totalFailures_eq] at htotal
  exact absurd htotal (hfirst.trans_lt (hcount.trans_le hlast)).ne'

end EndpointPool

/-! ## What a task asks -/

/-- No outcome of an endpoint is recorded. -/
def RecordsNothing : RpcOp → Prop
  | .recordSuccess _ => False
  | .recordFailure _ _ _ _ => False
  | _ => True

/-- The operation of the RPC layer behind an operation of a task. -/
def TaskOp.Satisfies (P : RpcOp → Prop) : TaskOp → Prop
  | .await _ op => P op
  | .now op => P op
  | .sleep => True

theorem asks_task {α : Type} {site : AwaitSite} {P : RpcOp → Prop} {p : ClientProgram α} (h : Asks P p) :
    Asks (TaskOp.Satisfies P) (task site p) := by
  induction p with
  | ret a => trivial
  | raise e => trivial
  | call op k ih =>
    rw [task]
    split
    · refine ⟨h.1, fun answer => ?_⟩
      cases answer with
      | ok a => exact ih a (h.2 a)
      | error message => trivial
    · exact ⟨h.1, fun a => ih a (h.2 a)⟩

theorem isSuccess_of_satisfies {x : Sigma TaskAns} (h : TaskOp.Satisfies RecordsNothing x.1) :
    isSuccess x = false := by
  unfold isSuccess
  split
  · next heq =>
    rw [heq] at h
    exact h.elim
  · rfl

/-- Code of a task that records nothing records no success. -/
theorem no_success_of_asks {α : Type} {site : AwaitSite} {p : ClientProgram α}
    (h : Asks RecordsNothing p) {t : List (Sigma TaskAns)} {r : Except TaskFault α}
    (hruns : Runs (task site p) t r) : ∀ x ∈ t, isSuccess x = false := fun x hx =>
  isSuccess_of_satisfies ((asks_task h).runs hruns x hx)

theorem asks_post (endpoint : EndpointConfig) (payload : Json) (exchange : Nat) :
    Asks RecordsNothing (post endpoint payload exchange) := ⟨trivial, fun reply => .ofExcept reply⟩

theorem asks_callOnEndpoint (endpoint : EndpointConfig) (method : String) (params : List Json)
    (exchange : Nat) : Asks RecordsNothing (callOnEndpoint endpoint method params exchange) :=
  ⟨trivial, fun _ => (asks_post _ _ _).bind fun _ => .ofExcept _⟩

theorem asks_assertAnchorHash (endpoint : EndpointConfig) (anchor : BlockRef) (exchange : Nat) :
    Asks RecordsNothing (assertAnchorHash endpoint anchor exchange) := by
  have hread : Asks RecordsNothing (readBlockHash endpoint anchor.number exchange) := by
    refine (asks_callOnEndpoint _ _ _ _).bind fun result => ?_
    split
    · exact .ofExcept _
    · trivial
  exact hread.bind fun _ => (Asks.ofExcept _).bind fun _ => .ofExcept _

theorem asks_runOnEndpoint (endpoint : EndpointConfig) (calls : List ContractCall) (anchor : BlockRef)
    (eip1898 : Bool) : Asks RecordsNothing (runOnEndpoint endpoint calls anchor eip1898) := by
  refine (Asks.ofExcept _).bind fun reference => Asks.bind ?_ fun _ => .ofExcept _
  rw [sendCalls]
  split
  · refine Asks.bind ?_ fun _ => .ofExcept _
    rw [batchOnEndpoint]
    split
    · trivial
    · exact (asks_post _ _ _).bind fun _ => .ofExcept _
  · refine Asks.gather trivial fun p hp => ?_
    obtain ⟨⟨c, exchange⟩, -, rfl⟩ := List.mem_map.mp hp
    exact (asks_callOnEndpoint _ _ _ _).outcome.bind fun _ => .ofExcept _

theorem asks_executeEip1898 (endpoint : EndpointConfig) (calls : List ContractCall) (anchor : BlockRef) :
    Asks RecordsNothing (LegacyRpcBatchExecutor.executeEip1898 endpoint calls anchor) :=
  (asks_runOnEndpoint _ _ _ _).bind fun _ => .ofExcept _

theorem asks_quorumFallback (executor : LegacyRpcBatchExecutor) (calls : List ContractCall)
    (anchor : BlockRef) (failed : Bool) :
    Asks RecordsNothing (executor.quorumFallback calls anchor failed) := by
  refine Asks.tryCatch (Asks.bind ⟨trivial, fun _ => .ofExcept _⟩ fun endpoints => ?_) fun e => ?_
  · refine Asks.bind (Asks.gather trivial fun p hp => ?_) fun _ =>
      (Asks.ofExcept _).bind fun _ => .ofExcept _
    obtain ⟨endpoint, -, rfl⟩ := List.mem_map.mp hp
    exact (asks_assertAnchorHash _ _ _).bind fun _ => (asks_runOnEndpoint _ _ _ _).bind fun _ =>
      (asks_assertAnchorHash _ _ _).bind fun _ => trivial
  · split <;> trivial

/-! ## Where a cancellation goes -/

/-- The exception that a run ends in. -/
def raisedBy {α : Type} : Except TaskFault α → Option TaskFault
  | .ok _ => none
  | .error e => some e

/-- At the awaits of `through` a cancellation ends the loop, and elsewhere it is hidden or charged. -/
def Treats (pool : EndpointPool) (through : AwaitSite → Prop) (raised : Option TaskFault)
    (site : AwaitSite) (message : String) (after : List (Sigma TaskAns)) : Prop :=
  (through site → after = [] ∧ raised = some (.cancelled message)) ∧
    (¬ through site → raised = some (.cancelled message) → Charged pool after)

variable {pool : EndpointPool} {t : List (Sigma TaskAns)}

/-- Code that returned was not cancelled. -/
theorem atDelivery_of_ok {α : Type} {site : AwaitSite} {p : ClientProgram α} {a : α}
    {P : AwaitSite → String → List (Sigma TaskAns) → Prop} (h : Runs (task site p) t (.ok a)) :
    AtDelivery P t :=
  (atDelivery_task h).imp fun _ _ _ ⟨_, _, hno⟩ => nomatch hno

/-- A request that is cancelled and then recorded is charged. -/
theorem treats_of_charged {through : AwaitSite → Prop} {raised : Option TaskFault} {site : AwaitSite}
    {message : String} {after rest : List (Sigma TaskAns)} (hthrough : ¬ through site)
    (hcharged : Charged pool rest) : Treats pool through raised site message (after ++ rest) :=
  ⟨fun h => absurd h hthrough, fun _ _ => hcharged.append_left⟩

theorem mem_of_selects {site : AwaitSite} {block : Option Nat} {requireEip1898 : Bool}
    {excluded : List String} {endpoint : EndpointConfig}
    (h : Runs (task site (selectEndpoint block requireEip1898 excluded)) t (.ok endpoint))
    (hpool : ∀ x ∈ t, pool.AnswersTask x) : endpoint ∈ pool.configs := by
  obtain ⟨answer, rfl, hanswer⟩ := runs_selection_iff.mp h
  match answer with
  | .error message => cases hanswer
  | .ok (.error e) => cases hanswer
  | .ok (.ok _) =>
    cases hanswer
    obtain ⟨state, now, hconfigs, hselect⟩ := hpool _ List.mem_cons_self _ rfl
    obtain ⟨e, he, rfl, -⟩ := EndpointPool.select_eq_ok hselect
    rw [← hconfigs]
    exact List.mem_map_of_mem he

/-! ### The call with failover -/

section Call

variable {method : String} {params : List Json} {block : Option Nat} {requireEip1898 : Bool}
  {attempts : Nat} {excluded : List String} {lastError : Option TaskFault} {endpoint : EndpointConfig}
  {r : Except TaskFault (Json × EndpointConfig)}

/-- The parts of an attempt: its selection and its request. -/
theorem Requested.exists_runs {result : Except TaskFault Json}
    (h : Requested method params block requireEip1898 excluded endpoint result t) :
    ∃ t₁ t₂, t = t₁ ++ t₂ ∧
      Runs (task .selection (selectEndpoint block requireEip1898 excluded)) t₁ (.ok endpoint) ∧
      Runs (task .request (callOnEndpoint endpoint method params 0)) t₂ result := by
  obtain ⟨requestId, answer, rfl, rfl⟩ := h.exists_eq
  exact ⟨[_], [_, _], rfl, runs_selection_iff.mpr ⟨.ok (.ok endpoint), rfl, rfl⟩,
    runs_request_iff.mpr ⟨requestId, answer, rfl, rfl⟩⟩

theorem Requested.mem {result : Except TaskFault Json}
    (h : Requested method params block requireEip1898 excluded endpoint result t)
    (hpool : ∀ x ∈ t, pool.AnswersTask x) : endpoint ∈ pool.configs := by
  obtain ⟨t₁, t₂, rfl, hselect, -⟩ := h.exists_runs
  exact mem_of_selects hselect (List.forall_mem_append.mp hpool).1

/-- A cancellation in an attempt is in its request, and is charged when the failure is recorded. -/
theorem Requested.treats {result : Except TaskFault Json} {raised : Option TaskFault}
    {rest : List (Sigma TaskAns)}
    (h : Requested method params block requireEip1898 excluded endpoint result t)
    (hcharged : Charged pool rest) :
    AtDelivery (fun site message after => Treats pool (· = .backoff) raised site message (after ++ rest))
      t := by
  obtain ⟨t₁, t₂, rfl, hselect, hrequest⟩ := h.exists_runs
  refine atDelivery_append.mpr ⟨atDelivery_of_ok hselect, (atDelivery_task hrequest).imp ?_⟩
  rintro site message after ⟨rfl, -, -⟩
  exact treats_of_charged AwaitSite.noConfusion hcharged

theorem treats_callAttempts (h : Runs (AsyncRpcClient.callAttempts method params block requireEip1898
    attempts excluded lastError) t r) (hpool : ∀ x ∈ t, pool.AnswersTask x) :
    AtDelivery (Treats pool (· = .backoff) (raisedBy r)) t := by
  induction attempts generalizing excluded lastError t with
  | zero =>
    obtain ⟨rfl, -⟩ := runs_raise_iff.mp h
    exact .of_undisturbed undisturbed_nil
  | succ attempts ih =>
    cases callStep_of_runs h with
    | unselected hanswer =>
      refine atDelivery_cons.mpr ⟨?_, .of_undisturbed undisturbed_nil⟩
      rintro site message ⟨⟩
      refine ⟨AwaitSite.noConfusion, fun _ hraised => ?_⟩
      rw [giveUp_unselected hanswer (hpool _ List.mem_cons_self)] at hraised
      cases hraised
    | returned hrequested =>
      obtain ⟨t₁, t₂, rfl, hselect, hrequest⟩ := hrequested.exists_runs
      refine atDelivery_append.mpr ⟨atDelivery_append.mpr ⟨atDelivery_of_ok hselect,
        atDelivery_of_ok hrequest⟩, .of_undisturbed (undisturbed_now _ _)⟩
    | raised hrequested _ =>
      have hmem := hrequested.mem (List.forall_mem_append.mp hpool).1
      refine atDelivery_append.mpr ⟨hrequested.treats (charged_failureRecord hmem _ _ _), ?_⟩
      exact .of_undisturbed (undisturbed_now _ _)
    | interrupted hrequested _ =>
      have hmem := hrequested.mem (List.forall_mem_append.mp hpool).1
      refine atDelivery_append.mpr ⟨hrequested.treats (charged_failureRecord hmem _ _ _), ?_⟩
      refine atDelivery_cons.mpr ⟨fun _ _ => nofun, atDelivery_cons.mpr ⟨?_, ?_⟩⟩
      · rintro site message ⟨⟩
        exact ⟨fun _ => ⟨rfl, rfl⟩, fun hnot => absurd rfl hnot⟩
      · exact .of_undisturbed undisturbed_nil
    | next hrequested _ hrest =>
      have hmem := hrequested.mem (List.forall_mem_append.mp hpool).1
      refine atDelivery_append.mpr ⟨hrequested.treats (charged_failureRecord hmem _ _ _), ?_⟩
      refine atDelivery_cons.mpr ⟨fun _ _ => nofun, atDelivery_cons.mpr ⟨fun _ _ => nofun, ?_⟩⟩
      exact ih hrest fun x hx => hpool x (by simp [hx])

/-- A call that raises has recorded no success. -/
theorem no_success_callAttempts {e : TaskFault} (h : Runs (AsyncRpcClient.callAttempts method params
    block requireEip1898 attempts excluded lastError) t (.error e)) : ∀ x ∈ t, isSuccess x = false := by
  induction attempts generalizing excluded lastError t with
  | zero =>
    obtain ⟨rfl, -⟩ := runs_raise_iff.mp h
    exact List.forall_mem_nil _
  | succ attempts ih =>
    have hattempt : ∀ {endpoint : EndpointConfig} {result : Except TaskFault Json}
        {t : List (Sigma TaskAns)},
        Requested method params block requireEip1898 excluded endpoint result t →
        ∀ x ∈ t, isSuccess x = false := by
      intro endpoint result t hrequested
      obtain ⟨requestId, answer, rfl, -⟩ := hrequested.exists_eq
      simp [isSuccess]
    generalize hr : Except.error e = r at h
    cases callStep_of_runs h with
    | unselected _ => simp [isSuccess]
    | returned _ => cases hr
    | raised hrequested _ =>
      exact List.forall_mem_append.mpr ⟨hattempt hrequested, by simp [isSuccess, failureRecord]⟩
    | interrupted hrequested _ =>
      exact List.forall_mem_append.mpr ⟨hattempt hrequested, by simp [isSuccess, failureRecord]⟩
    | next hrequested _ hrest =>
      subst hr
      refine List.forall_mem_append.mpr ⟨hattempt hrequested, ?_⟩
      exact List.forall_mem_cons.mpr ⟨rfl, List.forall_mem_cons.mpr ⟨rfl, ih hrest⟩⟩

end Call

/-! ### The legacy executor -/

namespace LegacyRpcBatchExecutor

variable {executor : LegacyRpcBatchExecutor} {calls : List ContractCall} {anchor : BlockRef}
  {attempts : Nat} {excluded : List String} {failed : Bool}
  {r : Except TaskFault VerifiedBatchResult}

/-- Code of the loop outside of a request: a cancellation in it ends the loop. -/
theorem treats_of_task {α : Type} {site : AwaitSite} {p : ClientProgram α} {r : Except TaskFault α}
    (hsite : site ≠ .request) (h : Runs (task site p) t r) :
    AtDelivery (Treats pool (· ≠ .request) (raisedBy r)) t := by
  refine (atDelivery_task h).imp ?_
  rintro site' message after ⟨rfl, rfl, rfl⟩
  exact ⟨fun _ => ⟨rfl, rfl⟩, fun hnot => absurd hsite hnot⟩

theorem Asked.mem {endpoint : EndpointConfig} {result : Except TaskFault VerifiedBatchResult}
    {t₁ t₂ rest : List (Sigma TaskAns)} (h : Asked calls anchor excluded endpoint result t₁ t₂)
    (hpool : ∀ x ∈ t₁ ++ (t₂ ++ rest), pool.AnswersTask x) : endpoint ∈ pool.configs :=
  mem_of_selects h.selects (List.forall_mem_append.mp hpool).1

/-- A cancellation in an attempt is in its request, and is charged when the failure is recorded. -/
theorem Asked.treats {endpoint : EndpointConfig} {result : Except TaskFault VerifiedBatchResult}
    {raised : Option TaskFault} {t₁ t₂ rest : List (Sigma TaskAns)}
    (h : Asked calls anchor excluded endpoint result t₁ t₂) (hcharged : Charged pool rest)
    (hrest : AtDelivery (Treats pool (· ≠ .request) raised) rest) :
    AtDelivery (Treats pool (· ≠ .request) raised) (t₁ ++ (t₂ ++ rest)) := by
  refine atDelivery_append.mpr ⟨atDelivery_of_ok h.selects, atDelivery_append.mpr ⟨?_, hrest⟩⟩
  refine (atDelivery_task h.asks).imp ?_
  rintro site message after ⟨rfl, -, -⟩
  exact treats_of_charged (fun hnot => hnot rfl) hcharged

theorem treats_executeAttempts
    (h : Runs (executor.executeAttemptsTask calls anchor attempts excluded failed) t r)
    (hpool : ∀ x ∈ t, pool.AnswersTask x) :
    AtDelivery (Treats pool (· ≠ .request) (raisedBy r)) t := by
  induction attempts generalizing excluded failed t with
  | zero => exact treats_of_task AwaitSite.noConfusion h
  | succ attempts ih =>
    cases attemptWay_of_runs h with
    | fallback hselect hquorum =>
      refine atDelivery_append.mpr ⟨(atDelivery_task hselect).imp ?_,
        treats_of_task AwaitSite.noConfusion hquorum⟩
      rintro site message after ⟨-, -, hno⟩
      cases hno
    | unselected hselect _ =>
      have htreats : AtDelivery (Treats pool (· ≠ .request) (raisedBy _)) _ :=
        treats_of_task AwaitSite.noConfusion hselect
      exact htreats
    | returned hasked =>
      exact atDelivery_append.mpr ⟨atDelivery_of_ok hasked.selects, atDelivery_append.mpr
        ⟨atDelivery_of_ok hasked.asks, .of_undisturbed (undisturbed_now _ _)⟩⟩
    | raised hasked _ =>
      exact hasked.treats (charged_failureRecord (hasked.mem hpool) _ _ _)
        (.of_undisturbed (undisturbed_now _ _))
    | interrupted hasked _ =>
      refine hasked.treats (charged_failureRecord (hasked.mem hpool) _ _ _) ?_
      refine atDelivery_cons.mpr ⟨fun _ _ => nofun, atDelivery_cons.mpr ⟨?_, ?_⟩⟩
      · rintro site message ⟨⟩
        exact ⟨fun _ => ⟨rfl, rfl⟩, fun hnot => absurd AwaitSite.noConfusion hnot⟩
      · exact .of_undisturbed undisturbed_nil
    | next hasked _ hrest =>
      refine hasked.treats (charged_failureRecord (hasked.mem hpool) _ _ _) ?_
      refine atDelivery_cons.mpr ⟨fun _ _ => nofun, atDelivery_cons.mpr ⟨fun _ _ => nofun, ?_⟩⟩
      exact ih hrest fun x hx => hpool x (by simp [hx])

theorem asks_selectEndpoint (block : Option Nat) (requireEip1898 : Bool) (excluded : List String) :
    Asks RecordsNothing (selectEndpoint block requireEip1898 excluded) :=
  ⟨trivial, fun reply => .ofExcept reply⟩

/-- A batch that raises has recorded no success. -/
theorem no_success_executeAttempts {e : TaskFault}
    (h : Runs (executor.executeAttemptsTask calls anchor attempts excluded failed) t (.error e)) :
    ∀ x ∈ t, isSuccess x = false := by
  induction attempts generalizing excluded failed t with
  | zero => exact no_success_of_asks (asks_quorumFallback _ _ _ _) h
  | succ attempts ih =>
    have hattempt : ∀ {endpoint : EndpointConfig} {result : Except TaskFault VerifiedBatchResult}
        {t₁ t₂ rest : List (Sigma TaskAns)}, Asked calls anchor excluded endpoint result t₁ t₂ →
        (∀ x ∈ rest, isSuccess x = false) → ∀ x ∈ t₁ ++ (t₂ ++ rest), isSuccess x = false := by
      intro endpoint result t₁ t₂ rest hasked hrest
      exact List.forall_mem_append.mpr ⟨no_success_of_asks (asks_selectEndpoint _ _ _) hasked.selects,
        List.forall_mem_append.mpr ⟨no_success_of_asks (asks_executeEip1898 _ _ _) hasked.asks, hrest⟩⟩
    generalize hr : Except.error e = r at h
    cases attemptWay_of_runs h with
    | fallback hselect hquorum =>
      exact List.forall_mem_append.mpr ⟨no_success_of_asks (asks_selectEndpoint _ _ _) hselect,
        no_success_of_asks (asks_quorumFallback _ _ _ _) hquorum⟩
    | unselected hselect _ => exact no_success_of_asks (asks_selectEndpoint _ _ _) hselect
    | returned _ => cases hr
    | raised hasked _ => exact hattempt hasked (by simp [isSuccess, failureRecord])
    | interrupted hasked _ => exact hattempt hasked (by simp [isSuccess, failureRecord])
    | next hasked _ hrest =>
      subst hr
      exact hattempt hasked (List.forall_mem_cons.mpr ⟨rfl, List.forall_mem_cons.mpr ⟨rfl, ih hrest⟩⟩)

end LegacyRpcBatchExecutor

/-! ### The Multicall3 executor -/

namespace Multicall3Executor

variable {executor : Multicall3Executor} {calldata : List UInt8} {anchor : BlockRef}
  {attempts : Nat} {excluded : List String} {last : Option (EndpointConfig × RpcFailure)}
  {r : Except TaskFault ServedCall}

/-- A cancellation ends the loop, whatever it is delivered at. -/
def EndsLoop {α : Type} (r : Except TaskFault α) (_ : AwaitSite) (message : String)
    (after : List (Sigma TaskAns)) : Prop := after = [] ∧ r = .error (.cancelled message)

theorem atDelivery_backoffAfter {x : Except TaskFault Unit} (h : Runs (backoffAfter last) t x) :
    AtDelivery (EndsLoop x) t := by
  unfold backoffAfter at h
  split at h
  · obtain ⟨answer, rfl, rfl⟩ := runs_backoff_iff.mp h
    refine atDelivery_cons.mpr ⟨?_, .of_undisturbed undisturbed_nil⟩
    rintro site message ⟨⟩
    exact ⟨rfl, rfl⟩
  · obtain ⟨rfl, -⟩ := runs_ret_iff.mp h
    exact .of_undisturbed undisturbed_nil

/-- What was awaited before a request was not cancelled. -/
theorem Called.atDelivery {endpoint : EndpointConfig} {result : Except TaskFault String}
    {t₁ t₂ t₃ rest : List (Sigma TaskAns)} {P : AwaitSite → String → List (Sigma TaskAns) → Prop}
    (h : Called executor calldata anchor excluded last endpoint result t₁ t₂ t₃)
    (hrest : AtDelivery P rest) : AtDelivery P (t₁ ++ (t₂ ++ rest)) := by
  refine atDelivery_append.mpr ⟨atDelivery_of_ok h.selects, atDelivery_append.mpr ⟨?_, hrest⟩⟩
  exact (atDelivery_backoffAfter h.sleeps).imp fun _ _ _ ⟨_, hno⟩ => nomatch hno

/-- A request whose failure is recorded was not cancelled. -/
theorem Called.undelivered {endpoint : EndpointConfig} {result : Except TaskFault String}
    {t₁ t₂ t₃ : List (Sigma TaskAns)} {P : AwaitSite → String → List (Sigma TaskAns) → Prop}
    (h : Called executor calldata anchor excluded last endpoint result t₁ t₂ t₃)
    (hresult : ∀ message, result ≠ .error (.cancelled message)) : AtDelivery P t₃ := by
  obtain ⟨reference, -, hcall⟩ := h.calls
  exact (atDelivery_task hcall).imp fun _ message _ ⟨_, _, hno⟩ => absurd hno (hresult message)

theorem endsLoop_ethCallAttempts
    (h : Runs (executor.ethCallAttemptsTask calldata anchor attempts excluded last) t r) :
    AtDelivery (EndsLoop r) t := by
  induction attempts generalizing excluded last t with
  | zero =>
    obtain ⟨rfl, -⟩ := runs_raise_iff.mp h
    exact .of_undisturbed undisturbed_nil
  | succ attempts ih =>
    have hfailed : ∀ {e : TaskFault}, (∀ message, e ≠ .cancelled message) →
        ∀ message, (.error e : Except TaskFault String) ≠ .error (.cancelled message) :=
      fun he message hno => he message (Except.error.inj hno)
    cases ethCallWay_of_runs h with
    | unselected hselect =>
      refine (atDelivery_task hselect).imp ?_
      rintro site message after ⟨-, rfl, hno⟩
      exact ⟨rfl, congrArg Except.error (Except.error.inj hno)⟩
    | interrupted hselect hsleep =>
      refine atDelivery_append.mpr ⟨atDelivery_of_ok hselect, (atDelivery_backoffAfter hsleep).imp ?_⟩
      rintro site message after ⟨rfl, hno⟩
      exact ⟨rfl, congrArg Except.error (Except.error.inj hno)⟩
    | unreferenced hselect hsleep _ =>
      refine atDelivery_append.mpr ⟨atDelivery_of_ok hselect, (atDelivery_backoffAfter hsleep).imp ?_⟩
      rintro site message after ⟨-, hno⟩
      cases hno
    | returned hcalled =>
      exact hcalled.atDelivery (atDelivery_append.mpr
        ⟨hcalled.undelivered fun _ => nofun, .of_undisturbed (undisturbed_now _ _)⟩)
    | cancelled hcalled =>
      obtain ⟨reference, -, hcall⟩ := hcalled.calls
      refine hcalled.atDelivery ((atDelivery_task hcall).imp ?_)
      rintro site message after ⟨-, rfl, hno⟩
      exact ⟨rfl, congrArg Except.error (Except.error.inj hno)⟩
    | raised hcalled he _ =>
      exact hcalled.atDelivery (atDelivery_append.mpr
        ⟨hcalled.undelivered (hfailed he), .of_undisturbed (undisturbed_now _ _)⟩)
    | next hcalled he _ hrest =>
      exact hcalled.atDelivery (atDelivery_append.mpr
        ⟨hcalled.undelivered (hfailed he), atDelivery_cons.mpr ⟨fun _ _ => nofun, ih hrest⟩⟩)

end Multicall3Executor

/-! ## The three loops -/

/-- A call of one of the retry loops. -/
inductive RetryLoop where
  | call (client : AsyncRpcClient) (method : String) (params : List Json) (block : Option Nat)
    (requireEip1898 : Bool)
  | executeOnce (executor : LegacyRpcBatchExecutor) (calls : List ContractCall) (anchor : BlockRef)
  | ethCall (executor : Multicall3Executor) (calldata : List UInt8) (anchor : BlockRef)
    (exclude : List String)

namespace RetryLoop

/-- The run of a loop, and the exception that it ends in. -/
def RunsTo (loop : RetryLoop) (t : List (Sigma TaskAns)) (raised : Option TaskFault) : Prop :=
  match loop with
  | .call client method params block requireEip1898 =>
    ∃ r, Runs (client.call method params block requireEip1898) t r ∧ raisedBy r = raised
  | .executeOnce executor calls anchor =>
    ∃ r, Runs (executor.executeOnceTask calls anchor) t r ∧ raisedBy r = raised
  | .ethCall executor calldata anchor exclude =>
    ∃ r, Runs (executor.ethCallTask calldata anchor exclude) t r ∧ raisedBy r = raised

/-- The awaits that do not stand under `except BaseException`. -/
def LetsThrough (loop : RetryLoop) (site : AwaitSite) : Prop :=
  match loop with
  | .call _ _ _ _ _ => site = .backoff
  | .executeOnce _ _ _ => site ≠ .request
  | .ethCall _ _ _ _ => True

/-- Either way a cancellation goes. -/
theorem treats_of_runsTo {loop : RetryLoop} {raised : Option TaskFault} (h : loop.RunsTo t raised)
    (hpool : ∀ x ∈ t, pool.AnswersTask x) : AtDelivery (Treats pool loop.LetsThrough raised) t := by
  cases loop with
  | call client method params block requireEip1898 =>
    obtain ⟨r, hruns, rfl⟩ := h
    exact treats_callAttempts hruns hpool
  | executeOnce executor calls anchor =>
    obtain ⟨r, hruns, rfl⟩ := h
    exact LegacyRpcBatchExecutor.treats_executeAttempts hruns hpool
  | ethCall executor calldata anchor exclude =>
    obtain ⟨r, hruns, rfl⟩ := h
    refine (Multicall3Executor.endsLoop_ethCallAttempts hruns).imp ?_
    rintro site message after ⟨rfl, rfl⟩
    exact ⟨fun _ => ⟨rfl, rfl⟩, fun hnot => absurd trivial hnot⟩

/-- At an await that is guarded, a run that raises has recorded no success. -/
theorem no_success_of_runsTo {loop : RetryLoop} {e : TaskFault} (h : loop.RunsTo t (some e))
    {site : AwaitSite} (hsite : ¬ loop.LetsThrough site) : ∀ x ∈ t, isSuccess x = false := by
  have herror : ∀ {α : Type} {r : Except TaskFault α}, raisedBy r = some e → r = .error e := by
    intro α r hr
    cases r with
    | ok a => cases hr
    | error e' => rw [Option.some.inj hr]
  cases loop with
  | call client method params block requireEip1898 =>
    obtain ⟨r, hruns, hr⟩ := h
    exact no_success_callAttempts (herror hr ▸ hruns)
  | executeOnce executor calls anchor =>
    obtain ⟨r, hruns, hr⟩ := h
    exact LegacyRpcBatchExecutor.no_success_executeAttempts (herror hr ▸ hruns)
  | ethCall executor calldata anchor exclude => exact absurd trivial hsite

end RetryLoop

/-- A delivery leaves the pool as it is. -/
theorem recorded_delivered {x : Sigma TaskAns} {site : AwaitSite} {message : String} (ticks now : Nat)
    (pool : EndpointPool) (h : Delivered x site message) : pool.recorded ticks now x = pool := by
  cases h <;> rfl

/-- In each run of a loop, a cancellation that is delivered propagates and charges no endpoint exactly
when it is delivered at an await that is not guarded against everything. -/
theorem cancellation_propagates_iff (loop : RetryLoop) (pool : EndpointPool)
    (before after : List (Sigma TaskAns)) (x : Sigma TaskAns) (site : AwaitSite) (message : String)
    (raised : Option TaskFault) (hruns : loop.RunsTo (before ++ x :: after) raised)
    (hpool : ∀ y ∈ before ++ x :: after, pool.AnswersTask y) (hx : Delivered x site message) :
    (raised = some (.cancelled message) ∧ ∀ ticks clock,
        (EndpointPool.afterTrace ticks clock pool 0 (before ++ x :: after)).charges =
          (EndpointPool.afterTrace ticks clock pool 0 before).charges) ↔
      loop.LetsThrough site := by
  obtain ⟨hthrough, hguarded⟩ := RetryLoop.treats_of_runsTo hruns hpool before x after site message rfl hx
  constructor
  · rintro ⟨rfl, hspared⟩
    by_contra hsite
    obtain ⟨endpoint, hmem, hcharged⟩ := hguarded hsite rfl
    have hsuccess := RetryLoop.no_success_of_runsTo hruns hsite
    have hmiddle : (EndpointPool.afterTrace 0 (fun _ => 0) pool 0 before).configs = pool.configs :=
      EndpointPool.configs_afterTrace _ _ _ _ _
    have hsame := hspared 0 fun _ => 0
    rw [EndpointPool.afterTrace_append, EndpointPool.afterTrace, recorded_delivered _ _ _ hx] at hsame
    refine EndpointPool.charges_afterTrace_ne _ (fun y hy => hsuccess y (by simp [hy])) ?_ hsame
    exact ⟨endpoint, hmiddle ▸ hmem, hcharged⟩
  · intro hsite
    obtain ⟨rfl, hraised⟩ := hthrough hsite
    refine ⟨hraised, fun ticks clock => ?_⟩
    rw [EndpointPool.afterTrace_append, EndpointPool.afterTrace, recorded_delivered _ _ _ hx]
    rfl

/-! ## A request that is cancelled -/

/-- The only endpoint is asked, and the request is cancelled. -/
def cancelledRequest : List (Sigma TaskAns) := [
  ⟨.await .selection (.select (some 5) false []), .ok (.ok onlyEndpoint)⟩,
  ⟨.now .nextId, (1 : Nat)⟩,
  ⟨.await .request (.post onlyEndpoint (requestObject 1 "eth_call" []) 0), .error ""⟩]

/-- The cancellation is recorded as a failure of the endpoint. -/
def cancelledRest : List (Sigma TaskAns) :=
  [⟨.now (.recordFailure onlyEndpoint false (some 5) false), ()⟩]

def cancelledCall : RetryLoop := .call twoRetries "eth_call" [] (some 5) false

theorem runs_cancelled :
    cancelledCall.RunsTo (cancelledRequest ++ cancelledRest) (some (.cancelled "")) := by
  have hclassify : (TaskFault.cancelled "").classify = ⟨.permanent, false, false⟩ := by decide +kernel
  have hnormalize : (TaskFault.cancelled "").normalize = .cancelled "" := by
    rw [TaskFault.normalize, hclassify]
  have hrequest : Requested "eth_call" [] (some 5) false [] onlyEndpoint (.error (.cancelled ""))
      cancelledRequest := ⟨1, .error "", rfl, rfl⟩
  have hrecord : failureRecord onlyEndpoint (.cancelled "") (some 5) =
      ⟨.now (.recordFailure onlyEndpoint false (some 5) false), ()⟩ := by
    rw [failureRecord, hnormalize, hclassify]
    rfl
  have hfinal : Final (.cancelled "") := by
    rw [Final, hnormalize, hclassify]
    exact ⟨rfl, rfl⟩
  rw [cancelledRest, ← hrecord]
  exact ⟨_, runs_of_raised hrequest hfinal, congrArg some hnormalize⟩

theorem answers_cancelled : ∀ x ∈ cancelledRequest ++ cancelledRest, onlyPool.AnswersTask x := by
  have hselect : (onlyPool.select 0 (some 5) false []).1 = .ok onlyEndpoint := rfl
  intro x hx y hy
  simp only [cancelledRequest, cancelledRest, List.cons_append, List.nil_append, List.mem_cons,
    List.not_mem_nil, or_false] at hx
  rcases hx with rfl | rfl | rfl | rfl
  · obtain rfl := Option.some.inj hy
    exact ⟨onlyPool, 0, rfl, hselect⟩
  · obtain rfl := Option.some.inj hy
    trivial
  · cases hy
  · obtain rfl := Option.some.inj hy
    trivial

theorem cancellation_propagates_iff_cancelled :
    (some (.cancelled "") = some (TaskFault.cancelled "") ∧ ∀ ticks clock,
        (EndpointPool.afterTrace ticks clock onlyPool 0 (cancelledRequest ++ cancelledRest)).charges =
          (EndpointPool.afterTrace ticks clock onlyPool 0 (cancelledRequest.take 2)).charges) ↔
      cancelledCall.LetsThrough .request :=
  cancellation_propagates_iff cancelledCall onlyPool (cancelledRequest.take 2) cancelledRest
    ⟨.await .request (.post onlyEndpoint (requestObject 1 "eth_call" []) 0), .error ""⟩ .request "" _
    runs_cancelled answers_cancelled (.await _ _ _)

/-- A cancelled request is charged to the endpoint that it was sent to. -/
theorem cancellation_is_charged : ∃ before x after site message raised,
    cancelledCall.RunsTo (before ++ x :: after) raised ∧
      (∀ y ∈ before ++ x :: after, onlyPool.AnswersTask y) ∧ Delivered x site message ∧
      ¬ (raised = some (.cancelled message) ∧ ∀ ticks clock,
        (EndpointPool.afterTrace ticks clock onlyPool 0 (before ++ x :: after)).charges =
          (EndpointPool.afterTrace ticks clock onlyPool 0 before).charges) := by
  refine ⟨cancelledRequest.take 2, _, cancelledRest, .request, "", _, runs_cancelled,
    answers_cancelled, .await _ _ _, ?_⟩
  rintro ⟨-, hspared⟩
  exact absurd (hspared 0 fun _ => 0) (by decide +kernel)

end RpcStateIndexer
