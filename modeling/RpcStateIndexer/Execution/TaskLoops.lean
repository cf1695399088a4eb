import RpcStateIndexer.Execution.LegacyBatch
import RpcStateIndexer.Execution.Multicall
import RpcStateIndexer.Rpc.Tasks

/-!
# The loops of the executors as tasks

The retry loops of both executors with their backoffs and with what each does when it is cancelled.  A
run in which nothing is cancelled is a run of the loop as a program.
-/

namespace RpcStateIndexer

open Reasoning Program

/-! ## A failed attempt -/

/-- What the failure of an attempt raises, unless the next one is made. -/
def failureRaises (e : TaskFault) : Option TaskFault :=
  if e.normalize.classify.kind = .providerLimit then some (.fault (.providerLimit e.normalize.text))
  else if !e.normalize.classify.failover && !e.normalize.classify.retryable then some e.normalize
  else none

theorem failureRaises_fault (e : RpcFault) : failureRaises (.fault e) =
    if (classifyRpcFailure (normalizeRpcError e)).kind = .providerLimit then
      some (.fault (.providerLimit (normalizeRpcError e).text))
    else if !(classifyRpcFailure (normalizeRpcError e)).failover &&
      !(classifyRpcFailure (normalizeRpcError e)).retryable then some (.fault (normalizeRpcError e))
    else none := by
  rw [failureRaises, TaskFault.normalize_fault]
  rfl

/-- The failure of code that is not cancelled raises a failure of the RPC layer. -/
theorem exists_fault_of_raises {e : RpcFault} {raised : TaskFault}
    (h : failureRaises (.fault e) = some raised) : ∃ fault, raised = .fault fault := by
  rw [failureRaises_fault] at h
  split at h
  · exact ⟨_, (Option.some.inj h).symm⟩
  · split at h
    · exact ⟨_, (Option.some.inj h).symm⟩
    · cases h

/-- The record of a failure, as the program of a loop makes it. -/
def faultRecord (endpoint : EndpointConfig) (e : RpcFault) (block : Nat) : Sigma RpcAns :=
  ⟨.recordFailure endpoint (classifyRpcFailure (normalizeRpcError e)).failover (some block)
    ((classifyRpcFailure (normalizeRpcError e)).kind = .archiveUnavailable), ()⟩

theorem answeredOp_failureRecord (endpoint : EndpointConfig) (e : RpcFault) (block : Nat) :
    answeredOp (failureRecord endpoint (.fault e) (some block)) = some (faultRecord endpoint e block) := by
  rw [failureRecord, TaskFault.normalize_fault]
  rfl

theorem error_of_mapError {α : Type} {x : Except RpcFault α} {fault : RpcFault}
    (h : x.mapError TaskFault.fault = .error (.fault fault)) : x = .error fault := by
  cases x with
  | ok a => cases h
  | error e =>
    cases h
    rfl

/-! ## The legacy executor -/

namespace LegacyRpcBatchExecutor

/-- `attempts` are left; `failed` says whether an endpoint was tried before.  No handler of the quorum
catches a cancellation. -/
def executeAttemptsTask (executor : LegacyRpcBatchExecutor) (calls : List ContractCall)
    (anchor : BlockRef) : Nat → List String → Bool → TaskProgram VerifiedBatchResult
  | 0, _, failed => task .quorum (executor.quorumFallback calls anchor failed)
  | attempts + 1, excluded, failed => do
    let selected ← (task .selection (selectEndpoint (some anchor.number) true excluded)).outcome
    match selected with
    | .error (.fault (.noHealthyEndpoint _)) =>
      task .quorum (executor.quorumFallback calls anchor failed)
    | .error e => throw e
    | .ok endpoint => do
      let result ← (task .request (executeEip1898 endpoint calls anchor)).outcome
      match result with
      | .ok batch =>
        recordTaskSuccess endpoint
        return batch
      | .error e =>
        recordTaskFailure endpoint e.normalize.classify (some anchor.number)
        match failureRaises e with
        | some raised => throw raised
        | none => do
          backoff
          executeAttemptsTask executor calls anchor attempts (endpoint.name :: excluded) true

def executeOnceTask (executor : LegacyRpcBatchExecutor) (calls : List ContractCall) (anchor : BlockRef) :
    TaskProgram VerifiedBatchResult :=
  executor.executeAttemptsTask calls anchor executor.maxRetries [] false

section Attempt

variable (executor : LegacyRpcBatchExecutor) (calls : List ContractCall) (anchor : BlockRef)
  (attempts : Nat) (excluded : List String) (failed : Bool)

/-- The endpoint was selected, and the batch asked of it. -/
structure Asked (endpoint : EndpointConfig) (result : Except TaskFault VerifiedBatchResult)
    (t₁ t₂ : List (Sigma TaskAns)) : Prop where
  selects : Runs (task .selection (selectEndpoint (some anchor.number) true excluded)) t₁ (.ok endpoint)
  asks : Runs (task .request (executeEip1898 endpoint calls anchor)) t₂ result

/-- The ways an attempt goes. -/
inductive AttemptWay : List (Sigma TaskAns) → Except TaskFault VerifiedBatchResult → Prop
  | fallback {t₁ t₂ : List (Sigma TaskAns)} {r : Except TaskFault VerifiedBatchResult}
    {message : String}
    (hselect : Runs (task .selection (selectEndpoint (some anchor.number) true excluded)) t₁
      (.error (.fault (.noHealthyEndpoint message))))
    (hquorum : Runs (task .quorum (executor.quorumFallback calls anchor failed)) t₂ r) :
    AttemptWay (t₁ ++ t₂) r
  | unselected {t : List (Sigma TaskAns)} {e : TaskFault}
    (hselect : Runs (task .selection (selectEndpoint (some anchor.number) true excluded)) t (.error e))
    (he : ∀ message, e ≠ .fault (.noHealthyEndpoint message)) : AttemptWay t (.error e)
  | returned {endpoint : EndpointConfig} {batch : VerifiedBatchResult} {t₁ t₂ : List (Sigma TaskAns)}
    (h : Asked calls anchor excluded endpoint (.ok batch) t₁ t₂) :
    AttemptWay (t₁ ++ (t₂ ++ [⟨.now (.recordSuccess endpoint), ()⟩])) (.ok batch)
  | raised {endpoint : EndpointConfig} {e raised : TaskFault} {t₁ t₂ : List (Sigma TaskAns)}
    (h : Asked calls anchor excluded endpoint (.error e) t₁ t₂) (hraised : failureRaises e = some raised) :
    AttemptWay (t₁ ++ (t₂ ++ [failureRecord endpoint e (some anchor.number)])) (.error raised)
  | interrupted {endpoint : EndpointConfig} {e : TaskFault} {message : String}
    {t₁ t₂ : List (Sigma TaskAns)}
    (h : Asked calls anchor excluded endpoint (.error e) t₁ t₂) (hnext : failureRaises e = none) :
    AttemptWay (t₁ ++ (t₂ ++ [failureRecord endpoint e (some anchor.number),
      ⟨.sleep, .error message⟩])) (.error (.cancelled message))
  | next {endpoint : EndpointConfig} {e : TaskFault} {t₁ t₂ t₃ : List (Sigma TaskAns)}
    {r : Except TaskFault VerifiedBatchResult}
    (h : Asked calls anchor excluded endpoint (.error e) t₁ t₂) (hnext : failureRaises e = none)
    (hrest : Runs (executor.executeAttemptsTask calls anchor attempts (endpoint.name :: excluded) true)
      t₃ r) :
    AttemptWay (t₁ ++ (t₂ ++ failureRecord endpoint e (some anchor.number) :: ⟨.sleep, .ok ()⟩ :: t₃)) r

end Attempt

variable {executor : LegacyRpcBatchExecutor} {calls : List ContractCall} {anchor : BlockRef}
  {attempts : Nat} {excluded : List String} {failed : Bool} {t : List (Sigma TaskAns)}
  {r : Except TaskFault VerifiedBatchResult}

theorem attemptWay_of_runs
    (h : Runs (executor.executeAttemptsTask calls anchor (attempts + 1) excluded failed) t r) :
    AttemptWay executor calls anchor attempts excluded failed t r := by
  rw [executeAttemptsTask] at h
  obtain ⟨selected, t₁, t₂, rfl, h₁, h₂⟩ | ⟨_, h₁, -⟩ := runs_bind_iff.mp h
  swap
  · obtain ⟨_, hno, -⟩ := runs_outcome_iff.mp h₁
    cases hno
  obtain ⟨_, hselected, hselect⟩ := runs_outcome_iff.mp h₁
  obtain rfl := Except.ok.inj hselected
  cases selected with
  | error e =>
    by_cases he : ∃ message, e = .fault (.noHealthyEndpoint message)
    · obtain ⟨message, rfl⟩ := he
      exact .fallback hselect h₂
    · have hthrow : Runs (throw e : TaskProgram VerifiedBatchResult) t₂ r := by
        split at h₂
        · next heq =>
          obtain rfl := Except.error.inj heq
          exact absurd ⟨_, rfl⟩ he
        · next heq => exact Except.error.inj heq ▸ h₂
        · next heq => cases heq
      obtain ⟨rfl, rfl⟩ := runs_raise_iff.mp hthrow
      rw [List.append_nil]
      exact .unselected hselect fun message hmessage => he ⟨message, hmessage⟩
  | ok endpoint =>
    obtain ⟨result, t₃, t₄, rfl, h₃, h₄⟩ | ⟨_, h₃, -⟩ := runs_bind_iff.mp h₂
    swap
    · obtain ⟨_, hno, -⟩ := runs_outcome_iff.mp h₃
      cases hno
    obtain ⟨_, hresult, hrequest⟩ := runs_outcome_iff.mp h₃
    obtain rfl := Except.ok.inj hresult
    cases result with
    | ok batch =>
      obtain ⟨u, t₅, rfl, hret⟩ := runs_call_iff.mp h₄
      obtain ⟨rfl, rfl⟩ := runs_ret_iff.mp hret
      exact .returned ⟨hselect, hrequest⟩
    | error e =>
      obtain ⟨u, t₅, rfl, hafter⟩ := runs_call_iff.mp h₄
      change Runs (match failureRaises e with
        | some raised => throw raised
        | none => _) t₅ r at hafter
      cases hraises : failureRaises e with
      | some raised =>
        rw [hraises] at hafter
        obtain ⟨rfl, rfl⟩ := runs_raise_iff.mp hafter
        exact .raised ⟨hselect, hrequest⟩ hraises
      | none =>
        rw [hraises] at hafter
        obtain ⟨answer, t₆, rfl, hrest⟩ := runs_call_iff.mp hafter
        cases answer with
        | error message =>
          obtain ⟨rfl, rfl⟩ := runs_raise_iff.mp hrest
          exact .interrupted ⟨hselect, hrequest⟩ hraises
        | ok u => exact .next ⟨hselect, hrequest⟩ hraises hrest

/-- A failed attempt, in the program of the loop. -/
theorem runs_failed {endpoint : EndpointConfig} {e : RpcFault} {t₁ t₂ t₃ : List (Sigma RpcAns)}
    {x : Except RpcFault VerifiedBatchResult}
    (hselect : Runs (selectEndpoint (some anchor.number) true excluded) t₁ (.ok endpoint))
    (hask : Runs (executeEip1898 endpoint calls anchor) t₂ (.error e))
    (hrest : match failureRaises (.fault e) with
      | some raised => t₃ = [] ∧ x.mapError .fault = .error raised
      | none => Runs (executor.executeAttempts calls anchor attempts (endpoint.name :: excluded) true)
        t₃ x) :
    Runs (executor.executeAttempts calls anchor (attempts + 1) excluded failed)
      (t₁ ++ (t₂ ++ faultRecord endpoint e anchor.number :: t₃)) x := by
  rw [executeAttempts]
  refine runs_bind_iff.mpr (.inl ⟨.ok endpoint, t₁, _, rfl,
    runs_outcome_iff.mpr ⟨_, rfl, hselect⟩, ?_⟩)
  refine runs_bind_iff.mpr (.inl ⟨.error e, t₂, _, rfl,
    runs_outcome_iff.mpr ⟨_, rfl, hask⟩, .call ?_⟩)
  rw [failureRaises_fault] at hrest
  by_cases hlimit : (classifyRpcFailure (normalizeRpcError e)).kind = .providerLimit
  · rw [if_pos hlimit] at hrest
    obtain ⟨rfl, hx⟩ := hrest
    obtain rfl := error_of_mapError hx
    change Runs (if (classifyRpcFailure (normalizeRpcError e)).kind = .providerLimit then _ else _) _ _
    rw [if_pos hlimit]
    exact .raise _
  · change Runs (if (classifyRpcFailure (normalizeRpcError e)).kind = .providerLimit then _ else
      if (!(classifyRpcFailure (normalizeRpcError e)).failover &&
        !(classifyRpcFailure (normalizeRpcError e)).retryable) = true then _ else _) _ _
    rw [if_neg hlimit] at hrest ⊢
    by_cases hfinal : (!(classifyRpcFailure (normalizeRpcError e)).failover &&
        !(classifyRpcFailure (normalizeRpcError e)).retryable) = true
    · rw [if_pos hfinal] at hrest ⊢
      obtain ⟨rfl, hx⟩ := hrest
      obtain rfl := error_of_mapError hx
      exact .raise _
    · rw [if_neg hfinal] at hrest ⊢
      exact hrest

/-- The loop as a task that nothing cancels is the loop as a program. -/
theorem runs_executeAttempts (h : Runs (executor.executeAttemptsTask calls anchor attempts excluded failed)
    t r) (hquiet : Undisturbed t) : ∃ x, r = x.mapError .fault ∧
      Runs (executor.executeAttempts calls anchor attempts excluded failed) (t.filterMap answeredOp) x := by
  induction attempts generalizing excluded failed t with
  | zero => exact runs_of_undisturbed h hquiet
  | succ attempts ih =>
    cases attemptWay_of_runs h with
    | @fallback t₁ t₂ _ message hselect hquorum =>
      obtain ⟨hquiet₁, hquiet₂⟩ := undisturbed_append.mp hquiet
      obtain ⟨fault, hfault, hselect'⟩ := error_of_undisturbed hselect hquiet₁
      obtain rfl := TaskFault.fault.inj hfault
      obtain ⟨x, rfl, hquorum'⟩ := runs_of_undisturbed hquorum hquiet₂
      refine ⟨x, rfl, ?_⟩
      rw [executeAttempts, List.filterMap_append]
      exact runs_bind_iff.mpr (.inl ⟨_, _, _, rfl, runs_outcome_iff.mpr ⟨_, rfl, hselect'⟩, hquorum'⟩)
    | @unselected _ e hselect he =>
      obtain ⟨fault, rfl, hselect'⟩ := error_of_undisturbed hselect hquiet
      refine ⟨.error fault, rfl, ?_⟩
      rw [executeAttempts]
      refine runs_bind_iff.mpr (.inl ⟨_, _, [], (List.append_nil _).symm,
        runs_outcome_iff.mpr ⟨_, rfl, hselect'⟩, ?_⟩)
      split
      · next heq =>
        obtain rfl := Except.error.inj heq
        exact absurd rfl (he _)
      · next heq =>
        obtain rfl := Except.error.inj heq
        exact .raise _
      · next heq => cases heq
    | returned hasked =>
      obtain ⟨hquiet₁, hquiet'⟩ := undisturbed_append.mp hquiet
      obtain ⟨hquiet₂, -⟩ := undisturbed_append.mp hquiet'
      refine ⟨.ok _, rfl, ?_⟩
      rw [executeAttempts, List.filterMap_append, List.filterMap_append]
      refine runs_bind_iff.mpr (.inl ⟨_, _, _, rfl, runs_outcome_iff.mpr ⟨_, rfl,
        ok_of_undisturbed hasked.selects hquiet₁⟩, ?_⟩)
      refine runs_bind_iff.mpr (.inl ⟨_, _, _, rfl, runs_outcome_iff.mpr ⟨_, rfl,
        ok_of_undisturbed hasked.asks hquiet₂⟩, ?_⟩)
      exact .call (.ret _)
    | @raised endpoint e raised _ _ hasked hraised =>
      obtain ⟨hquiet₁, hquiet'⟩ := undisturbed_append.mp hquiet
      obtain ⟨hquiet₂, -⟩ := undisturbed_append.mp hquiet'
      obtain ⟨fault, rfl, hask⟩ := error_of_undisturbed hasked.asks hquiet₂
      obtain ⟨fault', rfl⟩ := exists_fault_of_raises hraised
      refine ⟨.error fault', rfl, ?_⟩
      rw [List.filterMap_append, List.filterMap_append,
        List.filterMap_cons_some (answeredOp_failureRecord endpoint fault _)]
      refine runs_failed (ok_of_undisturbed hasked.selects hquiet₁) hask ?_
      rw [hraised]
      exact ⟨rfl, rfl⟩
    | @interrupted _ _ message =>
      obtain ⟨-, hquiet'⟩ := undisturbed_append.mp hquiet
      obtain ⟨-, hquiet''⟩ := undisturbed_append.mp hquiet'
      exact absurd (.backoff message) (hquiet'' _ (by simp) .backoff message)
    | @next endpoint e _ _ _ _ hasked hnext hrest =>
      obtain ⟨hquiet₁, hquiet'⟩ := undisturbed_append.mp hquiet
      obtain ⟨hquiet₂, hquiet₃⟩ := undisturbed_append.mp hquiet'
      obtain ⟨fault, rfl, hask⟩ := error_of_undisturbed hasked.asks hquiet₂
      obtain ⟨x, rfl, hrest'⟩ := ih hrest
        (undisturbed_cons.mp (undisturbed_cons.mp hquiet₃).2).2
      refine ⟨x, rfl, ?_⟩
      rw [List.filterMap_append, List.filterMap_append,
        List.filterMap_cons_some (answeredOp_failureRecord endpoint fault _), List.filterMap_cons_none rfl]
      refine runs_failed (ok_of_undisturbed hasked.selects hquiet₁) hask ?_
      rw [hnext]
      exact hrest'

end LegacyRpcBatchExecutor

/-! ## The Multicall3 executor -/

namespace Multicall3Executor

/-- The endpoint of an attempt: one that can be selected, or the busy one that failed last. -/
def selectAgain (anchor : BlockRef) (excluded : List String)
    (last : Option (EndpointConfig × RpcFailure)) : ClientProgram EndpointConfig :=
  tryCatch (select anchor excluded) fun e => ofExcept (reselect last e)

/-- No attempt is slept on before the first failure. -/
def backoffAfter (last : Option (EndpointConfig × RpcFailure)) : TaskProgram Unit :=
  if last.isSome then backoff else return ()

/-- `attempts` are left; a cancellation is raised again wherever it is caught. -/
def ethCallAttemptsTask (executor : Multicall3Executor) (calldata : List UInt8) (anchor : BlockRef) :
    Nat → List String → Option (EndpointConfig × RpcFailure) → TaskProgram ServedCall
  | 0, _, _ => throw (.fault exhausted)
  | attempts + 1, excluded, last => do
    let endpoint ← task .selection (selectAgain anchor excluded last)
    backoffAfter last
    let reference ← ofExcept ((anchorReference endpoint anchor).mapError TaskFault.fault)
    let result ← (task .request (executor.callPinned endpoint calldata anchor reference)).outcome
    match result with
    | .ok encoded =>
      recordTaskSuccess endpoint
      return ⟨encoded, endpoint, referenceKind endpoint⟩
    | .error (.cancelled message) => throw (.cancelled message)
    | .error e =>
      recordTaskFailure endpoint e.normalize.classify (some anchor.number)
      match failureRaises e with
      | some raised => throw raised
      | none =>
        ethCallAttemptsTask executor calldata anchor attempts
          (if e.normalize.classify.failover then endpoint.name :: excluded else excluded)
          (some (endpoint, e.normalize.classify))

def ethCallTask (executor : Multicall3Executor) (calldata : List UInt8) (anchor : BlockRef)
    (exclude : List String) : TaskProgram ServedCall :=
  executor.ethCallAttemptsTask calldata anchor executor.maxRetries exclude none

section Attempt

variable (executor : Multicall3Executor) (calldata : List UInt8) (anchor : BlockRef)
  (attempts : Nat) (excluded : List String) (last : Option (EndpointConfig × RpcFailure))

/-- The endpoint was selected, and after the backoff the call was made on it. -/
structure Called (endpoint : EndpointConfig) (result : Except TaskFault String)
    (t₁ t₂ t₃ : List (Sigma TaskAns)) : Prop where
  selects : Runs (task .selection (selectAgain anchor excluded last)) t₁ (.ok endpoint)
  sleeps : Runs (backoffAfter last) t₂ (.ok ())
  calls : ∃ reference, anchorReference endpoint anchor = .ok reference ∧
    Runs (task .request (executor.callPinned endpoint calldata anchor reference)) t₃ result

/-- The ways an attempt goes. -/
inductive EthCallWay : List (Sigma TaskAns) → Except TaskFault ServedCall → Prop
  | unselected {t : List (Sigma TaskAns)} {e : TaskFault}
    (hselect : Runs (task .selection (selectAgain anchor excluded last)) t (.error e)) :
    EthCallWay t (.error e)
  | interrupted {endpoint : EndpointConfig} {t₁ t₂ : List (Sigma TaskAns)} {e : TaskFault}
    (hselect : Runs (task .selection (selectAgain anchor excluded last)) t₁ (.ok endpoint))
    (hsleep : Runs (backoffAfter last) t₂ (.error e)) : EthCallWay (t₁ ++ t₂) (.error e)
  | unreferenced {endpoint : EndpointConfig} {t₁ t₂ : List (Sigma TaskAns)} {e : RpcFault}
    (hselect : Runs (task .selection (selectAgain anchor excluded last)) t₁ (.ok endpoint))
    (hsleep : Runs (backoffAfter last) t₂ (.ok ())) (href : anchorReference endpoint anchor = .error e) :
    EthCallWay (t₁ ++ t₂) (.error (.fault e))
  | returned {endpoint : EndpointConfig} {encoded : String} {t₁ t₂ t₃ : List (Sigma TaskAns)}
    (h : Called executor calldata anchor excluded last endpoint (.ok encoded) t₁ t₂ t₃) :
    EthCallWay (t₁ ++ (t₂ ++ (t₃ ++ [⟨.now (.recordSuccess endpoint), ()⟩])))
      (.ok ⟨encoded, endpoint, referenceKind endpoint⟩)
  | cancelled {endpoint : EndpointConfig} {message : String} {t₁ t₂ t₃ : List (Sigma TaskAns)}
    (h : Called executor calldata anchor excluded last endpoint (.error (.cancelled message)) t₁ t₂ t₃) :
    EthCallWay (t₁ ++ (t₂ ++ t₃)) (.error (.cancelled message))
  | raised {endpoint : EndpointConfig} {e raised : TaskFault} {t₁ t₂ t₃ : List (Sigma TaskAns)}
    (h : Called executor calldata anchor excluded last endpoint (.error e) t₁ t₂ t₃)
    (he : ∀ message, e ≠ .cancelled message) (hraised : failureRaises e = some raised) :
    EthCallWay (t₁ ++ (t₂ ++ (t₃ ++ [failureRecord endpoint e (some anchor.number)]))) (.error raised)
  | next {endpoint : EndpointConfig} {e : TaskFault} {t₁ t₂ t₃ t₄ : List (Sigma TaskAns)}
    {r : Except TaskFault ServedCall}
    (h : Called executor calldata anchor excluded last endpoint (.error e) t₁ t₂ t₃)
    (he : ∀ message, e ≠ .cancelled message) (hnext : failureRaises e = none)
    (hrest : Runs (executor.ethCallAttemptsTask calldata anchor attempts
      (if e.normalize.classify.failover then endpoint.name :: excluded else excluded)
      (some (endpoint, e.normalize.classify))) t₄ r) :
    EthCallWay (t₁ ++ (t₂ ++ (t₃ ++ failureRecord endpoint e (some anchor.number) :: t₄))) r

end Attempt

variable {executor : Multicall3Executor} {calldata : List UInt8} {anchor : BlockRef}
  {attempts : Nat} {excluded : List String} {last : Option (EndpointConfig × RpcFailure)}
  {t : List (Sigma TaskAns)} {r : Except TaskFault ServedCall}

theorem ethCallWay_of_runs
    (h : Runs (executor.ethCallAttemptsTask calldata anchor (attempts + 1) excluded last) t r) :
    EthCallWay executor calldata anchor attempts excluded last t r := by
  rw [ethCallAttemptsTask] at h
  obtain ⟨endpoint, t₁, t₂, rfl, hselect, h₂⟩ | ⟨e, hselect, rfl⟩ := runs_bind_iff.mp h
  swap
  · exact .unselected hselect
  obtain ⟨⟨⟩, t₃, t₄, rfl, hsleep, h₄⟩ | ⟨e, hsleep, rfl⟩ := runs_bind_iff.mp h₂
  swap
  · exact .interrupted hselect hsleep
  cases href : anchorReference endpoint anchor with
  | error e =>
    rw [href] at h₄
    obtain ⟨rfl, rfl⟩ := runs_raise_iff.mp h₄
    rw [List.append_nil]
    exact .unreferenced hselect hsleep href
  | ok reference =>
    rw [href] at h₄
    change Runs ((task .request (executor.callPinned endpoint calldata anchor reference)).outcome >>= _)
      t₄ r at h₄
    obtain ⟨result, t₅, t₆, rfl, h₅, h₆⟩ | ⟨_, h₅, -⟩ := runs_bind_iff.mp h₄
    swap
    · obtain ⟨_, hno, -⟩ := runs_outcome_iff.mp h₅
      cases hno
    obtain ⟨_, hresult, hrequest⟩ := runs_outcome_iff.mp h₅
    obtain rfl := Except.ok.inj hresult
    have hcalled : Called executor calldata anchor excluded last endpoint result t₁ t₃ t₅ :=
      ⟨hselect, hsleep, reference, href, hrequest⟩
    cases result with
    | ok encoded =>
      obtain ⟨u, t₇, rfl, hret⟩ := runs_call_iff.mp h₆
      obtain ⟨rfl, rfl⟩ := runs_ret_iff.mp hret
      exact .returned hcalled
    | error e =>
      by_cases he : ∃ message, e = .cancelled message
      · obtain ⟨message, rfl⟩ := he
        obtain ⟨rfl, rfl⟩ := runs_raise_iff.mp h₆
        rw [List.append_nil]
        exact .cancelled hcalled
      · have hnot : ∀ message, e ≠ .cancelled message := fun message hmessage => he ⟨message, hmessage⟩
        have hhandled : Runs (do
            recordTaskFailure endpoint e.normalize.classify (some anchor.number)
            match failureRaises e with
            | some raised => throw raised
            | none =>
              ethCallAttemptsTask executor calldata anchor attempts
                (if e.normalize.classify.failover then endpoint.name :: excluded else excluded)
                (some (endpoint, e.normalize.classify))) t₆ r := by
          split at h₆
          · next heq => cases heq
          · next heq =>
            obtain rfl := Except.error.inj heq
            exact absurd rfl (hnot _)
          · next heq =>
            obtain rfl := Except.error.inj heq
            exact h₆
        obtain ⟨u, t₇, rfl, hafter⟩ := runs_call_iff.mp hhandled
        change Runs (match failureRaises e with
          | some raised => throw raised
          | none => _) t₇ r at hafter
        cases hraises : failureRaises e with
        | some raised =>
          rw [hraises] at hafter
          obtain ⟨rfl, rfl⟩ := runs_raise_iff.mp hafter
          exact .raised hcalled hnot hraises
        | none =>
          rw [hraises] at hafter
          exact .next hcalled hnot hraises hafter

/-- A failed attempt, in the program of the loop. -/
theorem runs_ethCall_failed {endpoint : EndpointConfig} {reference : Json} {e : RpcFault}
    {t₁ t₂ t₃ : List (Sigma RpcAns)} {x : Except RpcFault ServedCall}
    (hselect : Runs (selectAgain anchor excluded last) t₁ (.ok endpoint))
    (href : anchorReference endpoint anchor = .ok reference)
    (hcall : Runs (executor.callPinned endpoint calldata anchor reference) t₂ (.error e))
    (hrest : match failureRaises (.fault e) with
      | some raised => t₃ = [] ∧ x.mapError .fault = .error raised
      | none => Runs (executor.ethCallAttempts calldata anchor attempts
        (if (classifyRpcFailure (normalizeRpcError e)).failover then endpoint.name :: excluded
          else excluded) (some (endpoint, classifyRpcFailure (normalizeRpcError e)))) t₃ x) :
    Runs (executor.ethCallAttempts calldata anchor (attempts + 1) excluded last)
      (t₁ ++ (t₂ ++ faultRecord endpoint e anchor.number :: t₃)) x := by
  rw [ethCallAttempts]
  refine runs_bind_iff.mpr (.inl ⟨endpoint, t₁, _, rfl, hselect, ?_⟩)
  rw [href]
  refine runs_bind_iff.mpr (.inl ⟨reference, [], _, rfl, .ret _, ?_⟩)
  refine runs_bind_iff.mpr (.inl ⟨.error e, t₂, _, rfl,
    runs_outcome_iff.mpr ⟨_, rfl, hcall⟩, .call ?_⟩)
  rw [failureRaises_fault, Bool.and_comm] at hrest
  by_cases hlimit : (classifyRpcFailure (normalizeRpcError e)).kind = .providerLimit
  · rw [if_pos hlimit] at hrest
    obtain ⟨rfl, hx⟩ := hrest
    obtain rfl := error_of_mapError hx
    change Runs (if (classifyRpcFailure (normalizeRpcError e)).kind = .providerLimit then _ else _) _ _
    rw [if_pos hlimit]
    exact .raise _
  · change Runs (if (classifyRpcFailure (normalizeRpcError e)).kind = .providerLimit then _ else
      if (!(classifyRpcFailure (normalizeRpcError e)).retryable &&
        !(classifyRpcFailure (normalizeRpcError e)).failover) = true then _ else _) _ _
    rw [if_neg hlimit] at hrest ⊢
    by_cases hfinal : (!(classifyRpcFailure (normalizeRpcError e)).retryable &&
        !(classifyRpcFailure (normalizeRpcError e)).failover) = true
    · rw [if_pos hfinal] at hrest ⊢
      obtain ⟨rfl, hx⟩ := hrest
      obtain rfl := error_of_mapError hx
      exact .raise _
    · rw [if_neg hfinal] at hrest ⊢
      exact hrest

theorem runs_backoffAfter {x : Except TaskFault Unit} (h : Runs (backoffAfter last) t x)
    (hquiet : Undisturbed t) : x = .ok () ∧ t.filterMap answeredOp = [] := by
  unfold backoffAfter at h
  split at h
  · obtain ⟨answer, rfl, rfl⟩ := runs_backoff_iff.mp h
    cases answer with
    | ok u => exact ⟨rfl, rfl⟩
    | error message => exact absurd (.backoff message) (hquiet _ List.mem_cons_self .backoff message)
  · obtain ⟨rfl, rfl⟩ := runs_ret_iff.mp h
    exact ⟨rfl, rfl⟩

/-- The loop as a task that nothing cancels is the loop as a program. -/
theorem runs_ethCallAttempts
    (h : Runs (executor.ethCallAttemptsTask calldata anchor attempts excluded last) t r)
    (hquiet : Undisturbed t) : ∃ x, r = x.mapError .fault ∧
      Runs (executor.ethCallAttempts calldata anchor attempts excluded last) (t.filterMap answeredOp) x := by
  induction attempts generalizing excluded last t with
  | zero =>
    obtain ⟨rfl, rfl⟩ := runs_raise_iff.mp h
    exact ⟨.error exhausted, rfl, .raise _⟩
  | succ attempts ih =>
    cases ethCallWay_of_runs h with
    | unselected hselect =>
      obtain ⟨fault, rfl, hselect'⟩ := error_of_undisturbed hselect hquiet
      refine ⟨.error fault, rfl, ?_⟩
      rw [ethCallAttempts]
      exact runs_bind_iff.mpr (.inr ⟨fault, hselect', rfl⟩)
    | interrupted _ hsleep =>
      obtain ⟨-, hquiet₂⟩ := undisturbed_append.mp hquiet
      obtain ⟨hno, -⟩ := runs_backoffAfter hsleep hquiet₂
      cases hno
    | @unreferenced _ _ _ e hselect hsleep href =>
      obtain ⟨hquiet₁, hquiet₂⟩ := undisturbed_append.mp hquiet
      refine ⟨.error e, rfl, ?_⟩
      rw [ethCallAttempts, List.filterMap_append, (runs_backoffAfter hsleep hquiet₂).2]
      refine runs_bind_iff.mpr (.inl ⟨_, _, [], rfl, ok_of_undisturbed hselect hquiet₁, ?_⟩)
      rw [href]
      exact .raise _
    | returned hcalled =>
      obtain ⟨hquiet₁, hquiet'⟩ := undisturbed_append.mp hquiet
      obtain ⟨hquiet₂, hquiet''⟩ := undisturbed_append.mp hquiet'
      obtain ⟨hquiet₃, -⟩ := undisturbed_append.mp hquiet''
      obtain ⟨reference, href, hcall⟩ := hcalled.calls
      refine ⟨.ok _, rfl, ?_⟩
      rw [ethCallAttempts, List.filterMap_append, List.filterMap_append, List.filterMap_append,
        (runs_backoffAfter hcalled.sleeps hquiet₂).2]
      refine runs_bind_iff.mpr (.inl ⟨_, _, _, rfl, ok_of_undisturbed hcalled.selects hquiet₁, ?_⟩)
      rw [href]
      refine runs_bind_iff.mpr (.inl ⟨reference, [], _, rfl, .ret _, ?_⟩)
      refine runs_bind_iff.mpr (.inl ⟨_, _, _, rfl, runs_outcome_iff.mpr ⟨_, rfl,
        ok_of_undisturbed hcall hquiet₃⟩, ?_⟩)
      exact .call (.ret _)
    | cancelled hcalled =>
      obtain ⟨-, hquiet'⟩ := undisturbed_append.mp hquiet
      obtain ⟨-, hquiet₃⟩ := undisturbed_append.mp hquiet'
      obtain ⟨reference, -, hcall⟩ := hcalled.calls
      obtain ⟨fault, hno, -⟩ := error_of_undisturbed hcall hquiet₃
      cases hno
    | @raised endpoint e raised _ _ _ hcalled he hraised =>
      obtain ⟨hquiet₁, hquiet'⟩ := undisturbed_append.mp hquiet
      obtain ⟨hquiet₂, hquiet''⟩ := undisturbed_append.mp hquiet'
      obtain ⟨hquiet₃, -⟩ := undisturbed_append.mp hquiet''
      obtain ⟨reference, href, hcall⟩ := hcalled.calls
      obtain ⟨fault, rfl, hcall'⟩ := error_of_undisturbed hcall hquiet₃
      obtain ⟨fault', rfl⟩ := exists_fault_of_raises hraised
      refine ⟨.error fault', rfl, ?_⟩
      rw [List.filterMap_append, List.filterMap_append, List.filterMap_append,
        (runs_backoffAfter hcalled.sleeps hquiet₂).2, List.nil_append,
        List.filterMap_cons_some (answeredOp_failureRecord endpoint fault _)]
      refine runs_ethCall_failed (ok_of_undisturbed hcalled.selects hquiet₁) href hcall' ?_
      rw [hraised]
      exact ⟨rfl, rfl⟩
    | @next endpoint e _ _ _ _ _ hcalled he hnext hrest =>
      obtain ⟨hquiet₁, hquiet'⟩ := undisturbed_append.mp hquiet
      obtain ⟨hquiet₂, hquiet''⟩ := undisturbed_append.mp hquiet'
      obtain ⟨hquiet₃, hquiet₄⟩ := undisturbed_append.mp hquiet''
      obtain ⟨reference, href, hcall⟩ := hcalled.calls
      obtain ⟨fault, rfl, hcall'⟩ := error_of_undisturbed hcall hquiet₃
      obtain ⟨x, rfl, hrest'⟩ := ih hrest (undisturbed_cons.mp hquiet₄).2
      refine ⟨x, rfl, ?_⟩
      rw [List.filterMap_append, List.filterMap_append, List.filterMap_append,
        (runs_backoffAfter hcalled.sleeps hquiet₂).2, List.nil_append,
        List.filterMap_cons_some (answeredOp_failureRecord endpoint fault _)]
      refine runs_ethCall_failed (ok_of_undisturbed hcalled.selects hquiet₁) href hcall' ?_
      rw [hnext]
      rw [TaskFault.normalize_fault] at hrest'
      exact hrest'

end Multicall3Executor

end RpcStateIndexer
