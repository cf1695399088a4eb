import RpcStateIndexer.Reasoning.Exclusion
import RpcStateIndexer.Rpc.Tasks

/-!
# The call with failover

`AsyncRpcClient.call` sends a request to one endpoint after another.  A failed request and a failed
selection both overwrite `last_error`, which decides what is raised in the end.
-/

namespace RpcStateIndexer

open Reasoning Program

structure AsyncRpcClient where
  maxRetries : Nat
  maxRetries_pos : 1 ≤ maxRetries

namespace AsyncRpcClient

/-- What is raised once no attempt is left or no endpoint is. -/
def giveUp (method : String) (lastError : Option TaskFault) : TaskFault :=
  match lastError with
  | some (.fault (.archiveUnavailable message)) => .fault (.archiveUnavailable message)
  | _ => .attemptsExhausted s!"{method} exhausted RPC endpoints"

/-- `attempts` are left. -/
def callAttempts (method : String) (params : List Json) (historicalBlock : Option Nat)
    (requireEip1898 : Bool) :
    Nat → List String → Option TaskFault → TaskProgram (Json × EndpointConfig)
  | 0, _, lastError => throw (giveUp method lastError)
  | attempts + 1, excluded, _ => do
    let selected ← (task .selection (selectEndpoint historicalBlock requireEip1898 excluded)).outcome
    match selected with
    | .error e => throw (giveUp method (some e))
    | .ok endpoint => do
      let result ← (task .request (callOnEndpoint endpoint method params 0)).outcome
      match result with
      | .ok value =>
        recordTaskSuccess endpoint
        return (value, endpoint)
      | .error e =>
        let normalized := e.normalize
        let failure := normalized.classify
        recordTaskFailure endpoint failure historicalBlock
        if !failure.retryable && !failure.failover then throw normalized
        else do
          backoff
          callAttempts method params historicalBlock requireEip1898 attempts
            (if failure.failover then endpoint.name :: excluded else excluded) (some normalized)

def call (client : AsyncRpcClient) (method : String) (params : List Json)
    (historicalBlock : Option Nat) (requireEip1898 : Bool) : TaskProgram (Json × EndpointConfig) :=
  callAttempts method params historicalBlock requireEip1898 client.maxRetries [] none

end AsyncRpcClient

/-! ## One attempt -/

/-- The failure of a request gives the next attempt up. -/
def Final (e : TaskFault) : Prop :=
  e.normalize.classify.retryable = false ∧ e.normalize.classify.failover = false

theorem final_iff {e : TaskFault} :
    (!e.normalize.classify.retryable && !e.normalize.classify.failover) = true ↔ Final e := by
  rw [Bool.and_eq_true, Bool.not_eq_true', Bool.not_eq_true', Final]

/-- The endpoints to leave out after a failed request. -/
def excludedAfter (endpoint : EndpointConfig) (e : TaskFault) (excluded : List String) : List String :=
  if e.normalize.classify.failover then endpoint.name :: excluded else excluded

section Attempt

variable (method : String) (params : List Json) (block : Option Nat) (requireEip1898 : Bool)
  (attempts : Nat) (excluded : List String)

/-- The selection that returned an endpoint, and what its request did. -/
structure Requested (endpoint : EndpointConfig) (result : Except TaskFault Json)
    (t : List (Sigma TaskAns)) : Prop where
  exists_eq : ∃ requestId answer, t = [
      ⟨.await .selection (.select block requireEip1898 excluded), .ok (.ok endpoint)⟩,
      ⟨.now .nextId, requestId⟩,
      ⟨.await .request (.post endpoint (requestObject requestId method params) 0), answer⟩] ∧
    result = requestResult requestId answer

/-- The ways an attempt goes. -/
inductive CallStep : List (Sigma TaskAns) → Except TaskFault (Json × EndpointConfig) → Prop
  | unselected {answer : Except String (Except RpcFault EndpointConfig)} {e : TaskFault}
    (h : awaited answer = .error e) :
    CallStep [⟨.await .selection (.select block requireEip1898 excluded), answer⟩]
      (.error (AsyncRpcClient.giveUp method (some e)))
  | returned {endpoint : EndpointConfig} {value : Json} {t : List (Sigma TaskAns)}
    (h : Requested method params block requireEip1898 excluded endpoint (.ok value) t) :
    CallStep (t ++ [⟨.now (.recordSuccess endpoint), ()⟩]) (.ok (value, endpoint))
  | raised {endpoint : EndpointConfig} {e : TaskFault} {t : List (Sigma TaskAns)}
    (h : Requested method params block requireEip1898 excluded endpoint (.error e) t)
    (hfinal : Final e) :
    CallStep (t ++ [failureRecord endpoint e block]) (.error e.normalize)
  | interrupted {endpoint : EndpointConfig} {e : TaskFault} {t : List (Sigma TaskAns)}
    {message : String}
    (h : Requested method params block requireEip1898 excluded endpoint (.error e) t)
    (hfinal : ¬ Final e) :
    CallStep (t ++ [failureRecord endpoint e block, ⟨.sleep, .error message⟩])
      (.error (.cancelled message))
  | next {endpoint : EndpointConfig} {e : TaskFault} {t t' : List (Sigma TaskAns)}
    {r : Except TaskFault (Json × EndpointConfig)}
    (h : Requested method params block requireEip1898 excluded endpoint (.error e) t)
    (hfinal : ¬ Final e)
    (hrest : Runs (AsyncRpcClient.callAttempts method params block requireEip1898 attempts
      (excludedAfter endpoint e excluded) (some e.normalize)) t' r) :
    CallStep (t ++ failureRecord endpoint e block :: ⟨.sleep, .ok ()⟩ :: t') r

end Attempt

variable {method : String} {params : List Json} {block : Option Nat} {requireEip1898 : Bool}
  {attempts : Nat} {excluded : List String} {lastError : Option TaskFault}
  {t : List (Sigma TaskAns)} {r : Except TaskFault (Json × EndpointConfig)}

theorem callStep_of_runs (h : Runs (AsyncRpcClient.callAttempts method params block requireEip1898
    (attempts + 1) excluded lastError) t r) :
    CallStep method params block requireEip1898 attempts excluded t r := by
  rw [AsyncRpcClient.callAttempts] at h
  obtain ⟨selected, t₁, t₂, rfl, h₁, h₂⟩ | ⟨e, h₁, rfl⟩ := runs_bind_iff.mp h
  swap
  · obtain ⟨_, hno, -⟩ := runs_outcome_iff.mp h₁
    cases hno
  obtain ⟨_, hselected, hselect⟩ := runs_outcome_iff.mp h₁
  obtain rfl := Except.ok.inj hselected
  obtain ⟨answer, rfl, hanswer⟩ := runs_selection_iff.mp hselect
  cases selected with
  | error e =>
    obtain ⟨rfl, rfl⟩ := runs_raise_iff.mp h₂
    exact .unselected hanswer.symm
  | ok endpoint =>
    obtain rfl : answer = .ok (.ok endpoint) := by
      match answer with
      | .error message => cases hanswer
      | .ok (.error e) => cases hanswer
      | .ok (.ok _) =>
        cases hanswer
        rfl
    obtain ⟨result, t₃, t₄, rfl, h₃, h₄⟩ | ⟨e, h₃, rfl⟩ := runs_bind_iff.mp h₂
    swap
    · obtain ⟨_, hno, -⟩ := runs_outcome_iff.mp h₃
      cases hno
    obtain ⟨_, hresult, hrequest⟩ := runs_outcome_iff.mp h₃
    obtain rfl := Except.ok.inj hresult
    obtain ⟨requestId, reply, rfl, hreply⟩ := runs_request_iff.mp hrequest
    have hrequested : Requested method params block requireEip1898 excluded endpoint result [
        ⟨.await .selection (.select block requireEip1898 excluded), .ok (.ok endpoint)⟩,
        ⟨.now .nextId, requestId⟩,
        ⟨.await .request (.post endpoint (requestObject requestId method params) 0), reply⟩] :=
      ⟨requestId, reply, rfl, hreply⟩
    cases result with
    | ok value =>
      obtain ⟨u, t₅, rfl, hret⟩ := runs_call_iff.mp h₄
      obtain ⟨rfl, rfl⟩ := runs_ret_iff.mp hret
      exact .returned hrequested
    | error e =>
      obtain ⟨u, t₅, rfl, hafter⟩ := runs_call_iff.mp h₄
      change Runs (if (!e.normalize.classify.retryable && !e.normalize.classify.failover) = true then _
        else _) t₅ r at hafter
      by_cases hfinal : Final e
      · rw [if_pos (final_iff.mpr hfinal)] at hafter
        obtain ⟨rfl, rfl⟩ := runs_raise_iff.mp hafter
        exact .raised hrequested hfinal
      · rw [if_neg (final_iff.not.mpr hfinal)] at hafter
        obtain ⟨answer, t₆, rfl, hrest⟩ := runs_call_iff.mp hafter
        cases answer with
        | error message =>
          obtain ⟨rfl, rfl⟩ := runs_raise_iff.mp hrest
          exact .interrupted hrequested hfinal
        | ok u => exact .next hrequested hfinal hrest

theorem runs_of_unselected {answer : Except String (Except RpcFault EndpointConfig)} {e : TaskFault}
    (h : awaited answer = .error e) :
    Runs (AsyncRpcClient.callAttempts method params block requireEip1898 (attempts + 1) excluded
      lastError) [⟨.await .selection (.select block requireEip1898 excluded), answer⟩]
      (.error (AsyncRpcClient.giveUp method (some e))) := by
  rw [AsyncRpcClient.callAttempts]
  exact runs_bind_iff.mpr (.inl ⟨_, _, [], rfl,
    runs_outcome_iff.mpr ⟨_, rfl, runs_selection_iff.mpr ⟨answer, rfl, h.symm⟩⟩, .raise _⟩)

/-- A request that fails is recorded, and then it is decided whether there is another. -/
theorem runs_of_failed {endpoint : EndpointConfig} {e : TaskFault} {t' : List (Sigma TaskAns)}
    (h : Requested method params block requireEip1898 excluded endpoint (.error e) t)
    (hrest : Runs (if (!e.normalize.classify.retryable && !e.normalize.classify.failover) = true
      then throw e.normalize
      else do
        backoff
        AsyncRpcClient.callAttempts method params block requireEip1898 attempts
          (excludedAfter endpoint e excluded) (some e.normalize)) t' r) :
    Runs (AsyncRpcClient.callAttempts method params block requireEip1898 (attempts + 1) excluded
      lastError) (t ++ failureRecord endpoint e block :: t') r := by
  obtain ⟨requestId, answer, rfl, he⟩ := h.exists_eq
  rw [AsyncRpcClient.callAttempts]
  refine runs_bind_iff.mpr (.inl ⟨.ok endpoint, [_], _, rfl, runs_outcome_iff.mpr ⟨_, rfl,
    runs_selection_iff.mpr ⟨.ok (.ok endpoint), rfl, rfl⟩⟩, ?_⟩)
  exact runs_bind_iff.mpr (.inl ⟨.error e, [_, _], _, rfl, runs_outcome_iff.mpr ⟨_, rfl,
    runs_request_iff.mpr ⟨requestId, answer, rfl, he⟩⟩, .call hrest⟩)

theorem runs_of_raised {endpoint : EndpointConfig} {e : TaskFault}
    (h : Requested method params block requireEip1898 excluded endpoint (.error e) t)
    (hfinal : Final e) :
    Runs (AsyncRpcClient.callAttempts method params block requireEip1898 (attempts + 1) excluded
      lastError) (t ++ [failureRecord endpoint e block]) (.error e.normalize) := by
  refine runs_of_failed h ?_
  rw [if_pos (final_iff.mpr hfinal)]
  exact .raise _

theorem runs_of_next {endpoint : EndpointConfig} {e : TaskFault} {t' : List (Sigma TaskAns)}
    (h : Requested method params block requireEip1898 excluded endpoint (.error e) t)
    (hfinal : ¬ Final e)
    (hrest : Runs (AsyncRpcClient.callAttempts method params block requireEip1898 attempts
      (excludedAfter endpoint e excluded) (some e.normalize)) t' r) :
    Runs (AsyncRpcClient.callAttempts method params block requireEip1898 (attempts + 1) excluded
      lastError) (t ++ failureRecord endpoint e block :: ⟨.sleep, .ok ()⟩ :: t') r := by
  refine runs_of_failed h ?_
  rw [if_neg (final_iff.not.mpr hfinal)]
  exact .call hrest

/-! ## The number of requests -/

/-- The name of the endpoint that a request goes out to. -/
def requestedName (x : Sigma TaskAns) : Option String :=
  match x.1 with
  | .await _ (.post endpoint _ _) => some endpoint.name
  | _ => none

def isPost (x : Sigma TaskAns) : Bool := (requestedName x).isSome

theorem Requested.countP {endpoint : EndpointConfig} {result : Except TaskFault Json}
    (h : Requested method params block requireEip1898 excluded endpoint result t) :
    t.countP isPost = 1 := by
  obtain ⟨requestId, answer, rfl, -⟩ := h.exists_eq
  rfl

theorem countP_callAttempts (h : Runs (AsyncRpcClient.callAttempts method params block requireEip1898
    attempts excluded lastError) t r) : t.countP isPost ≤ attempts := by
  induction attempts generalizing excluded lastError t with
  | zero =>
    obtain ⟨rfl, -⟩ := runs_raise_iff.mp h
    exact Nat.le_refl 0
  | succ attempts ih =>
    have hlast : ∀ {endpoint : EndpointConfig} {result : Except TaskFault Json}
        {t rest : List (Sigma TaskAns)},
        Requested method params block requireEip1898 excluded endpoint result t →
        rest.countP isPost ≤ attempts → (t ++ rest).countP isPost ≤ attempts + 1 := by
      intro endpoint result t rest hrequested hrest
      rw [List.countP_append, hrequested.countP]
      omega
    cases callStep_of_runs h with
    | unselected _ => exact Nat.zero_le _
    | returned hrequested => exact hlast hrequested (Nat.zero_le _)
    | raised hrequested _ => exact hlast hrequested (Nat.zero_le _)
    | interrupted hrequested _ => exact hlast hrequested (Nat.zero_le _)
    | @next endpoint e _ t' _ hrequested _ hrest =>
      have hhead : (failureRecord endpoint e block :: ⟨.sleep, .ok ()⟩ :: t').countP isPost =
          t'.countP isPost := rfl
      exact hlast hrequested (hhead.trans_le (ih hrest))

/-! ## Endpoints that failed over -/

/-- The name of the endpoint whose failure is recorded as one to move on from. -/
def failedOverName (x : Sigma TaskAns) : Option String :=
  match x.1 with
  | .now (.recordFailure endpoint true _ _) => some endpoint.name
  | _ => none

theorem EndpointPool.notMem_of_select {pool : EndpointPool} {now : Nat} {excluded : List String}
    {c : EndpointConfig} (h : (pool.select now block requireEip1898 excluded).1 = .ok c) :
    c.name ∉ excluded := by
  obtain ⟨e, -, rfl, hselectable⟩ := select_eq_ok h
  simp only [selectable, Bool.and_eq_true, decide_eq_true_eq] at hselectable
  exact hselectable.1.1

/-- An attempt only asks the endpoint it selected, and bans none. -/
theorem Requested.respects {pool : EndpointPool} {endpoint : EndpointConfig}
    {result : Except TaskFault Json}
    (h : Requested method params block requireEip1898 excluded endpoint result t)
    (hpool : ∀ x ∈ t, pool.AnswersTask x) :
    Respects requestedName failedOverName { n | n ∈ excluded } t ∧ bannedIn failedOverName t = ∅ := by
  obtain ⟨requestId, answer, rfl, -⟩ := h.exists_eq
  obtain ⟨state, now, -, hselect⟩ := hpool _ List.mem_cons_self _ rfl
  have hbans : bannedIn failedOverName [
      ⟨.await .selection (.select block requireEip1898 excluded), .ok (.ok endpoint)⟩,
      ⟨.now .nextId, requestId⟩,
      ⟨.await .request (.post endpoint (requestObject requestId method params) 0), answer⟩] = ∅ := by
    simp [bannedIn, failedOverName]
  refine ⟨.of_unbanned hbans ?_, hbans⟩
  intro x hx n hn
  simp only [List.mem_cons, List.not_mem_nil, or_false] at hx
  obtain rfl | rfl | rfl := hx
  · cases hn
  · cases hn
  · obtain rfl := Option.some.inj hn
    exact EndpointPool.notMem_of_select hselect

theorem failedOverName_failureRecord {endpoint : EndpointConfig} {e : TaskFault} {n : String}
    (h : failedOverName (failureRecord endpoint e block) = some n) :
    n ∈ excludedAfter endpoint e excluded := by
  rw [excludedAfter]
  unfold failureRecord failedOverName at h
  cases hfailover : e.normalize.classify.failover with
  | true =>
    rw [hfailover] at h
    obtain rfl := Option.some.inj h
    exact List.mem_cons_self
  | false =>
    rw [hfailover] at h
    cases h

theorem mem_excludedAfter {endpoint : EndpointConfig} {e : TaskFault} {n : String}
    (h : n ∈ excluded) : n ∈ excludedAfter endpoint e excluded := by
  rw [excludedAfter]
  split
  · exact List.mem_cons_of_mem _ h
  · exact h

theorem respects_callAttempts {pool : EndpointPool}
    (h : Runs (AsyncRpcClient.callAttempts method params block requireEip1898 attempts excluded
      lastError) t r) (hpool : ∀ x ∈ t, pool.AnswersTask x) :
    Respects requestedName failedOverName { n | n ∈ excluded } t := by
  induction attempts generalizing excluded lastError t with
  | zero =>
    obtain ⟨rfl, -⟩ := runs_raise_iff.mp h
    exact respects_nil
  | succ attempts ih =>
    have hlast : ∀ {endpoint : EndpointConfig} {result : Except TaskFault Json}
        {t rest : List (Sigma TaskAns)}, (∀ x ∈ t ++ rest, pool.AnswersTask x) →
        Requested method params block requireEip1898 excluded endpoint result t →
        Respects requestedName failedOverName { n | n ∈ excluded } rest →
        Respects requestedName failedOverName { n | n ∈ excluded } (t ++ rest) := by
      intro endpoint result t rest hpool hrequested hrest
      obtain ⟨hrespects, hbans⟩ := hrequested.respects (List.forall_mem_append.mp hpool).1
      rw [respects_append, hbans, Set.union_empty]
      exact ⟨hrespects, hrest⟩
    cases callStep_of_runs h with
    | unselected _ => exact .of_unused (by simp [requestedName])
    | returned hrequested => exact hlast hpool hrequested (.of_unused (by simp [requestedName]))
    | raised hrequested _ =>
      exact hlast hpool hrequested (.of_unused (by simp [requestedName, failureRecord]))
    | interrupted hrequested _ =>
      exact hlast hpool hrequested (.of_unused (by simp [requestedName, failureRecord]))
    | @next endpoint e t t' _ hrequested _ hrest =>
      refine hlast hpool hrequested (respects_cons.mpr ⟨nofun, respects_cons.mpr ⟨nofun, ?_⟩⟩)
      have hrest' := ih hrest fun x hx => hpool x (by simp [hx])
      refine hrest'.anti ?_
      rintro n ((hn | hn) | hn)
      · exact mem_excludedAfter hn
      · exact failedOverName_failureRecord hn
      · cases hn

/-! ## The error that is reported -/

/-- The last event of a kind is in one place. -/
theorem last_unique {X : Type} {p : X → Bool} {a b a' b' : List X} {x x' : X}
    (h : a ++ x :: b = a' ++ x' :: b') (hx : p x = true) (hx' : p x' = true) (hb : b.countP p = 0)
    (hb' : b'.countP p = 0) : a = a' ∧ x = x' ∧ b = b' := by
  have hnot : ∀ {c d : List X} {y : X}, p y = true → (c ++ y :: d).countP p ≠ 0 := by
    intro c d y hy
    rw [List.countP_append, List.countP_cons_of_pos hy]
    omega
  obtain ⟨c, rfl, hc⟩ | ⟨c, rfl, hc⟩ := List.append_eq_append_iff.mp h
  · cases c with
    | nil =>
      obtain ⟨rfl, rfl⟩ := List.cons.inj hc
      exact ⟨(List.append_nil a).symm, rfl, rfl⟩
    | cons y c =>
      obtain ⟨-, rfl⟩ := List.cons.inj hc
      exact absurd hb (hnot hx')
  · cases c with
    | nil =>
      obtain ⟨rfl, rfl⟩ := List.cons.inj hc
      exact ⟨List.append_nil a', rfl, rfl⟩
    | cons y c =>
      obtain ⟨-, rfl⟩ := List.cons.inj hc
      exact absurd hb' (hnot hx)

/-- The last request of `t` failed with `e`, and then came `after`. -/
def LastRequestFailed (t : List (Sigma TaskAns)) (e : TaskFault) (after : List (Sigma TaskAns)) : Prop :=
  ∃ before endpoint requestId method params exchange answer, t = before ++
      ⟨.await .request (.post endpoint (requestObject requestId method params) exchange), answer⟩ :: after ∧
    requestResult requestId answer = .error e ∧ after.countP isPost = 0

theorem requestObject_id {requestId requestId' : Nat} {method method' : String}
    {params params' : List Json}
    (h : requestObject requestId method params = requestObject requestId' method' params') :
    requestId = requestId' := by
  simp only [requestObject, Json.obj.injEq, List.cons.injEq, Prod.mk.injEq, Json.int.injEq] at h
  exact Int.ofNat.inj h.2.1.2

/-- An attempt with no request after it was the last request. -/
theorem Requested.eq_of_last {endpoint : EndpointConfig} {result : Except TaskFault Json}
    {rest after : List (Sigma TaskAns)} {e : TaskFault}
    (h : Requested method params block requireEip1898 excluded endpoint result t)
    (hrest : rest.countP isPost = 0) (hlast : LastRequestFailed (t ++ rest) e after) :
    result = .error e ∧ rest = after := by
  obtain ⟨requestId, answer, rfl, rfl⟩ := h.exists_eq
  obtain ⟨before, other, otherId, method', params', exchange, reply, heq, he, hafter⟩ := hlast
  have hsplit : [
      ⟨.await .selection (.select block requireEip1898 excluded), .ok (.ok endpoint)⟩,
      ⟨.now .nextId, requestId⟩] ++ ⟨.await .request
        (.post endpoint (requestObject requestId method params) 0), answer⟩ :: rest =
      before ++ ⟨.await .request
        (.post other (requestObject otherId method' params') exchange), reply⟩ :: after := heq
  obtain ⟨-, hpost, rfl⟩ := last_unique hsplit rfl rfl hrest hafter
  obtain ⟨hop, hreply⟩ := Sigma.mk.inj hpost
  obtain rfl : requestId = otherId := by
    simp only [TaskOp.await.injEq, RpcOp.post.injEq] at hop
    exact requestObject_id hop.2.2.1
  obtain rfl : answer = reply := eq_of_heq hreply
  exact ⟨he, rfl⟩

theorem LastRequestFailed.countP_ne_zero {e : TaskFault} {after : List (Sigma TaskAns)}
    (h : LastRequestFailed t e after) : t.countP isPost ≠ 0 := by
  obtain ⟨before, endpoint, requestId, method, params, exchange, answer, rfl, -⟩ := h
  have hpost : isPost ⟨.await .request (.post endpoint (requestObject requestId method params) exchange),
    answer⟩ = true := rfl
  rw [List.countP_append, List.countP_cons_of_pos hpost]
  omega

/-- The last request is in the rest of a trace when there is a request in it. -/
theorem LastRequestFailed.later {rest after : List (Sigma TaskAns)} {e : TaskFault}
    (hlast : LastRequestFailed (t ++ rest) e after) (hrest : rest.countP isPost ≠ 0) :
    LastRequestFailed rest e after := by
  obtain ⟨before, other, requestId, method, params, exchange, reply, heq, he, hafter⟩ := hlast
  refine ⟨before.drop t.length, other, requestId, method, params, exchange, reply, ?_, he, hafter⟩
  obtain ⟨c, rfl, hc⟩ | ⟨c, rfl, hc⟩ := List.append_eq_append_iff.mp heq
  · rw [hc, List.drop_left]
  · cases c with
    | nil => rw [List.append_nil, List.drop_length, List.nil_append, hc, List.nil_append]
    | cons y c =>
      have hsplit : after = c ++ rest := (List.cons.inj hc).2
      rw [hsplit, List.countP_append] at hafter
      exact absurd (Nat.eq_zero_of_add_eq_zero_left hafter) hrest

/-! ## The selection after a failed request -/

/-- The last thing to come is a selection that fails. -/
def SelectionFailed (after : List (Sigma TaskAns)) : Prop :=
  ∃ between historicalBlock requireEip1898 excluded answer e,
    after = between ++ [⟨.await .selection (.select historicalBlock requireEip1898 excluded), answer⟩] ∧
      awaited answer = .error e

def isSelection (x : Sigma TaskAns) : Bool :=
  match x.1 with
  | .await _ (.select _ _ _) => true
  | _ => false

theorem not_selectionFailed (after : List (Sigma TaskAns)) {x : Sigma TaskAns}
    (hx : isSelection x = false) : ¬ SelectionFailed (after ++ [x]) := by
  rintro ⟨between, b, required, out, answer, e, heq, -⟩
  obtain ⟨-, rfl⟩ := List.append_inj' heq rfl |>.imp_right (fun h => (List.cons.inj h).1)
  cases hx

/-- A selection that fails leaves no trace of an earlier error. -/
theorem giveUp_unselected {pool : EndpointPool} {answer : Except String (Except RpcFault EndpointConfig)}
    {e : TaskFault} (h : awaited answer = .error e)
    (hpool : pool.AnswersTask
      ⟨.await .selection (.select block requireEip1898 excluded), answer⟩) :
    AsyncRpcClient.giveUp method (some e) =
      .attemptsExhausted s!"{method} exhausted RPC endpoints" := by
  match answer with
  | .error message =>
    cases h
    rfl
  | .ok (.ok _) => cases h
  | .ok (.error fault) =>
    cases h
    obtain ⟨state, now, -, hselect⟩ := hpool _ rfl
    obtain ⟨⟨message, rfl⟩, -⟩ := EndpointPool.select_eq_error hselect
    rfl

theorem not_final_of_archive {e : TaskFault} (h : e.classify.kind = .archiveUnavailable) :
    ¬ Final e := by
  rintro ⟨-, hfailover⟩
  rw [TaskFault.normalize_of_archive h] at hfailover
  cases hfailover

/-- A call whose last request failed as archive-unavailable: a selection that fails after it hides it,
and else it is raised, if the call is not cancelled. -/
theorem outcome_of_archive {pool : EndpointPool} {e : TaskFault} {after : List (Sigma TaskAns)}
    (h : Runs (AsyncRpcClient.callAttempts method params block requireEip1898 attempts excluded
      lastError) t r) (hpool : ∀ x ∈ t, pool.AnswersTask x) (hlast : LastRequestFailed t e after)
    (harchive : e.classify.kind = .archiveUnavailable) :
    (SelectionFailed after ∧ r = .error (.attemptsExhausted s!"{method} exhausted RPC endpoints")) ∨
      (¬ SelectionFailed after ∧
        ((∃ message, r = .error (.cancelled message)) ∨
          r = .error (.fault (.archiveUnavailable e.text)))) := by
  induction attempts generalizing excluded lastError t with
  | zero =>
    obtain ⟨rfl, -⟩ := runs_raise_iff.mp h
    exact absurd rfl hlast.countP_ne_zero
  | succ attempts ih =>
    cases callStep_of_runs h with
    | unselected _ => exact absurd rfl hlast.countP_ne_zero
    | returned hrequested =>
      obtain ⟨hno, -⟩ := hrequested.eq_of_last rfl hlast
      cases hno
    | raised hrequested hfinal =>
      obtain ⟨he, -⟩ := hrequested.eq_of_last rfl hlast
      obtain rfl := Except.error.inj he
      exact absurd hfinal (not_final_of_archive harchive)
    | interrupted hrequested _ =>
      obtain ⟨-, rfl⟩ := hrequested.eq_of_last rfl hlast
      exact .inr ⟨not_selectionFailed [_] rfl, .inl ⟨_, rfl⟩⟩
    | @next endpoint f t₁ t' _ hrequested _ hrest =>
      by_cases hposts : t'.countP isPost = 0
      · have hnone : (failureRecord endpoint f block :: ⟨.sleep, .ok ()⟩ :: t').countP isPost = 0 :=
          hposts
        obtain ⟨he, rfl⟩ := hrequested.eq_of_last hnone hlast
        obtain rfl := Except.error.inj he
        cases attempts with
        | zero =>
          obtain ⟨rfl, rfl⟩ := runs_raise_iff.mp hrest
          refine .inr ⟨not_selectionFailed [_] rfl, .inr ?_⟩
          rw [TaskFault.normalize_of_archive harchive]
          rfl
        | succ attempts =>
          have hone : ∀ {endpoint : EndpointConfig} {result : Except TaskFault Json}
              {t rest : List (Sigma TaskAns)} {excluded : List String},
              Requested method params block requireEip1898 excluded endpoint result t →
              (t ++ rest).countP isPost ≠ 0 := by
            intro endpoint result t rest excluded hrequested
            rw [List.countP_append, hrequested.countP]
            omega
          cases callStep_of_runs hrest with
          | @unselected answer f hanswer =>
            refine .inl ⟨⟨[_, _], _, _, _, _, _, rfl, hanswer⟩, ?_⟩
            have hselection := (List.forall_mem_append.mp hpool).2 _
              (List.mem_cons_of_mem _ (List.mem_cons_of_mem _ List.mem_cons_self))
            rw [giveUp_unselected hanswer hselection]
          | returned hagain => exact absurd hposts (hone hagain)
          | raised hagain _ => exact absurd hposts (hone hagain)
          | interrupted hagain _ => exact absurd hposts (hone hagain)
          | next hagain _ _ => exact absurd hposts (hone hagain)
      · have hlater : LastRequestFailed t' e after := by
          refine LastRequestFailed.later
            (t := t₁ ++ [failureRecord endpoint f block, ⟨.sleep, .ok ()⟩]) ?_ hposts
          rwa [List.append_assoc]
        exact ih hrest (fun x hx => hpool x (by simp [hx])) hlater

/-! ## What a call guarantees -/

/-- A call that fails, and is not cancelled, after its last request failed as archive-unavailable says
so. -/
def RaisesArchive (t : List (Sigma TaskAns)) (r : Except TaskFault (Json × EndpointConfig)) : Prop :=
  ∀ e after, LastRequestFailed t e after → e.classify.kind = .archiveUnavailable →
    ∀ raised, r = .error raised → (∀ message, raised ≠ .cancelled message) →
      ∃ message, raised = .fault (.archiveUnavailable message)

/-- A selection fails after the last request, which failed as archive-unavailable. -/
def LosesArchive (t : List (Sigma TaskAns)) : Prop :=
  ∃ e after, LastRequestFailed t e after ∧ e.classify.kind = .archiveUnavailable ∧ SelectionFailed after

/-- A call sends at most `max_retries` requests, none to an endpoint that failed over in it, and reports
that the archive state was out of reach exactly when no selection fails after the request that found it
so. -/
theorem call_raises_archive_iff (client : AsyncRpcClient) (pool : EndpointPool) (method : String)
    (params : List Json) (block : Option Nat) (requireEip1898 : Bool) (t : List (Sigma TaskAns))
    (r : Except TaskFault (Json × EndpointConfig))
    (hruns : Runs (client.call method params block requireEip1898) t r)
    (hpool : ∀ x ∈ t, pool.AnswersTask x) :
    t.countP isPost ≤ client.maxRetries ∧ Respects requestedName failedOverName ∅ t ∧
      (RaisesArchive t r ↔ ¬ LosesArchive t) := by
  refine ⟨countP_callAttempts hruns, ?_, ?_, ?_⟩
  · exact (respects_callAttempts hruns hpool).anti (Set.empty_subset _)
  · rintro hraises ⟨e, after, hlast, harchive, hfailed⟩
    obtain ⟨-, rfl⟩ | ⟨hnot, -⟩ := outcome_of_archive hruns hpool hlast harchive
    · obtain ⟨message, hmessage⟩ := hraises e after hlast harchive _ rfl (fun _ => nofun)
      cases hmessage
    · exact hnot hfailed
  · intro hkept e after hlast harchive raised hraised huncancelled
    obtain ⟨hfailed, -⟩ | ⟨-, ⟨message, rfl⟩ | rfl⟩ := outcome_of_archive hruns hpool hlast harchive
    · exact absurd ⟨e, after, hlast, harchive, hfailed⟩ hkept
    · exact absurd (Except.error.inj hraised).symm (huncancelled message)
    · exact ⟨_, (Except.error.inj hraised).symm⟩

/-! ## One endpoint that lost the state -/

def onlyEndpoint : EndpointConfig := ⟨"only", "http://only", "alpha", true, true, none⟩

def onlyPool : EndpointPool where
  endpoints := [⟨onlyEndpoint, {}⟩]
  cursor := 0
  nonempty := List.cons_ne_nil _ _
  names_nodup := by decide

def twoRetries : AsyncRpcClient := ⟨2, by decide⟩

/-- A response that says that the state of a block is gone. -/
def missingState : Json := .obj [("jsonrpc", .str "2.0"), ("id", .int 1),
  ("error", .obj [("code", .int (-32000)), ("message", .str "missing trie node")])]

def missingFault : TaskFault := .fault (.response (-32000) "missing trie node" .null)

theorem classify_missingFault : missingFault.classify = ⟨.archiveUnavailable, false, true⟩ := by
  decide +kernel

/-- The request that finds the state gone. -/
def missingRequest : List (Sigma TaskAns) := [
  ⟨.await .selection (.select (some 5) false []), .ok (.ok onlyEndpoint)⟩,
  ⟨.now .nextId, (1 : Nat)⟩,
  ⟨.await .request (.post onlyEndpoint (requestObject 1 "eth_call" []) 0), .ok (.ok missingState)⟩]

/-- It is recorded, and no other endpoint can be selected. -/
def missingRest : List (Sigma TaskAns) := [
  ⟨.now (.recordFailure onlyEndpoint true (some 5) true), ()⟩,
  ⟨.sleep, .ok ()⟩,
  ⟨.await .selection (.select (some 5) false ["only"]),
    .ok (.error (.noHealthyEndpoint "no RPC endpoint can serve the request"))⟩]

theorem normalize_missingFault : missingFault.normalize = .fault (.archiveUnavailable missingFault.text) :=
  TaskFault.normalize_of_archive (by rw [classify_missingFault])

theorem runs_missing : Runs (twoRetries.call "eth_call" [] (some 5) false) (missingRequest ++ missingRest)
    (.error (.attemptsExhausted "eth_call exhausted RPC endpoints")) := by
  have hrequest : Requested "eth_call" [] (some 5) false [] onlyEndpoint (.error missingFault)
      missingRequest := ⟨1, .ok (.ok missingState), rfl, rfl⟩
  have hfinal : ¬ Final missingFault := not_final_of_archive (by rw [classify_missingFault])
  have hrecord : failureRecord onlyEndpoint missingFault (some 5) =
      ⟨.now (.recordFailure onlyEndpoint true (some 5) true), ()⟩ := by
    rw [failureRecord, normalize_missingFault]
    rfl
  have hexcluded : excludedAfter onlyEndpoint missingFault [] = ["only"] := by
    rw [excludedAfter, normalize_missingFault]
    rfl
  rw [missingRest, ← hrecord]
  refine runs_of_next hrequest hfinal ?_
  rw [hexcluded]
  exact runs_of_unselected
    (e := .fault (.noHealthyEndpoint "no RPC endpoint can serve the request")) rfl

theorem answers_missing : ∀ x ∈ missingRequest ++ missingRest, onlyPool.AnswersTask x := by
  have hfirst : (onlyPool.select 0 (some 5) false []).1 = .ok onlyEndpoint := rfl
  have hagain : (onlyPool.select 0 (some 5) false ["only"]).1 =
      .error (.noHealthyEndpoint "no RPC endpoint can serve the request") := rfl
  intro x hx y hy
  simp only [missingRequest, missingRest, List.cons_append, List.nil_append, List.mem_cons,
    List.not_mem_nil, or_false] at hx
  rcases hx with rfl | rfl | rfl | rfl | rfl | rfl
  · obtain rfl := Option.some.inj hy
    exact ⟨onlyPool, 0, rfl, hfirst⟩
  · obtain rfl := Option.some.inj hy
    trivial
  · obtain rfl := Option.some.inj hy
    trivial
  · obtain rfl := Option.some.inj hy
    trivial
  · cases hy
  · obtain rfl := Option.some.inj hy
    exact ⟨onlyPool, 0, rfl, hagain⟩

theorem lastRequest_missing : LastRequestFailed (missingRequest ++ missingRest) missingFault missingRest :=
  ⟨missingRequest.take 2, onlyEndpoint, 1, "eth_call", [], 0, .ok (.ok missingState), rfl, rfl, rfl⟩

theorem call_raises_archive_iff_missing :
    (missingRequest ++ missingRest).countP isPost ≤ twoRetries.maxRetries ∧
      Respects requestedName failedOverName ∅ (missingRequest ++ missingRest) ∧
      (RaisesArchive (missingRequest ++ missingRest)
        (.error (.attemptsExhausted "eth_call exhausted RPC endpoints")) ↔
          ¬ LosesArchive (missingRequest ++ missingRest)) :=
  call_raises_archive_iff twoRetries onlyPool "eth_call" [] (some 5) false _ _ runs_missing answers_missing

/-- The only endpoint lost the state, and the call says that it has run out of endpoints. -/
theorem call_hides_archive : ∃ t r,
    Runs (twoRetries.call "eth_call" [] (some 5) false) t r ∧ (∀ x ∈ t, onlyPool.AnswersTask x) ∧
      ¬ RaisesArchive t r := by
  refine ⟨_, _, runs_missing, answers_missing, fun hraises => ?_⟩
  obtain ⟨message, hmessage⟩ := hraises missingFault _ lastRequest_missing
    (by rw [classify_missingFault]) _ rfl (fun _ => nofun)
  cases hmessage

end RpcStateIndexer
