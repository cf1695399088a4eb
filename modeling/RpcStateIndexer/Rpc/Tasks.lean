import RpcStateIndexer.Rpc.Client

/-!
# Tasks that can be cancelled

The loops around the requests await a selection, a request, a backoff.  A task that is cancelled raises
at the await it has come to, and a loop that catches everything catches this too.
-/

namespace RpcStateIndexer

open Reasoning Program

/-! ## Exceptions of a task -/

/-- What `except BaseException` may catch. -/
inductive TaskFault where
  | fault (e : RpcFault)
  | attemptsExhausted (message : String)
  | cancelled (message : String)

namespace TaskFault

def text : TaskFault → String
  | .fault e => e.text
  | .attemptsExhausted message => message
  | .cancelled message => message

/-- The classification of an exception that is none of the RPC layer: only its text counts. -/
def classifyText (text : String) : RpcFailure :=
  let message := text.toList.flatMap casefoldChar
  if anyMarker archiveMarkers message then ⟨.archiveUnavailable, false, true⟩
  else if anyMarker limitMarkers message then ⟨.providerLimit, false, false⟩
  else ⟨.permanent, false, false⟩

def classify : TaskFault → RpcFailure
  | .fault e => classifyRpcFailure e
  | e => classifyText e.text

def normalize (e : TaskFault) : TaskFault :=
  match e.classify.kind with
  | .archiveUnavailable => .fault (.archiveUnavailable e.text)
  | .providerLimit => .fault (.providerLimit e.text)
  | _ => e

theorem normalize_fault (e : RpcFault) : normalize (.fault e) = .fault (normalizeRpcError e) := by
  rw [normalize, classify, normalizeRpcError]
  cases (classifyRpcFailure e).kind <;> rfl

theorem normalize_of_archive {e : TaskFault} (h : e.classify.kind = .archiveUnavailable) :
    e.normalize = .fault (.archiveUnavailable e.text) := by
  rw [normalize, h]

end TaskFault

/-! ## Awaits -/

/-- What a loop awaits. -/
inductive AwaitSite where
  | selection
  | request
  | backoff
  | quorum
  deriving DecidableEq

inductive TaskOp where
  | await (site : AwaitSite) (op : RpcOp)
  /-- an operation that does not suspend the task -/
  | now (op : RpcOp)
  | sleep

/-- An await is answered, or the task is cancelled there, with a message. -/
abbrev TaskAns : TaskOp → Type
  | .await _ op => Except String (RpcAns op)
  | .now op => RpcAns op
  | .sleep => Except String Unit

abbrev TaskProgram (α : Type) : Type := Program TaskOp TaskAns TaskFault α

/-- `_next_id` holds its lock across no await, so it never suspends.  Nor does `select`, but the loops
guard its await, so a task may be cancelled there. -/
def suspends : RpcOp → Bool
  | .post _ _ _ => true
  | .select _ _ _ => true
  | _ => false

/-- Code of a task: a cancellation goes through it, as nothing in it catches `BaseException`. -/
def task {α : Type} (site : AwaitSite) : ClientProgram α → TaskProgram α
  | .ret a => .ret a
  | .raise e => .raise (.fault e)
  | .call op k =>
    if suspends op then
      .call (.await site op) fun
        | .ok a => task site (k a)
        | .error message => .raise (.cancelled message)
    else .call (.now op) fun a => task site (k a)

/-- `asyncio.sleep`; a backoff of no seconds is one at which nothing is delivered. -/
def backoff : TaskProgram Unit :=
  .call .sleep fun
    | .ok () => .ret ()
    | .error message => .raise (.cancelled message)

/-- A failure at a block, as the pool records it. -/
def recordTaskFailure (endpoint : EndpointConfig) (failure : RpcFailure) (block : Option Nat) :
    TaskProgram Unit :=
  perform (TaskOp.now (.recordFailure endpoint failure.failover block
    (failure.kind = .archiveUnavailable)))

def recordTaskSuccess (endpoint : EndpointConfig) : TaskProgram Unit :=
  perform (TaskOp.now (.recordSuccess endpoint))

/-- The record of a failed request. -/
def failureRecord (endpoint : EndpointConfig) (e : TaskFault) (block : Option Nat) : Sigma TaskAns :=
  ⟨.now (.recordFailure endpoint e.normalize.classify.failover block
    (e.normalize.classify.kind = .archiveUnavailable)), ()⟩

/-! ## What is delivered -/

/-- The task is cancelled at an await. -/
inductive Delivered : Sigma TaskAns → AwaitSite → String → Prop
  | await (site : AwaitSite) (op : RpcOp) (message : String) :
    Delivered ⟨.await site op, .error message⟩ site message
  | backoff (message : String) : Delivered ⟨.sleep, .error message⟩ .backoff message

def Undisturbed (t : List (Sigma TaskAns)) : Prop :=
  ∀ x ∈ t, ∀ site message, ¬ Delivered x site message

/-- The operation of the RPC layer that was answered, if there is one. -/
def answeredOp : Sigma TaskAns → Option (Sigma RpcAns)
  | ⟨.await _ op, .ok a⟩ => some ⟨op, a⟩
  | ⟨.now op, a⟩ => some ⟨op, a⟩
  | _ => none

theorem undisturbed_nil : Undisturbed [] := by
  intro x hx
  exact absurd hx List.not_mem_nil

theorem undisturbed_append {t t' : List (Sigma TaskAns)} :
    Undisturbed (t ++ t') ↔ Undisturbed t ∧ Undisturbed t' := List.forall_mem_append

theorem undisturbed_cons {x : Sigma TaskAns} {t : List (Sigma TaskAns)} :
    Undisturbed (x :: t) ↔ (∀ site message, ¬ Delivered x site message) ∧ Undisturbed t :=
  List.forall_mem_cons

theorem undisturbed_now (op : RpcOp) (a : RpcAns op) : Undisturbed [⟨.now op, a⟩] := by
  rw [undisturbed_cons]
  exact ⟨fun _ _ => nofun, undisturbed_nil⟩

/-- Wherever the task is cancelled in the trace, `P` holds of the await, the message and what comes
after. -/
def AtDelivery (P : AwaitSite → String → List (Sigma TaskAns) → Prop) (t : List (Sigma TaskAns)) :
    Prop :=
  ∀ before x after site message, t = before ++ x :: after → Delivered x site message →
    P site message after

section AtDelivery

variable {P P' : AwaitSite → String → List (Sigma TaskAns) → Prop} {t t' : List (Sigma TaskAns)}

theorem AtDelivery.of_undisturbed (h : Undisturbed t) : AtDelivery P t := by
  rintro before x after site message rfl hx
  exact absurd hx (h x (List.mem_append_right _ List.mem_cons_self) site message)

theorem AtDelivery.imp (h : AtDelivery P t)
    (himp : ∀ site message after, P site message after → P' site message after) : AtDelivery P' t :=
  fun before x after site message heq hx => himp _ _ _ (h before x after site message heq hx)

theorem atDelivery_cons {x : Sigma TaskAns} : AtDelivery P (x :: t) ↔
    (∀ site message, Delivered x site message → P site message t) ∧ AtDelivery P t := by
  constructor
  · intro h
    refine ⟨fun site message hx => h [] x t site message rfl hx, ?_⟩
    rintro before y after site message rfl hy
    exact h (x :: before) y after site message rfl hy
  · rintro ⟨hx, hrest⟩ before y after site message heq hy
    cases before with
    | nil =>
      obtain ⟨rfl, rfl⟩ := List.cons.inj heq
      exact hx site message hy
    | cons z before =>
      obtain ⟨rfl, rfl⟩ := List.cons.inj heq
      exact hrest before y after site message rfl hy

theorem atDelivery_append : AtDelivery P (t ++ t') ↔
    AtDelivery (fun site message after => P site message (after ++ t')) t ∧ AtDelivery P t' := by
  induction t with
  | nil => exact (and_iff_right (.of_undisturbed undisturbed_nil)).symm
  | cons x t ih => rw [List.cons_append, atDelivery_cons, atDelivery_cons, ih, and_assoc]

end AtDelivery

/-- The pool answers the selections of a task as it answers those of its code. -/
def EndpointPool.AnswersTask (pool : EndpointPool) (x : Sigma TaskAns) : Prop :=
  ∀ y, answeredOp x = some y → pool.Answers y

variable {α : Type} {site : AwaitSite}

theorem runs_suspended_iff {op : RpcOp} {k : RpcAns op → ClientProgram α} (h : suspends op = true)
    {t : List (Sigma TaskAns)} {r : Except TaskFault α} :
    Runs (task site (.call op k)) t r ↔
      (∃ message, t = [⟨.await site op, .error message⟩] ∧ r = .error (.cancelled message)) ∨
        ∃ a t', t = ⟨.await site op, .ok a⟩ :: t' ∧ Runs (task site (k a)) t' r := by
  rw [task, if_pos h, runs_call_iff]
  constructor
  · rintro ⟨answer, t', rfl, hrest⟩
    cases answer with
    | error message =>
      obtain ⟨rfl, rfl⟩ := runs_raise_iff.mp hrest
      exact .inl ⟨message, rfl, rfl⟩
    | ok a => exact .inr ⟨a, t', rfl, hrest⟩
  · rintro (⟨message, rfl, rfl⟩ | ⟨a, t', rfl, hrest⟩)
    · exact ⟨.error message, [], rfl, .raise _⟩
    · exact ⟨.ok a, t', rfl, hrest⟩

theorem runs_unsuspended_iff {op : RpcOp} {k : RpcAns op → ClientProgram α} (h : suspends op = false)
    {t : List (Sigma TaskAns)} {r : Except TaskFault α} :
    Runs (task site (.call op k)) t r ↔
      ∃ a t', t = ⟨.now op, a⟩ :: t' ∧ Runs (task site (k a)) t' r := by
  rw [task, if_neg (ne_true_of_eq_false h)]
  exact runs_call_iff

/-- The code of a task runs as it does alone, unless the task is cancelled in it: then this is the last
thing that happens there. -/
theorem runs_task {p : ClientProgram α} {t : List (Sigma TaskAns)} {r : Except TaskFault α}
    (h : Runs (task site p) t r) :
    (Undisturbed t ∧ ∃ x, r = x.mapError .fault ∧ Runs p (t.filterMap answeredOp) x) ∨
      ∃ t' x message, t = t' ++ [x] ∧ Undisturbed t' ∧ Delivered x site message ∧
        r = .error (.cancelled message) := by
  induction p generalizing t with
  | ret a =>
    obtain ⟨rfl, rfl⟩ := runs_ret_iff.mp h
    exact .inl ⟨undisturbed_nil, .ok a, rfl, .ret a⟩
  | raise e =>
    obtain ⟨rfl, rfl⟩ := runs_raise_iff.mp h
    exact .inl ⟨undisturbed_nil, .error e, rfl, .raise e⟩
  | call op k ih =>
    -- An operation that is answered puts its answer in front of either outcome of the rest.
    have hfront : ∀ (x : Sigma TaskAns) (a : RpcAns op) (t' : List (Sigma TaskAns)),
        answeredOp x = some ⟨op, a⟩ → (∀ site message, ¬ Delivered x site message) →
        Runs (task site (k a)) t' r →
        (Undisturbed (x :: t') ∧
          ∃ y, r = y.mapError .fault ∧ Runs (.call op k) ((x :: t').filterMap answeredOp) y) ∨
        ∃ t₁ y message, x :: t' = t₁ ++ [y] ∧ Undisturbed t₁ ∧ Delivered y site message ∧
          r = .error (.cancelled message) := by
      intro x a t' hx hfirst hrest
      obtain ⟨hquiet, y, hr, hruns⟩ | ⟨t₁, y, message, rfl, hquiet, hy, hr⟩ := ih a hrest
      · refine .inl ⟨undisturbed_cons.mpr ⟨hfirst, hquiet⟩, y, hr, ?_⟩
        rw [List.filterMap_cons_some hx]
        exact .call hruns
      · exact .inr ⟨x :: t₁, y, message, rfl, undisturbed_cons.mpr ⟨hfirst, hquiet⟩, hy, hr⟩
    cases hop : suspends op with
    | true =>
      obtain ⟨message, rfl, rfl⟩ | ⟨a, t', rfl, hrest⟩ := (runs_suspended_iff hop).mp h
      · exact .inr ⟨[], _, message, rfl, undisturbed_nil, .await site op message, rfl⟩
      · exact hfront _ a t' rfl (fun _ _ => nofun) hrest
    | false =>
      obtain ⟨a, t', rfl, hrest⟩ := (runs_unsuspended_iff hop).mp h
      exact hfront _ a t' rfl (fun _ _ => nofun) hrest

/-- A cancellation in the code of a task ends it. -/
theorem atDelivery_task {p : ClientProgram α} {t : List (Sigma TaskAns)} {r : Except TaskFault α}
    (h : Runs (task site p) t r) : AtDelivery
      (fun site' message after => site' = site ∧ after = [] ∧ r = .error (.cancelled message)) t := by
  obtain ⟨hquiet, -⟩ | ⟨t', x, message, rfl, hquiet, hx, rfl⟩ := runs_task h
  · exact .of_undisturbed hquiet
  · refine atDelivery_append.mpr ⟨.of_undisturbed hquiet, atDelivery_cons.mpr ⟨?_, ?_⟩⟩
    · intro site' message' hx'
      cases hx <;> cases hx' <;> exact ⟨rfl, rfl, rfl⟩
    · exact .of_undisturbed undisturbed_nil

/-- Code that is not cancelled runs as it does alone. -/
theorem runs_of_undisturbed {p : ClientProgram α} {t : List (Sigma TaskAns)} {r : Except TaskFault α}
    (h : Runs (task site p) t r) (hquiet : Undisturbed t) :
    ∃ x, r = x.mapError .fault ∧ Runs p (t.filterMap answeredOp) x := by
  obtain ⟨-, hruns⟩ | ⟨t', x, message, rfl, -, hx, -⟩ := runs_task h
  · exact hruns
  · exact absurd hx (hquiet x (List.mem_append_right _ List.mem_cons_self) site message)

theorem ok_of_undisturbed {p : ClientProgram α} {t : List (Sigma TaskAns)} {a : α}
    (h : Runs (task site p) t (.ok a)) (hquiet : Undisturbed t) :
    Runs p (t.filterMap answeredOp) (.ok a) := by
  obtain ⟨x, hx, hruns⟩ := runs_of_undisturbed h hquiet
  cases x with
  | ok b =>
    cases hx
    exact hruns
  | error e => cases hx

theorem error_of_undisturbed {p : ClientProgram α} {t : List (Sigma TaskAns)} {e : TaskFault}
    (h : Runs (task site p) t (.error e)) (hquiet : Undisturbed t) :
    ∃ fault, e = .fault fault ∧ Runs p (t.filterMap answeredOp) (.error fault) := by
  obtain ⟨x, hx, hruns⟩ := runs_of_undisturbed h hquiet
  cases x with
  | ok b => cases hx
  | error fault =>
    cases hx
    exact ⟨fault, rfl, hruns⟩

/-! ## Runs of an await -/

/-- What comes of an await that is answered with what it returns or raises. -/
def awaited {β : Type} : Except String (Except RpcFault β) → Except TaskFault β
  | .ok reply => reply.mapError .fault
  | .error message => .error (.cancelled message)

theorem runs_task_ofExcept_iff {x : Except RpcFault α} {t : List (Sigma TaskAns)}
    {r : Except TaskFault α} :
    Runs (task site (ofExcept x)) t r ↔ t = [] ∧ r = x.mapError .fault := by
  cases x with
  | ok a => exact runs_ret_iff
  | error e => exact runs_raise_iff

theorem runs_selection_iff {block : Option Nat} {requireEip1898 : Bool} {excluded : List String}
    {t : List (Sigma TaskAns)} {r : Except TaskFault EndpointConfig} :
    Runs (task site (selectEndpoint block requireEip1898 excluded)) t r ↔
      ∃ answer, t = [⟨.await site (.select block requireEip1898 excluded), answer⟩] ∧
        r = awaited answer := by
  rw [selectEndpoint, runs_suspended_iff rfl]
  constructor
  · rintro (⟨message, rfl, rfl⟩ | ⟨reply, t', rfl, hrest⟩)
    · exact ⟨.error message, rfl, rfl⟩
    · obtain ⟨rfl, rfl⟩ := runs_task_ofExcept_iff.mp hrest
      exact ⟨.ok reply, rfl, rfl⟩
  · rintro ⟨message | reply, rfl, rfl⟩
    · exact .inl ⟨message, rfl, rfl⟩
    · exact .inr ⟨reply, [], rfl, runs_task_ofExcept_iff.mpr ⟨rfl, rfl⟩⟩

/-- The result of a request, from what its post is answered with. -/
def requestResult (requestId : Nat) (answer : Except String (Except RpcFault Json)) :
    Except TaskFault Json :=
  awaited (answer.map fun reply => reply.bind (parseResponse requestId))

/-- A request takes a number and is posted. -/
theorem runs_request_iff {endpoint : EndpointConfig} {method : String} {params : List Json}
    {t : List (Sigma TaskAns)} {r : Except TaskFault Json} :
    Runs (task site (callOnEndpoint endpoint method params 0)) t r ↔
      ∃ (requestId : Nat) (answer : Except String (Except RpcFault Json)),
        t = [⟨.now .nextId, requestId⟩,
          ⟨.await site (.post endpoint (requestObject requestId method params) 0), answer⟩] ∧
        r = requestResult requestId answer := by
  have hbind : ∀ (requestId : Nat) (reply : Except RpcFault Json),
      (ofExcept reply >>= fun body => ofExcept (parseResponse requestId body) : ClientProgram Json) =
        ofExcept (reply.bind (parseResponse requestId)) := by
    intro requestId reply
    cases reply <;> rfl
  rw [callOnEndpoint, perform_bind, runs_unsuspended_iff rfl]
  constructor
  · rintro ⟨requestId, t', rfl, hrest⟩
    rw [post, call_bind, runs_suspended_iff rfl] at hrest
    obtain ⟨message, rfl, rfl⟩ | ⟨reply, t'', rfl, hanswer⟩ := hrest
    · exact ⟨requestId, .error message, rfl, rfl⟩
    · rw [hbind] at hanswer
      obtain ⟨rfl, rfl⟩ := runs_task_ofExcept_iff.mp hanswer
      exact ⟨requestId, .ok reply, rfl, rfl⟩
  · rintro ⟨requestId, answer, rfl, rfl⟩
    refine ⟨requestId, _, rfl, ?_⟩
    rw [post, call_bind, runs_suspended_iff rfl]
    cases answer with
    | error message => exact .inl ⟨message, rfl, rfl⟩
    | ok reply =>
      refine .inr ⟨reply, [], rfl, ?_⟩
      rw [hbind]
      exact runs_task_ofExcept_iff.mpr ⟨rfl, rfl⟩

theorem runs_backoff_iff {t : List (Sigma TaskAns)} {r : Except TaskFault Unit} :
    Runs backoff t r ↔ ∃ a : Except String Unit, t = [⟨.sleep, a⟩] ∧ r = a.mapError .cancelled := by
  rw [backoff, runs_call_iff]
  constructor
  · rintro ⟨a, t', rfl, hrest⟩
    cases a with
    | ok u =>
      obtain ⟨rfl, rfl⟩ := runs_ret_iff.mp hrest
      exact ⟨.ok u, rfl, rfl⟩
    | error message =>
      obtain ⟨rfl, rfl⟩ := runs_raise_iff.mp hrest
      exact ⟨.error message, rfl, rfl⟩
  · rintro ⟨a, rfl, rfl⟩
    cases a with
    | ok u => exact ⟨.ok u, [], rfl, .ret u⟩
    | error message => exact ⟨.error message, [], rfl, .raise _⟩

end RpcStateIndexer
