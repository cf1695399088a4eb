import RpcStateIndexer.Reasoning.Binary64
import RpcStateIndexer.Reasoning.Concurrent
import RpcStateIndexer.Reasoning.Except
import RpcStateIndexer.Rpc.EndpointPool

/-!
# The JSON-RPC client

Code that posts JSON to endpoints and asks the pool which to use is a program: the posts may be answered
by anything, the pool answers in whatever health its endpoints are.
-/

namespace RpcStateIndexer

open Reasoning Program

/-- `exchange` tells requests apart that are in flight at once; the server sees the payload only. -/
inductive RpcOp where
  | nextId
  | post (endpoint : EndpointConfig) (payload : Json) (exchange : Nat)
  | select (historicalBlock : Option Nat) (requireEip1898 : Bool) (exclude : List String)
  | selectDistinctGroups (count : Nat) (historicalBlock : Option Nat)
  | recordSuccess (endpoint : EndpointConfig)
  | recordFailure (endpoint : EndpointConfig) (failover : Bool) (historicalBlock : Option Nat)
      (archiveUnavailable : Bool)
  /-- which of two concurrent parts moves -/
  | turn

/-- A post is answered by the decoded body of the response, or raises in transport. -/
abbrev RpcAns : RpcOp → Type
  | .nextId => Nat
  | .post _ _ _ => Except RpcFault Json
  | .select _ _ _ => Except RpcFault EndpointConfig
  | .selectDistinctGroups _ _ => Except RpcFault (List EndpointConfig)
  | .recordSuccess _ => Unit
  | .recordFailure _ _ _ _ => Unit
  | .turn => Bool

abbrev ClientProgram (α : Type) : Type := Program RpcOp RpcAns RpcFault α

/-- `asyncio.gather` -/
def gatherCalls {α : Type} (ps : List (ClientProgram α)) : ClientProgram (List α) :=
  gather .turn id ps

/-- The pool answers as the configured pool does in some health of its endpoints. -/
def EndpointPool.Answers (pool : EndpointPool) (x : Sigma RpcAns) : Prop :=
  match x with
  | ⟨.select historicalBlock requireEip1898 exclude, answer⟩ =>
    ∃ (state : EndpointPool) (now : Nat), state.configs = pool.configs ∧
      (state.select now historicalBlock requireEip1898 exclude).1 = answer
  | ⟨.selectDistinctGroups count historicalBlock, answer⟩ =>
    ∃ (state : EndpointPool) (now : Nat), state.configs = pool.configs ∧
      state.selectDistinctGroups now count historicalBlock = answer
  | _ => True

/-! ## Requests and responses -/

def requestObject (requestId : Nat) (method : String) (params : List Json) : Json :=
  .obj [("jsonrpc", .str "2.0"), ("id", .int requestId), ("method", .str method),
    ("params", .arr params)]

/-- `value not in {None, "2.0"}`; a container has no place in a set. -/
def checkVersion (e : RpcFault) : Json → Except RpcFault Unit
  | .null => .ok ()
  | .str version => check (version = "2.0") e
  | .arr _ => .error (.typeError "unhashable type: 'list'")
  | .obj _ => .error (.typeError "unhashable type: 'dict'")
  | _ => .error e

/-- `value == request_id`; a boolean compares as a number, a float as the value it has. -/
def idMatches (requestId : Nat) : Json → Bool
  | .int value => value = requestId
  | .bool value => value.toNat = requestId
  | .float text => Binary64.ofText text = some (requestId : ℚ)
  | _ => false

/-- The code and the message of an error object. -/
def parseError : Json → Option (Int × String)
  | .obj fields =>
    match Json.get fields "code", Json.get fields "message" with
    | .int code, .str message => some (code, message)
    | _, _ => none
  | _ => none

/-- The result of a single response; an error that is not null comes first. -/
def parseResult (fields : List (String × Json)) : Except RpcFault Json :=
  match Json.get fields "error" with
  | .null =>
    match fields.lookup "result" with
    | some result => .ok result
    | none => .error (.protocol "JSON-RPC response has neither result nor error")
  | .obj error =>
    match parseError (.obj error) with
    | some (code, message) => .error (.response code message (Json.get error "data"))
    | none => .error (.protocol "malformed JSON-RPC error")
  | _ => .error (.protocol "JSON-RPC error must be an object")

def parseResponse (requestId : Nat) : Json → Except RpcFault Json
  | .obj fields => do
    checkVersion (.protocol "unexpected JSON-RPC version") (Json.get fields "jsonrpc")
    check (idMatches requestId (Json.get fields "id")) (.protocol "JSON-RPC response ID mismatch")
    parseResult fields
  | _ => .error (.protocol "single JSON-RPC response must be an object")

def post (endpoint : EndpointConfig) (payload : Json) (exchange : Nat) : ClientProgram Json :=
  .call (.post endpoint payload exchange) fun reply => ofExcept reply

def callOnEndpoint (endpoint : EndpointConfig) (method : String) (params : List Json)
    (exchange : Nat) : ClientProgram Json := do
  let requestId ← perform .nextId
  let body ← post endpoint (requestObject requestId method params) exchange
  ofExcept (parseResponse requestId body)

/-- The entries of a batch response. -/
def parseBatch : Json → Except RpcFault (List (List (String × Json)))
  | .arr items => items.mapM fun
    | .obj fields => .ok fields
    | _ => .error (.protocol "JSON-RPC batch entries must be objects")
  | _ => .error (.protocol "JSON-RPC batch response must be an array")

def batchOnEndpoint (endpoint : EndpointConfig) (requests : List Json) :
    ClientProgram (List (List (String × Json))) := do
  if requests.isEmpty then return []
  let body ← post endpoint (.arr requests) 0
  ofExcept (parseBatch body)

def selectEndpoint (historicalBlock : Option Nat) (requireEip1898 : Bool) (exclude : List String) :
    ClientProgram EndpointConfig :=
  .call (.select historicalBlock requireEip1898 exclude) fun reply => ofExcept reply

def selectDistinctGroups (count : Nat) (historicalBlock : Option Nat) :
    ClientProgram (List EndpointConfig) :=
  .call (.selectDistinctGroups count historicalBlock) fun reply => ofExcept reply

def recordSuccess (endpoint : EndpointConfig) : ClientProgram Unit :=
  perform (RpcOp.recordSuccess endpoint)

/-- The failure of a call at a block, as the pool records it. -/
def recordCallFailure (endpoint : EndpointConfig) (failure : RpcFailure) (block : Nat) :
    ClientProgram Unit :=
  perform (RpcOp.recordFailure endpoint failure.failover (some block)
    (failure.kind = .archiveUnavailable))

/-! ## Runs of a call -/

/-- In `t`, `endpoint` was asked for `params` and answered with `result`. -/
def CallAnswered (t : List (Sigma RpcAns)) (endpoint : EndpointConfig) (method : String)
    (params : List Json) (result : Json) : Prop :=
  ∃ requestId body exchange,
    (⟨.post endpoint (requestObject requestId method params) exchange, .ok body⟩ : Sigma RpcAns) ∈ t ∧
      parseResponse requestId body = .ok result

theorem CallAnswered.mono {t t' : List (Sigma RpcAns)} {endpoint : EndpointConfig} {method : String}
    {params : List Json} {result : Json} (h : CallAnswered t endpoint method params result)
    (hsub : ∀ x ∈ t, x ∈ t') : CallAnswered t' endpoint method params result := by
  obtain ⟨requestId, body, exchange, hmem, hparse⟩ := h
  exact ⟨requestId, body, exchange, hsub _ hmem, hparse⟩

theorem runs_post_iff {endpoint : EndpointConfig} {payload : Json} {exchange : Nat}
    {t : List (Sigma RpcAns)} {r : Except RpcFault Json} :
    Runs (post endpoint payload exchange) t r ↔ t = [⟨.post endpoint payload exchange, r⟩] := by
  rw [post, runs_call_iff]
  constructor
  · rintro ⟨a, t', rfl, hrest⟩
    obtain ⟨rfl, rfl⟩ := runs_ofExcept_iff.mp hrest
    rfl
  · rintro rfl
    exact ⟨r, [], rfl, runs_ofExcept_iff.mpr ⟨rfl, rfl⟩⟩

/-- A call that returns was answered with what it returns. -/
theorem answered_of_runs {endpoint : EndpointConfig} {method : String} {params : List Json}
    {exchange : Nat} {t : List (Sigma RpcAns)} {result : Json}
    (h : Runs (callOnEndpoint endpoint method params exchange) t (.ok result)) :
    CallAnswered t endpoint method params result := by
  obtain ⟨requestId, t₁, t₂, rfl, -, h₂⟩ := runs_bind_ok_iff.mp h
  obtain ⟨body, t₃, t₄, rfl, h₃, h₄⟩ := runs_bind_ok_iff.mp h₂
  obtain rfl := runs_post_iff.mp h₃
  obtain ⟨rfl, hparse⟩ := runs_ofExcept_iff.mp h₄
  exact ⟨requestId, body, exchange, by simp, hparse.symm⟩

/-! ## Runs that a pool allows -/

/-- The response to the first request. -/
def respond (result : Json) : Json :=
  .obj [("jsonrpc", .str "2.0"), ("id", .int 1), ("result", result)]

section Allowed

variable {pool : EndpointPool}

theorem mayEnd_selectEndpoint (historicalBlock : Option Nat) (requireEip1898 : Bool)
    (exclude : List String) :
    MayEnd pool.Answers (selectEndpoint historicalBlock requireEip1898 exclude)
      (pool.select 0 historicalBlock requireEip1898 exclude).1 :=
  .call _ ⟨pool, 0, rfl, rfl⟩ (.ofExcept _)

theorem mayEnd_callOnEndpoint (endpoint : EndpointConfig) (method : String) (params : List Json)
    (exchange : Nat) (result : Json) :
    MayEnd pool.Answers (callOnEndpoint endpoint method params exchange) (.ok result) :=
  .call (1 : Nat) trivial (.call (.ok (respond result)) trivial (.ofExcept (.ok result)))

theorem mayEnd_callOnEndpoint_error (endpoint : EndpointConfig) (method : String)
    (params : List Json) (exchange : Nat) (e : RpcFault) :
    MayEnd pool.Answers (callOnEndpoint endpoint method params exchange) (.error e) :=
  .call (1 : Nat) trivial (.call (.error e) trivial (.raise e))

end Allowed

end RpcStateIndexer
