import RpcStateIndexer.Execution.MulticallContract
import RpcStateIndexer.Reasoning.Counting
import RpcStateIndexer.Rpc.Call

/-!
# The endpoints that a Multicall3 batch leaves alone

Two loops keep two sets of excluded endpoints.  The inner one adds to the set it is given the endpoints
that failed over, and may use the last endpoint again; the outer one adds those whose response proved
nothing.
-/

namespace RpcStateIndexer

open Reasoning Program

/-! ## Events -/

/-- The pool is asked for an endpoint. -/
def Selects : RpcOp → Prop
  | .select _ _ _ => True
  | _ => False

namespace Multicall3Executor

variable {pool : EndpointPool} {executor : Multicall3Executor} {anchor : BlockRef}
  {calldata : List UInt8} {attempts : Nat} {excluded kept : List String}
  {last : Option (EndpointConfig × RpcFailure)} {t : List (Sigma RpcAns)}

theorem notMem_of_selectEndpoint {block : Option Nat} {requireEip1898 : Bool}
    {endpoint : EndpointConfig}
    (h : Runs (selectEndpoint block requireEip1898 excluded) t (.ok endpoint))
    (hpool : ∀ x ∈ t, pool.Answers x) : endpoint.name ∉ excluded := by
  obtain ⟨answer, t', rfl, hret⟩ := runs_call_iff.mp h
  obtain ⟨rfl, rfl⟩ := runs_ofExcept_iff.mp hret
  obtain ⟨state, now, -, hselect⟩ := hpool _ List.mem_cons_self
  exact EndpointPool.notMem_of_select hselect

/-- The endpoint that is used is selected, or it is the last one. -/
theorem notMem_of_select {endpoint : EndpointConfig}
    (h : Runs (tryCatch (select anchor excluded) fun e => ofExcept (reselect last e)) t (.ok endpoint))
    (hpool : ∀ x ∈ t, pool.Answers x) (hkept : ∀ n ∈ kept, n ∈ excluded)
    (hlast : ∀ endpoint failure, last = some (endpoint, failure) → endpoint.name ∉ kept) :
    endpoint.name ∉ kept := by
  have hselected : ∀ {requireEip1898 : Bool} {t' : List (Sigma RpcAns)},
      Runs (selectEndpoint (some anchor.number) requireEip1898 excluded) t' (.ok endpoint) →
      (∀ x ∈ t', pool.Answers x) → endpoint.name ∉ kept := by
    intro requireEip1898 t' hruns hpool' hmem
    exact notMem_of_selectEndpoint hruns hpool' (hkept _ hmem)
  obtain ⟨_, heq, hselect⟩ | ⟨e, t₁, t₂, rfl, -, hreselect⟩ := runs_tryCatch_iff.mp h
  · obtain rfl := Except.ok.inj heq
    obtain ⟨_, heq, hfirst⟩ | ⟨e, t₁, t₂, rfl, -, hsecond⟩ := runs_tryCatch_iff.mp hselect
    · obtain rfl := Except.ok.inj heq
      exact hselected hfirst hpool
    · split at hsecond
      · exact hselected hsecond (List.forall_mem_append.mp hpool).2
      · exact absurd hsecond not_runs_raise_ok
  · -- Nothing can be selected: what failed last is used again.
    obtain ⟨-, hok⟩ := runs_ofExcept_iff.mp hreselect
    unfold reselect at hok
    split at hok
    · split at hok
      · obtain rfl := Except.ok.inj hok
        exact hlast _ _ rfl
      · cases hok
    · cases hok

variable {calls : List ContractCall}

end Multicall3Executor

end RpcStateIndexer
