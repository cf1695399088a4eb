import RpcStateIndexer.Execution.LegacyBatchCorrect
import RpcStateIndexer.Execution.MulticallContract

/-!
# The contract of the legacy executor

Each batch rests on one endpoint and the anchor's hash, or on a quorum of provider groups.
-/

namespace RpcStateIndexer

open Reasoning Program

/-- A returned execution has the results of the calls, in their order, in batches that each rest on one
endpoint asked by hash or on a quorum; and the choice of a quorum fails exactly when too few provider
groups can serve. -/
theorem legacy_executes_sound (executor : LegacyRpcBatchExecutor) (pool : EndpointPool)
    (calls : List ContractCall) (anchor : BlockRef) (t : List (Sigma RpcAns))
    (batches : List VerifiedBatchResult)
    (hruns : Runs (executor.execute calls anchor) t (.ok batches))
    (hpool : ∀ x ∈ t, pool.Answers x)
    (hinj : (occurringStreams anchor calls t).InjOn sha256) :
    (batches.flatMap fun b => b.results.map RawCallResult.key) = calls.map ContractCall.key ∧
      (∃ parts : List (List ContractCall), parts.flatten = calls ∧
        List.Forall₂ (fun part b => HashVerified pool anchor t part b ∨
          QuorumVerified executor.requiredProviderQuorum pool anchor t part b) parts batches) ∧
      ∀ (state : EndpointPool) (now : Nat) (historicalBlock : Option Nat),
        (∃ e, state.selectDistinctGroups now executor.requiredProviderQuorum historicalBlock = .error e)
          ↔ (EndpointPool.servableGroups (fun e => e.canServe now historicalBlock)
              state.endpoints).card < executor.requiredProviderQuorum := by
  obtain ⟨parts, rfl, hparts⟩ := LegacyRpcBatchExecutor.sound_of_execute hpool hinj hruns
  refine ⟨?_, ⟨parts, rfl, hparts.imp fun _ _ hpart => hpart.2.2.source⟩, fun state now block => ?_⟩
  · clear hruns hpool hinj
    induction hparts with
    | nil => rfl
    | @cons part b parts batches hfirst _ ih =>
      have hkeys : b.results.map RawCallResult.key = part.map ContractCall.key := by
        rw [← List.forall₂_eq_eq_eq, List.forall₂_map_left_iff, List.forall₂_map_right_iff]
        exact hfirst.2.2.results.flip.imp fun _ _ => ResultOf.key
      rw [List.flatMap_cons, hkeys, ih, List.flatten_cons, List.map_append]
  · exact EndpointPool.selectDistinctGroups_error_iff
      (Nat.le_of_succ_le executor.requiredProviderQuorum_ge)

/-! ## A batch that is halved, by hash and by number -/

theorem legacySample_batchSize : 1 ≤ 100 := by decide
theorem legacySample_quorum : 2 ≤ 2 := by decide
theorem legacySample_maxRetries : 1 ≤ 5 := by decide

def legacySample : LegacyRpcBatchExecutor where
  batchSize := 100
  requiredProviderQuorum := 2
  maxRetries := 5
  batchSize_pos := legacySample_batchSize
  requiredProviderQuorum_ge := legacySample_quorum
  maxRetries_pos := legacySample_maxRetries

/-- A provider group without block hashes, beside that of `numberEndpoint`. -/
def firstEndpoint : EndpointConfig where
  name := "a"
  url := "http://a"
  providerGroup := "ga"
  supportsHttpBatch := true
  supportsEip1898 := false
  archiveFromBlock := none

def quorumPool : EndpointPool where
  endpoints := [⟨firstEndpoint, {}⟩, ⟨numberEndpoint, {}⟩]
  cursor := 0
  nonempty := List.cons_ne_nil _ _
  names_nodup := by decide

def otherCall : ContractCall := { key := "l", target := zeroAddress, calldata := [] }

def limitResponse (requestId : Nat) : Json :=
  .obj [("jsonrpc", .str "2.0"), ("id", .int requestId),
    ("error", .obj [("code", .int (-32005)), ("message", .str "limit exceeded")])]

/-- The text of the exception that this response is raised as. -/
def limitText : String := "JSON-RPC error -32005: limit exceeded"

/-- The pool in good health, with providers that know the anchor and take one call at a time. -/
def oneCallEach (pool : EndpointPool) : (op : RpcOp) → RpcAns op
  | .nextId => 1
  | .post _ (.arr [_]) _ => .ok (.arr [respond (.str "0x")])
  | .post _ (.arr requests) _ => .ok (.arr ((List.range' 1 requests.length).map limitResponse))
  | .post _ _ _ => .ok (respond (.obj [("hash", .str mixedAnchor.blockHash)]))
  | .select historicalBlock requireEip1898 exclude =>
    (pool.select 0 historicalBlock requireEip1898 exclude).1
  | .selectDistinctGroups count historicalBlock => pool.selectDistinctGroups 0 count historicalBlock
  | .recordSuccess _ => ()
  | .recordFailure _ _ _ _ => ()
  | .turn => true

theorem answers_oneCallEach (pool : EndpointPool) (op : RpcOp) :
    pool.Answers ⟨op, oneCallEach pool op⟩ := by
  cases op with
  | select historicalBlock requireEip1898 exclude => exact ⟨pool, 0, rfl, rfl⟩
  | selectDistinctGroups count historicalBlock => exact ⟨pool, 0, rfl, rfl⟩
  | _ => trivial

/-- The result of a call there. -/
def emptyResult (call : ContractCall) : RawCallResult where
  key := call.key
  success := true
  returndata := []

/-! ### One endpoint -/

section OneCallEach

variable {pool : EndpointPool} {endpoint : EndpointConfig} {reference : Json}

theorem answeredBy_batchOnEndpoint (request : Json) (requests : List Json) :
    answeredBy (oneCallEach pool) (batchOnEndpoint endpoint (request :: requests)) =
      (oneCallEach pool (.post endpoint (.arr (request :: requests)) 0) >>= parseBatch) := by
  show answeredBy (oneCallEach pool)
    (ofExcept (oneCallEach pool (.post endpoint (.arr (request :: requests)) 0)) >>= _) = _
  rw [answeredBy_bind, answeredBy_ofExcept]
  congr
  funext body
  exact answeredBy_ofExcept _ _

theorem answeredBy_sendCalls (hbatch : endpoint.supportsHttpBatch = true) (call : ContractCall)
    (calls : List ContractCall) :
    answeredBy (oneCallEach pool) (sendCalls endpoint (call :: calls) reference) =
      (oneCallEach pool (.post endpoint (.arr (buildBatchRequests (call :: calls) reference)) 0) >>=
        parseBatch) >>= fun responses => decodeBatchResponses responses (call :: calls) := by
  rw [sendCalls, if_pos hbatch, answeredBy_bind, buildBatchRequests, List.zipIdx_cons, List.map_cons,
    answeredBy_batchOnEndpoint]
  congr
  funext responses
  exact answeredBy_ofExcept _ _

theorem sendCalls_one (hbatch : endpoint.supportsHttpBatch = true) (call : ContractCall) :
    answeredBy (oneCallEach pool) (sendCalls endpoint [call] reference) = .ok [emptyResult call] := by
  rw [answeredBy_sendCalls hbatch]
  rfl

theorem sendCalls_two (hbatch : endpoint.supportsHttpBatch = true) (call other : ContractCall) :
    answeredBy (oneCallEach pool) (sendCalls endpoint [call, other] reference) =
      .ok [failedResult call (-32005) "limit exceeded",
        failedResult other (-32005) "limit exceeded"] := by
  rw [answeredBy_sendCalls hbatch]
  rfl

/-- The providers do not answer an individual call with data. -/
theorem sendCalls_refused (hbatch : ¬ endpoint.supportsHttpBatch = true) (call : ContractCall)
    (calls : List ContractCall) :
    ∃ e, answeredBy (oneCallEach pool) (sendCalls endpoint (call :: calls) reference) = .error e := by
  have hone : answeredBy (oneCallEach pool) (one endpoint reference call 0) =
      .error (malformed "individual eth_call result is not hex") := rfl
  refine ⟨malformed "individual eth_call result is not hex", ?_⟩
  rw [sendCalls, if_neg hbatch, gatherCalls, (answeredBy_gather rfl ?_).1, List.zipIdx_cons,
    List.map_cons, List.mapM_cons, hone]
  · rfl
  · intro p hp
    obtain ⟨_, -, rfl⟩ := List.mem_map.mp hp
    trivial

theorem raiseLimits_limit (call : ContractCall) (results : List RawCallResult) :
    raiseLimits (failedResult call (-32005) "limit exceeded" :: results) =
      .error (.providerLimit limitText) := by
  have hprobe : probe (failedResult call (-32005) "limit exceeded") =
      .response (-32005) "limit exceeded" .null := rfl
  have hlimit : isLimit (failedResult call (-32005) "limit exceeded") = true := by
    rw [isLimit, hprobe]
    rfl
  rw [raiseLimits, List.find?_cons_of_pos hlimit]
  show Except.error (RpcFault.providerLimit (probe _).text) = _
  rw [hprobe]
  rfl

theorem answeredBy_runOnEndpoint (endpoint : EndpointConfig) (calls : List ContractCall)
    (eip1898 : Bool) :
    ∃ reference, answeredBy (oneCallEach pool) (runOnEndpoint endpoint calls mixedAnchor eip1898) =
      answeredBy (oneCallEach pool) (sendCalls endpoint calls reference) >>= raiseLimits := by
  have hreference : ∃ reference, callReference mixedAnchor eip1898 = .ok reference := by
    cases eip1898 with
    | false => exact ⟨_, rfl⟩
    | true =>
      rw [callReference, if_pos rfl, eip1898Reference, normalizeHash_mixedHash]
      exact ⟨_, rfl⟩
  obtain ⟨reference, hreference⟩ := hreference
  refine ⟨reference, ?_⟩
  rw [runOnEndpoint, answeredBy_bind, hreference, answeredBy_ofExcept, except_ok_bind, answeredBy_bind]
  simp only [answeredBy_ofExcept]

theorem runOnEndpoint_one (hbatch : endpoint.supportsHttpBatch = true) (eip1898 : Bool)
    (call : ContractCall) :
    answeredBy (oneCallEach pool) (runOnEndpoint endpoint [call] mixedAnchor eip1898) =
      .ok [emptyResult call] := by
  obtain ⟨reference, hrun⟩ := answeredBy_runOnEndpoint endpoint [call] eip1898
  rw [hrun, sendCalls_one hbatch]
  rfl

theorem runOnEndpoint_two (hbatch : endpoint.supportsHttpBatch = true) (eip1898 : Bool)
    (call other : ContractCall) :
    answeredBy (oneCallEach pool) (runOnEndpoint endpoint [call, other] mixedAnchor eip1898) =
      .error (.providerLimit limitText) := by
  obtain ⟨reference, hrun⟩ := answeredBy_runOnEndpoint endpoint [call, other] eip1898
  rw [hrun, sendCalls_two hbatch, except_ok_bind, raiseLimits_limit]

theorem answeredBy_assertAnchorHash :
    answeredBy (oneCallEach pool) (assertAnchorHash endpoint mixedAnchor 0) = .ok () := by
  have hread : answeredBy (oneCallEach pool) (readBlockHash endpoint mixedAnchor.number 0) =
      .ok (hexData mixedHash) := by
    show answeredBy (oneCallEach pool)
      (ofExcept (normalizeHash (.str mixedAnchor.blockHash)) : ClientProgram String) = _
    rw [normalizeHash_mixedHash]
    rfl
  rw [assertAnchorHash, answeredBy_bind, hread, except_ok_bind, normalizeHash_mixedHash,
    answeredBy_bind, answeredBy_ofExcept, except_ok_bind, answeredBy_ofExcept]
  exact if_pos rfl

end OneCallEach

/-! ### The executor -/

namespace LegacyRpcBatchExecutor

section One

variable {call : ContractCall} (hkey : (utf8 call.key).length < 256 ^ 4)

include hkey

theorem exists_digest_one : ∃ digest, digestRawResults [emptyResult call] = .ok digest :=
  exists_digestRawResults_iff.mpr
    (List.forall_mem_singleton.mpr (Multicall3Executor.digestible_of_result hkey (by decide)))

theorem exists_verifiedBatch_one (referenceKind : String) (providerGroups : List String) :
    ∃ b, verifiedBatch mixedAnchor referenceKind providerGroups [emptyResult call] = .ok b := by
  obtain ⟨digest, hdigest⟩ := exists_digest_one hkey
  rw [verifiedBatch, normalizeHash_mixedHash, hdigest]
  exact ⟨_, rfl⟩

theorem agreedResults_one :
    agreedResults [[emptyResult call], [emptyResult call]] = .ok [emptyResult call] := by
  obtain ⟨digest, hdigest⟩ := exists_digest_one hkey
  have hagree : [digest, digest].dedup.length = 1 := by
    rw [List.dedup_cons_of_mem List.mem_cons_self]
    rfl
  rw [agreedResults, List.mapM_cons, List.mapM_cons, List.mapM_nil, hdigest]
  show (check (decide ([digest, digest].dedup.length = 1)) _ >>= fun _ => _) = _
  rw [hagree]
  rfl

end One

/-- With the pool's endpoints, one call is executed and two are refused. -/
structure TakesOne (executor : LegacyRpcBatchExecutor) (pool : EndpointPool)
    (referenceKind : String) : Prop where
  one : ∀ call : ContractCall, (utf8 call.key).length < 256 ^ 4 →
    ∃ b, answeredBy (oneCallEach pool) (executor.executeOnce [call] mixedAnchor) = .ok b ∧
      b.evidence.blockReferenceKind = referenceKind
  two : ∀ call other : ContractCall,
    answeredBy (oneCallEach pool) (executor.executeOnce [call, other] mixedAnchor) =
      .error (.providerLimit limitText)

theorem takesOne_mixedPool : TakesOne legacySample mixedPool "eip1898" := by
  have hselect : answeredBy (oneCallEach mixedPool)
      (selectEndpoint (some mixedAnchor.number) true []).outcome = .ok (.ok hashEndpoint) := rfl
  -- The first attempt decides: it returns, or a provider limit ends the loop.
  have hattempt : ∀ calls, legacySample.executeOnce calls mixedAnchor =
      legacySample.executeAttempts calls mixedAnchor (4 + 1) [] false := fun _ => rfl
  constructor
  · intro call hkey
    obtain ⟨b, hb⟩ := exists_verifiedBatch_one hkey "eip1898" ["ga"]
    have hexecuted : answeredBy (oneCallEach mixedPool)
        (executeEip1898 hashEndpoint [call] mixedAnchor) = .ok b := by
      rw [executeEip1898, answeredBy_bind, runOnEndpoint_one rfl, except_ok_bind, answeredBy_ofExcept]
      exact hb
    refine ⟨b, ?_, (verifiedBatch_eq_ok hb).2.1⟩
    rw [hattempt, executeAttempts, answeredBy_bind, hselect, except_ok_bind]
    show answeredBy _ ((executeEip1898 hashEndpoint [call] mixedAnchor).outcome >>= _) = _
    rw [answeredBy_bind, answeredBy_outcome, hexecuted, except_ok_bind]
    rfl
  · intro call other
    have hexecuted : answeredBy (oneCallEach mixedPool)
        (executeEip1898 hashEndpoint [call, other] mixedAnchor) =
          .error (.providerLimit limitText) := by
      rw [executeEip1898, answeredBy_bind, runOnEndpoint_two rfl]
      rfl
    rw [hattempt, executeAttempts, answeredBy_bind, hselect, except_ok_bind]
    show answeredBy _ ((executeEip1898 hashEndpoint [call, other] mixedAnchor).outcome >>= _) = _
    rw [answeredBy_bind, answeredBy_outcome, hexecuted, except_ok_bind]
    rfl

theorem answeredBy_runNumberSandwich {pool : EndpointPool} {endpoint : EndpointConfig}
    (calls : List ContractCall) :
    answeredBy (oneCallEach pool) (runNumberSandwich calls mixedAnchor endpoint) =
      answeredBy (oneCallEach pool) (runOnEndpoint endpoint calls mixedAnchor false) := by
  rw [runNumberSandwich, answeredBy_bind, answeredBy_assertAnchorHash, except_ok_bind,
    answeredBy_bind]
  simp only [answeredBy_bind, answeredBy_assertAnchorHash, except_ok_bind]
  exact bind_pure _

theorem answeredBy_executeNumberQuorum (calls : List ContractCall) :
    answeredBy (oneCallEach quorumPool) (legacySample.executeNumberQuorum calls mixedAnchor) =
      ([firstEndpoint, numberEndpoint].mapM fun endpoint =>
        answeredBy (oneCallEach quorumPool) (runOnEndpoint endpoint calls mixedAnchor false)) >>=
      fun executions => agreedResults executions >>=
        verifiedBatch mixedAnchor "number_quorum" ["ga", "gb"] := by
  have hstarts : ∀ p ∈ [firstEndpoint, numberEndpoint].map (runNumberSandwich calls mixedAnchor),
      p.Starts := by
    intro p hp
    obtain ⟨_, -, rfl⟩ := List.mem_map.mp hp
    trivial
  have hexecutions : answeredBy (oneCallEach quorumPool)
      (gatherCalls ([firstEndpoint, numberEndpoint].map (runNumberSandwich calls mixedAnchor))) =
        [firstEndpoint, numberEndpoint].mapM fun endpoint =>
          answeredBy (oneCallEach quorumPool) (runOnEndpoint endpoint calls mixedAnchor false) := by
    rw [gatherCalls, (answeredBy_gather rfl hstarts).1, List.mapM_map]
    simp only [Function.comp_def, answeredBy_runNumberSandwich]
  have hselect : answeredBy (oneCallEach quorumPool)
      (selectDistinctGroups legacySample.requiredProviderQuorum (some mixedAnchor.number)) =
        .ok [firstEndpoint, numberEndpoint] := rfl
  rw [executeNumberQuorum, answeredBy_bind, hselect, except_ok_bind, answeredBy_bind, hexecutions]
  congr
  funext executions
  rw [answeredBy_bind, answeredBy_ofExcept]
  congr
  funext first
  exact answeredBy_ofExcept _ _

theorem takesOne_quorumPool : TakesOne legacySample quorumPool "number_quorum" := by
  -- No endpoint takes block hashes, so the selection fails and the quorum is asked.
  have hfallback : ∀ calls,
      answeredBy (oneCallEach quorumPool) (legacySample.executeOnce calls mixedAnchor) =
        answeredBy (oneCallEach quorumPool)
          (legacySample.quorumFallback calls mixedAnchor false) := fun _ => rfl
  constructor
  · intro call hkey
    obtain ⟨b, hb⟩ := exists_verifiedBatch_one hkey "number_quorum" ["ga", "gb"]
    refine ⟨b, ?_, (verifiedBatch_eq_ok hb).2.1⟩
    rw [hfallback, quorumFallback, answeredBy_tryCatch, answeredBy_executeNumberQuorum,
      List.mapM_cons, List.mapM_cons, List.mapM_nil, runOnEndpoint_one rfl, runOnEndpoint_one rfl]
    show tryCatch (agreedResults _ >>= _) _ = _
    rw [agreedResults_one hkey, except_ok_bind, hb]
    rfl
  · intro call other
    rw [hfallback, quorumFallback, answeredBy_tryCatch, answeredBy_executeNumberQuorum,
      List.mapM_cons, runOnEndpoint_two rfl]
    rfl

/-- A batch of two is refused and halved. -/
theorem executes_of_takesOne {pool : EndpointPool} {referenceKind : String}
    (h : TakesOne legacySample pool referenceKind) :
    ∃ b b', (b.evidence.blockReferenceKind = referenceKind ∧
        b'.evidence.blockReferenceKind = referenceKind) ∧
      answeredBy (oneCallEach pool) (legacySample.execute [mixedCall, otherCall] mixedAnchor) =
        .ok [b, b'] := by
  obtain ⟨b, hb, hkind⟩ := h.one mixedCall utf8_mixedKey
  obtain ⟨b', hb', hkind'⟩ := h.one otherCall (by decide)
  have half : ∀ call b,
      answeredBy (oneCallEach pool) (legacySample.executeOnce [call] mixedAnchor) = .ok b →
      answeredBy (oneCallEach pool) (legacySample.executeAdaptive [call] mixedAnchor) = .ok [b] := by
    intro call b hb
    rw [executeAdaptive, answeredBy_bind, answeredBy_outcome, hb]
    rfl
  have hadaptive : answeredBy (oneCallEach pool)
      (legacySample.executeAdaptive [mixedCall, otherCall] mixedAnchor) = .ok [b, b'] := by
    rw [executeAdaptive, answeredBy_bind, answeredBy_outcome, h.two, except_ok_bind]
    show answeredBy _ (executeAdaptive legacySample [mixedCall] mixedAnchor >>= fun first =>
      executeAdaptive legacySample [otherCall] mixedAnchor >>= fun second =>
        pure (first ++ second)) = _
    rw [answeredBy_bind, half _ _ hb, except_ok_bind, answeredBy_bind, half _ _ hb']
    rfl
  have hgroups : chunked legacySample.batchSize legacySample.batchSize_pos [mixedCall, otherCall] =
      [[mixedCall, otherCall]] := by
    simp [chunked, legacySample]
  refine ⟨b, b', ⟨hkind, hkind'⟩, ?_⟩
  rw [execute, hgroups, answeredBy_bind, answeredBy_mapM, List.mapM_cons, List.mapM_nil, hadaptive]
  rfl

end LegacyRpcBatchExecutor

/-! ### The streams that occur -/

/-- The results that an endpoint can return. -/
def occurringResults : List (List RawCallResult) :=
  [[], [emptyResult mixedCall], [emptyResult otherCall]]

theorem mem_occurringResults {pool : EndpointPool} {endpoint : EndpointConfig}
    {part : List ContractCall} {run : List (Sigma RpcAns)} {results : List RawCallResult}
    (hpart : part <:+: [mixedCall, otherCall]) (hanswers : ∀ x ∈ run, x.2 = oneCallEach pool x.1)
    (hrun : Runs (runOnEndpoint endpoint part mixedAnchor false) run (.ok results)) :
    results ∈ occurringResults := by
  have hresults := eq_answeredBy hrun hanswers
  by_cases hbatch : endpoint.supportsHttpBatch = true
  · rcases part with - | ⟨call, - | ⟨other, - | ⟨_, _⟩⟩⟩
    · cases resultOf_runOnEndpoint hrun
      exact List.mem_cons_self
    · obtain rfl : results = [emptyResult call] :=
        Except.ok.inj (hresults.trans (runOnEndpoint_one hbatch _ _))
      rcases List.mem_pair.mp (hpart.subset List.mem_cons_self) with rfl | rfl
      · exact List.mem_cons_of_mem _ List.mem_cons_self
      · exact List.mem_cons_of_mem _ (List.mem_cons_of_mem _ List.mem_cons_self)
    -- A batch of both calls is refused, and no part is longer.
    · exact absurd (hresults.trans (runOnEndpoint_two hbatch _ _ _)) nofun
    · exact absurd hpart.length_le (by simp)
  · cases part with
    | nil =>
      cases resultOf_runOnEndpoint hrun
      exact List.mem_cons_self
    | cons call calls =>
      obtain ⟨reference, hsent⟩ := answeredBy_runOnEndpoint endpoint (call :: calls) false
      obtain ⟨e, he⟩ := sendCalls_refused hbatch call calls
      rw [hsent, he] at hresults
      exact absurd hresults nofun

theorem digests_occurringResults : ∀ x ∈ occurringResults, ∀ y ∈ occurringResults,
    (rawResultStream x).toOption.map sha256 = (rawResultStream y).toOption.map sha256 →
      (rawResultStream x).toOption = (rawResultStream y).toOption := by
  decide +kernel

theorem injOn_oneCallEach {pool : EndpointPool} {t : List (Sigma RpcAns)}
    (hanswers : ∀ x ∈ t, x.2 = oneCallEach pool x.1) :
    (occurringStreams mixedAnchor [mixedCall, otherCall] t).InjOn sha256 := by
  rintro x ⟨_, _, _, results, hpart, hsub, hrun, hx⟩ y ⟨_, _, _, results', hpart', hsub', hrun', hy⟩
    hdigest
  have hmem := mem_occurringResults hpart (fun a ha => hanswers a (hsub.subset ha)) hrun
  have hmem' := mem_occurringResults hpart' (fun a ha => hanswers a (hsub'.subset ha)) hrun'
  have hsame := digests_occurringResults results hmem results' hmem'
  rw [hx, hy] at hsame
  exact Option.some.inj (hsame (congrArg some hdigest))

/-- The two calls were executed in two batches of that kind. -/
def SoundlyHalved (pool : EndpointPool) (referenceKind : String) : Prop :=
  ∃ t b b', (b.evidence.blockReferenceKind = referenceKind ∧
      b'.evidence.blockReferenceKind = referenceKind) ∧
    Runs (legacySample.execute [mixedCall, otherCall] mixedAnchor) t (.ok [b, b']) ∧
    ([b, b'].flatMap fun b => b.results.map RawCallResult.key) =
      [mixedCall, otherCall].map ContractCall.key ∧
    (∃ parts : List (List ContractCall), parts.flatten = [mixedCall, otherCall] ∧
      List.Forall₂ (fun part b => HashVerified pool mixedAnchor t part b ∨
        QuorumVerified 2 pool mixedAnchor t part b) parts [b, b']) ∧
    ∀ (state : EndpointPool) (now : Nat) (historicalBlock : Option Nat),
      (∃ e, state.selectDistinctGroups now 2 historicalBlock = .error e)
        ↔ (EndpointPool.servableGroups (fun e => e.canServe now historicalBlock)
            state.endpoints).card < 2

theorem legacy_executes_sound_sample :
    SoundlyHalved mixedPool "eip1898" ∧ SoundlyHalved quorumPool "number_quorum" := by
  have hsound : ∀ pool referenceKind,
      LegacyRpcBatchExecutor.TakesOne legacySample pool referenceKind →
        SoundlyHalved pool referenceKind := by
    intro pool referenceKind htakes
    obtain ⟨b, b', hkinds, hends⟩ := LegacyRpcBatchExecutor.executes_of_takesOne htakes
    have hruns := runs_answeredBy (oneCallEach pool)
      (legacySample.execute [mixedCall, otherCall] mixedAnchor)
    rw [hends] at hruns
    have hanswers : ∀ x ∈ traceOf (oneCallEach pool)
        (legacySample.execute [mixedCall, otherCall] mixedAnchor), x.2 = oneCallEach pool x.1 :=
      fun _ => answer_of_mem_traceOf
    refine ⟨_, b, b', hkinds, hruns, legacy_executes_sound legacySample pool [mixedCall, otherCall]
      mixedAnchor _ [b, b'] hruns ?_ (injOn_oneCallEach hanswers)⟩
    rintro ⟨op, answer⟩ hx
    obtain rfl : answer = oneCallEach pool op := hanswers _ hx
    exact answers_oneCallEach pool op
  exact ⟨hsound _ _ LegacyRpcBatchExecutor.takesOne_mixedPool,
    hsound _ _ LegacyRpcBatchExecutor.takesOne_quorumPool⟩

end RpcStateIndexer
