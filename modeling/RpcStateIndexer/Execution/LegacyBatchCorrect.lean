import RpcStateIndexer.Execution.LegacyBatch
import RpcStateIndexer.Storage.DigestsCorrect

/-!
# What a legacy batch proves

A batch is pinned to the anchor's hash on one endpoint, or agreed on by endpoints of distinct provider
groups that confirmed the anchor around their calls.  Providers agree when the digests of their results
do; that this means equal results is where the hash function has to be free of collisions.
-/

namespace RpcStateIndexer

open Reasoning Program

/-! ## The digest stream determines the results -/

theorem selfDelimiting_lengthBytes : SelfDelimiting lengthBytes := by
  refine .ofBytesBE 4 fun n x hn => ?_
  unfold lengthBytes at hn
  split at hn
  · next h => exact ⟨h, (Except.ok.inj hn).symm⟩
  · exact absurd hn error_ne_ok

/-- The code that is written for no code is read back as a code. -/
theorem determines_codeBytes : Determines codeBytes fun code => code.getD (-2 ^ 31) := by
  have hok : ∀ code x, codeBytes code = .ok x → -2 ^ 63 ≤ code.getD (-2 ^ 31) ∧
      code.getD (-2 ^ 31) < 2 ^ 63 ∧ x = bytesBE 8 (code.getD (-2 ^ 31) % 2 ^ 64).toNat := by
    intro code x hcode
    simp only [codeBytes] at hcode
    split at hcode
    · next h => exact ⟨h.1, h.2, (Except.ok.inj hcode).symm⟩
    · exact absurd hcode error_ne_ok
  intro a b x y s t hx hy h
  obtain ⟨ha, ha', rfl⟩ := hok a x hx
  obtain ⟨hb, hb', rfl⟩ := hok b y hy
  obtain ⟨hbytes, rfl⟩ := List.append_inj h (by rw [length_bytesBE, length_bytesBE])
  refine ⟨?_, rfl⟩
  show a.getD (-2 ^ 31) = b.getD (-2 ^ 31)
  have hbound : ∀ i : Int, (i % 2 ^ 64).toNat < 256 ^ 8 := by
    intro i
    omega
  have hnat := bytesBE_inj (hbound _) (hbound _) hbytes
  -- Both are residues of the signed range, which two's complement tells apart.
  exact emod_inj_of_signed ha ha' hb hb' (by omega)

theorem selfDelimiting_successByte :
    SelfDelimiting fun success : Bool => (.ok [if success then 1 else 0] : Except RpcFault (List UInt8)) := by
  apply SelfDelimiting.of_length (n := 1)
  · intro b x hx
    rw [← Except.ok.inj hx]
    rfl
  · intro a b x ha hb
    have hbyte := Except.ok.inj (ha.trans hb.symm)
    cases a <;> cases b <;> first | rfl | exact absurd hbyte (by decide)

/-- What the stream says of a result: all but whether a code or a message is there at all. -/
def RawCallResult.written (r : RawCallResult) : String × Bool × List UInt8 × Int × String :=
  (r.key, r.success, r.returndata, r.errorCode.getD (-2 ^ 31), r.errorMessage.getD "")

theorem determines_updates :
    Determines (fun r : RawCallResult => updates r.updates) RawCallResult.written := by
  have hmessage := Determines.prefixed selfDelimiting_lengthBytes
    (fun r : RawCallResult => utf8 (r.errorMessage.getD "")) Determines.nil
  have hcode := (determines_codeBytes.comap RawCallResult.errorCode).cons hmessage
  have hdata := Determines.prefixed selfDelimiting_lengthBytes
    (fun r : RawCallResult => r.returndata) hcode
  have hsuccess := (selfDelimiting_successByte.comap RawCallResult.success).cons hdata
  have hkey := Determines.prefixed selfDelimiting_lengthBytes
    (fun r : RawCallResult => utf8 r.key) hsuccess
  intro a b x y s t hx hy h
  obtain ⟨hfields, rfl⟩ := hkey hx hy h
  simp only [Prod.mk.injEq, id_eq] at hfields
  obtain ⟨hkey, hsuccess, hdata, hcode, hmessage, -⟩ := hfields
  refine ⟨?_, rfl⟩
  simp only [RawCallResult.written, utf8_injective hkey, hsuccess, hdata, hcode,
    utf8_injective hmessage]

/-- The result of a call that was made: data, or a code and a message. -/
def ResultOf (c : ContractCall) (r : RawCallResult) : Prop :=
  (∃ raw, r = { key := c.key, success := true, returndata := raw }) ∨
    ∃ code message, r = failedResult c code message

theorem ResultOf.key {c : ContractCall} {r : RawCallResult} (h : ResultOf c r) : r.key = c.key := by
  obtain ⟨_, rfl⟩ | ⟨_, _, rfl⟩ := h
  · rfl
  · rfl

/-- The success of a result says whether it has a code and a message. -/
theorem ResultOf.eq {c : ContractCall} {r r' : RawCallResult} (h : ResultOf c r) (h' : ResultOf c r')
    (hwritten : r.written = r'.written) : r = r' := by
  obtain ⟨raw, rfl⟩ | ⟨code, message, rfl⟩ := h <;>
    obtain ⟨raw', rfl⟩ | ⟨code', message', rfl⟩ := h' <;>
    simp_all [RawCallResult.written, failedResult]

theorem results_eq {calls : List ContractCall} {results results' : List RawCallResult}
    {stream : List UInt8} (h : List.Forall₂ ResultOf calls results)
    (h' : List.Forall₂ ResultOf calls results') (hstream : rawResultStream results = .ok stream)
    (hstream' : rawResultStream results' = .ok stream) : results = results' := by
  have hlength : results.length = results'.length := h.length_eq.symm.trans h'.length_eq
  have hend : stream ++ [] = stream ++ [] := rfl
  have hwritten := (determines_updates.records hlength hstream hstream' hend).1
  clear hstream hstream' hlength
  induction h generalizing results' with
  | nil =>
    cases h'
    rfl
  | cons hfirst _ ih =>
    cases h' with
    | cons hfirst' hrest' =>
      rw [List.map_cons, List.map_cons, List.cons.injEq] at hwritten
      rw [hfirst.eq hfirst' hwritten.1, ih hrest' hwritten.2]

/-! ## The results of one endpoint -/

theorem resultOf_decodedResult {c : ContractCall} {encoded : String} {e : RpcFault} {r : RawCallResult}
    (h : decodedResult c encoded e = .ok r) : ResultOf c r := by
  unfold decodedResult at h
  split at h
  · next raw _ => exact .inl ⟨raw, (Except.ok.inj h).symm⟩
  · exact absurd h error_ne_ok

theorem resultOf_decodeResponse {c : ContractCall} {requestId : Nat}
    {response : List (String × Json)} {r : RawCallResult}
    (h : decodeResponse c requestId response = .ok r) : ResultOf c r := by
  unfold decodeResponse at h
  split at h
  · split at h
    · next code message _ => exact .inr ⟨code, message, (Except.ok.inj h).symm⟩
    · exact absurd h error_ne_ok
  · exact absurd h error_ne_ok
  · exact resultOf_decodedResult h
  · exact absurd h error_ne_ok
  · exact absurd h error_ne_ok

theorem resultOf_individualResult {c : ContractCall} {value : Except RpcFault Json}
    {r : RawCallResult} (h : individualResult c value = .ok r) : ResultOf c r := by
  unfold individualResult at h
  split at h
  · next code message _ => exact .inr ⟨code, message, (Except.ok.inj h).symm⟩
  · exact absurd h error_ne_ok
  · exact resultOf_decodedResult h
  · exact absurd h error_ne_ok

theorem forall₂_zipIdx {α β : Type} {R : α → β → Prop} {as : List α} {bs : List β} {start : Nat}
    (h : List.Forall₂ (fun x b => R x.1 b) (as.zipIdx start) bs) : List.Forall₂ R as bs := by
  rw [← @List.zipIdx_map_fst _ start as, List.forall₂_map_left_iff]
  exact h

theorem decodeBatchResponses_eq_ok {responses : List (List (String × Json))}
    {calls : List ContractCall} {results : List RawCallResult}
    (h : decodeBatchResponses responses calls = .ok results) :
    List.Forall₂ ResultOf calls results := by
  simp only [decodeBatchResponses, except_bind_eq_ok_iff] at h
  obtain ⟨byId, -, _, -, hresults⟩ := h
  exact forall₂_zipIdx ((mapM_eq_ok_iff.mp hresults).imp fun _ _ => resultOf_decodeResponse)

theorem raiseLimits_eq_ok_iff {results results' : List RawCallResult} :
    raiseLimits results = .ok results' ↔ results' = results ∧ ∀ r ∈ results, isLimit r = false := by
  unfold raiseLimits
  split
  · next r hr =>
    refine iff_of_false error_ne_ok fun h => ?_
    have hlimit := h.2 r (List.mem_of_find?_eq_some hr)
    rw [List.find?_some hr] at hlimit
    cases hlimit
  · next hnone =>
    rw [List.find?_eq_none] at hnone
    constructor
    · intro h
      exact ⟨(Except.ok.inj h).symm, fun r hr => eq_false_of_ne_true (hnone r hr)⟩
    · rintro ⟨rfl, -⟩
      rfl

variable {endpoint : EndpointConfig} {calls : List ContractCall} {anchor : BlockRef}
  {t : List (Sigma RpcAns)}

/-- Whichever way the calls are sent, the endpoint's results are those of the calls, in their order. -/
theorem resultOf_runOnEndpoint {eip1898 : Bool} {results : List RawCallResult}
    (h : Runs (runOnEndpoint endpoint calls anchor eip1898) t (.ok results)) :
    List.Forall₂ ResultOf calls results := by
  rw [runOnEndpoint] at h
  obtain ⟨reference, t₁, t₂, rfl, -, h₂⟩ := runs_bind_ok_iff.mp h
  obtain ⟨obtained, t₃, t₄, rfl, h₃, h₄⟩ := runs_bind_ok_iff.mp h₂
  obtain ⟨-, hlimits⟩ := runs_ofExcept_iff.mp h₄
  obtain ⟨rfl, -⟩ := raiseLimits_eq_ok_iff.mp hlimits.symm
  rw [sendCalls] at h₃
  split at h₃
  · obtain ⟨responses, t₅, t₆, rfl, -, h₆⟩ := runs_bind_ok_iff.mp h₃
    obtain ⟨-, hdecoded⟩ := runs_ofExcept_iff.mp h₆
    exact decodeBatchResponses_eq_ok hdecoded.symm
  · have hparts := runs_gather_ok h₃
    rw [List.forall₂_map_left_iff] at hparts
    refine forall₂_zipIdx (hparts.imp ?_)
    rintro ⟨c, exchange⟩ r ⟨t', -, hone⟩
    obtain ⟨value, _, _, -, -, hvalue⟩ := runs_bind_ok_iff.mp hone
    exact resultOf_individualResult (runs_ofExcept_iff.mp hvalue).2.symm

/-- The requests of a payload. -/
def requestsOf : Json → List Json
  | .arr requests => requests
  | request => [request]

/-- An operation that asks nothing but `eth_call`s of the endpoint, pinned by the reference. -/
def CallsOnly (endpoint : EndpointConfig) (reference : Json) : RpcOp → Prop
  | .post e payload _ => e = endpoint ∧ ∀ request ∈ requestsOf payload, ∃ requestId target calldata,
      request = requestObject requestId "eth_call" (ethCallParams target calldata reference)
  | .nextId => True
  | .turn => True
  | _ => False

theorem asks_batchOnEndpoint {reference : Json} :
    Asks (CallsOnly endpoint reference)
      (batchOnEndpoint endpoint (buildBatchRequests calls reference)) := by
  rw [batchOnEndpoint]
  split
  · trivial
  · refine ⟨⟨rfl, fun request hrequest => ?_⟩, fun reply => (Asks.ofExcept reply).bind fun _ => .ofExcept _⟩
    obtain ⟨⟨c, requestId⟩, -, rfl⟩ := List.mem_map.mp hrequest
    exact ⟨requestId, c.target, c.calldata, rfl⟩

theorem asks_one {reference : Json} {c : ContractCall} {exchange : Nat} :
    Asks (CallsOnly endpoint reference) (one endpoint reference c exchange) := by
  have hcall : Asks (CallsOnly endpoint reference) (callOnEndpoint endpoint "eth_call"
      (ethCallParams c.target c.calldata reference) exchange) := by
    refine ⟨trivial, fun requestId => ⟨⟨rfl, fun request hrequest => ?_⟩, fun reply => ?_⟩⟩
    · obtain rfl := List.mem_singleton.mp hrequest
      exact ⟨requestId, c.target, c.calldata, rfl⟩
    · exact (Asks.ofExcept reply).bind fun _ => .ofExcept _
  exact hcall.outcome.bind fun _ => .ofExcept _

/-- Every request of the calls is pinned by the one reference. -/
theorem callsOnly_of_runOnEndpoint {eip1898 : Bool} {r : Except RpcFault (List RawCallResult)}
    (h : Runs (runOnEndpoint endpoint calls anchor eip1898) t r) {reference : Json}
    (hreference : callReference anchor eip1898 = .ok reference) :
    ∀ x ∈ t, CallsOnly endpoint reference x.1 := by
  obtain ⟨reference', t₁, t₂, rfl, h₁, h₂⟩ | ⟨e, h₁, -⟩ := runs_bind_iff.mp h
  · obtain ⟨rfl, hreference'⟩ := runs_ofExcept_iff.mp h₁
    obtain rfl := Except.ok.inj (hreference'.trans hreference)
    refine Asks.runs (Asks.bind ?_ fun _ => .ofExcept _) h₂
    rw [sendCalls]
    split
    · exact asks_batchOnEndpoint.bind fun _ => .ofExcept _
    · refine Asks.gather trivial fun p hp => ?_
      obtain ⟨⟨c, exchange⟩, -, rfl⟩ := List.mem_map.mp hp
      exact asks_one
  · rw [(runs_ofExcept_iff.mp h₁).1]
    exact List.forall_mem_nil _

/-! ## What a batch rests on -/

/-- The batch comes from one endpoint that takes hashes, asked by the anchor's hash alone. -/
structure HashVerified (pool : EndpointPool) (anchor : BlockRef) (t : List (Sigma RpcAns))
    (calls : List ContractCall) (b : VerifiedBatchResult) : Prop where
  kind : b.evidence.blockReferenceKind = "eip1898"
  source : ∃ endpoint ∈ pool.configs, endpoint.supportsEip1898 = true ∧
    b.evidence.providerGroups = [endpoint.providerGroup] ∧
    ∃ hash run, normalizeHash (.str anchor.blockHash) = .ok hash ∧ run.Sublist t ∧
      Runs (runOnEndpoint endpoint calls anchor true) run (.ok b.results) ∧
      ∀ x ∈ run, CallsOnly endpoint (hashReference hash) x.1

/-- Endpoints of distinct provider groups confirmed the anchor around their calls, and each of them
returned the results. -/
structure QuorumVerified (quorum : Nat) (pool : EndpointPool) (anchor : BlockRef)
    (t : List (Sigma RpcAns)) (calls : List ContractCall) (b : VerifiedBatchResult) : Prop where
  kind : b.evidence.blockReferenceKind = "number_quorum"
  source : ∃ endpoints : List EndpointConfig, quorum ≤ endpoints.length ∧
    (endpoints.map EndpointConfig.providerGroup).Nodup ∧
    b.evidence.providerGroups = endpoints.map EndpointConfig.providerGroup ∧
    ∀ endpoint ∈ endpoints, endpoint ∈ pool.configs ∧ ∃ before run after,
      (before ++ (run ++ after)).Sublist t ∧ AnchorConfirmed before endpoint anchor ∧
        Runs (runOnEndpoint endpoint calls anchor false) run (.ok b.results) ∧
        AnchorConfirmed after endpoint anchor

/-- The results of the calls, from one of the two sources. -/
structure LegacySound (quorum : Nat) (pool : EndpointPool) (anchor : BlockRef)
    (t : List (Sigma RpcAns)) (calls : List ContractCall) (b : VerifiedBatchResult) : Prop where
  results : List.Forall₂ ResultOf calls b.results
  source : HashVerified pool anchor t calls b ∨ QuorumVerified quorum pool anchor t calls b

/-- The streams that are hashed for results which an endpoint returned in `t`. -/
def occurringStreams (anchor : BlockRef) (calls : List ContractCall) (t : List (Sigma RpcAns)) :
    Set (List UInt8) :=
  {stream | ∃ endpoint part run results, part <:+: calls ∧ run.Sublist t ∧
    Runs (runOnEndpoint endpoint part anchor false) run (.ok results) ∧
    rawResultStream results = .ok stream}

variable {quorum : Nat} {pool : EndpointPool} {t' : List (Sigma RpcAns)} {b : VerifiedBatchResult}

theorem LegacySound.mono (h : LegacySound quorum pool anchor t calls b) (hsub : t.Sublist t') :
    LegacySound quorum pool anchor t' calls b := by
  refine ⟨h.results, ?_⟩
  obtain ⟨hkind, endpoint, hmem, hsupports, hgroups, hash, run, hhash, hrun, hsource⟩ | hquorum := h.source
  · exact .inl ⟨hkind, endpoint, hmem, hsupports, hgroups, hash, run, hhash, hrun.trans hsub, hsource⟩
  · obtain ⟨hkind, endpoints, hlength, hdistinct, hgroups, hall⟩ := hquorum
    refine .inr ⟨hkind, endpoints, hlength, hdistinct, hgroups, fun endpoint hmem => ?_⟩
    obtain ⟨hpool, before, run, after, hruns, hrest⟩ := hall endpoint hmem
    exact ⟨hpool, before, run, after, hruns.trans hsub, hrest⟩

theorem occurringStreams_mono {part : List ContractCall} (hpart : part <:+: calls)
    (hsub : t.Sublist t') : occurringStreams anchor part t ⊆ occurringStreams anchor calls t' := by
  rintro stream ⟨endpoint, part', run, results, hinfix, hrun, hresults⟩
  exact ⟨endpoint, part', run, results, hinfix.trans hpart, hrun.trans hsub, hresults⟩

namespace LegacyRpcBatchExecutor

theorem verifiedBatch_eq_ok {referenceKind : String} {providerGroups : List String}
    {results : List RawCallResult}
    (h : verifiedBatch anchor referenceKind providerGroups results = .ok b) :
    b.results = results ∧ b.evidence.blockReferenceKind = referenceKind ∧
      b.evidence.providerGroups = providerGroups := by
  simp only [verifiedBatch, except_bind_eq_ok_iff, except_pure_eq_ok_iff] at h
  obtain ⟨_, -, _, -, rfl⟩ := h
  exact ⟨rfl, rfl, rfl⟩

/-! ## One endpoint by hash -/

theorem sound_of_executeEip1898 {endpoint : EndpointConfig} (hpool : endpoint ∈ pool.configs)
    (hsupports : endpoint.supportsEip1898 = true)
    (h : Runs (executeEip1898 endpoint calls anchor) t (.ok b)) :
    LegacySound quorum pool anchor t calls b := by
  obtain ⟨results, t₁, t₂, rfl, h₁, h₂⟩ := runs_bind_ok_iff.mp h
  obtain ⟨rfl, hbatch⟩ := runs_ofExcept_iff.mp h₂
  obtain ⟨rfl, hkind, hgroups⟩ := verifiedBatch_eq_ok hbatch.symm
  refine ⟨resultOf_runOnEndpoint h₁, .inl ⟨hkind, endpoint, hpool, hsupports, hgroups, ?_⟩⟩
  -- A run that returns has got past its reference, so the anchor's hash is one.
  obtain ⟨reference, _, _, _, h₃, -⟩ := runs_bind_ok_iff.mp h₁
  obtain ⟨-, hreference⟩ := runs_ofExcept_iff.mp h₃
  have hhash := hreference.symm
  rw [callReference, if_pos rfl, eip1898Reference] at hhash
  simp only [except_bind_eq_ok_iff, except_pure_eq_ok_iff] at hhash
  obtain ⟨hash, hhash, rfl⟩ := hhash
  refine ⟨hash, t₁, hhash, List.sublist_append_left _ _, h₁, ?_⟩
  exact callsOnly_of_runOnEndpoint h₁ hreference.symm

/-! ## A quorum by number -/

theorem confirmed_of_runNumberSandwich {results : List RawCallResult}
    (h : Runs (runNumberSandwich calls anchor endpoint) t (.ok results)) :
    ∃ before run after, t = before ++ (run ++ after) ∧ AnchorConfirmed before endpoint anchor ∧
      Runs (runOnEndpoint endpoint calls anchor false) run (.ok results) ∧
      AnchorConfirmed after endpoint anchor := by
  obtain ⟨_, before, t₂, rfl, hbefore, h₂⟩ := runs_bind_ok_iff.mp h
  obtain ⟨results', run, t₄, rfl, hrun, h₄⟩ := runs_bind_ok_iff.mp h₂
  obtain ⟨_, after, t₆, rfl, hafter, h₆⟩ := runs_bind_ok_iff.mp h₄
  obtain ⟨rfl, hresults⟩ := runs_ret_iff.mp h₆
  obtain rfl := Except.ok.inj hresults
  rw [List.append_nil]
  exact ⟨before, run, after, rfl, anchorConfirmed_of_runs hbefore, hrun, anchorConfirmed_of_runs hafter⟩

theorem digestRawResults_eq_ok_iff {results : List RawCallResult} {digest : String} :
    digestRawResults results = .ok digest ↔
      ∃ stream, rawResultStream results = .ok stream ∧ hexdigest (sha256 stream) = digest := by
  simp only [digestRawResults, except_bind_eq_ok_iff, except_pure_eq_ok_iff]

/-- Providers that agree returned the same results, unless the hash function collides on them. -/
theorem eq_of_agreedResults {executions : List (List RawCallResult)} {first : List RawCallResult}
    {S : Set (List UInt8)} (hinj : S.InjOn sha256)
    (hstreams : ∀ results ∈ executions, List.Forall₂ ResultOf calls results ∧
      ∀ stream, rawResultStream results = .ok stream → stream ∈ S)
    (h : agreedResults executions = .ok first) : ∀ results ∈ executions, results = first := by
  simp only [agreedResults, except_bind_eq_ok_iff, check_eq_ok_iff, decide_eq_true_eq,
    except_pure_eq_ok_iff] at h
  obtain ⟨digests, hdigests, -, hone, rfl⟩ := h
  obtain ⟨digest, hdigest⟩ := List.length_eq_one_iff.mp hone
  have hsame : ∀ results ∈ executions, digestRawResults results = .ok digest := by
    intro results hresults
    obtain ⟨d, hd, heq⟩ := exists_of_mem_of_mapM hdigests hresults
    rw [← List.mem_dedup, hdigest, List.mem_singleton] at hd
    rw [heq, hd]
  cases executions with
  | nil => exact List.forall_mem_nil _
  | cons first rest =>
    intro results hresults
    have hfirst : first ∈ first :: rest := List.mem_cons_self
    obtain ⟨stream, hstream, hdigest₁⟩ := digestRawResults_eq_ok_iff.mp (hsame results hresults)
    obtain ⟨stream', hstream', hdigest₂⟩ := digestRawResults_eq_ok_iff.mp (hsame first hfirst)
    obtain ⟨hresultOf, hin⟩ := hstreams results hresults
    obtain ⟨hresultOf', hin'⟩ := hstreams first hfirst
    obtain rfl := hinj (hin stream hstream) (hin' stream' hstream')
      (hexdigest_injective (hdigest₁.trans hdigest₂.symm))
    exact results_eq hresultOf hresultOf' hstream hstream'

variable {executor : LegacyRpcBatchExecutor}

theorem sound_of_executeNumberQuorum (hpool : ∀ x ∈ t, pool.Answers x)
    (hinj : (occurringStreams anchor calls t).InjOn sha256)
    (h : Runs (executor.executeNumberQuorum calls anchor) t (.ok b)) :
    LegacySound executor.requiredProviderQuorum pool anchor t calls b := by
  obtain ⟨endpoints, t₁, t₂, rfl, h₁, h₂⟩ := runs_bind_ok_iff.mp h
  obtain ⟨executions, t₃, t₄, rfl, h₃, h₄⟩ := runs_bind_ok_iff.mp h₂
  obtain ⟨first, t₅, t₆, rfl, h₅, h₆⟩ := runs_bind_ok_iff.mp h₄
  obtain ⟨rfl, hagreed⟩ := runs_ofExcept_iff.mp h₅
  obtain ⟨rfl, hbatch⟩ := runs_ofExcept_iff.mp h₆
  obtain ⟨rfl, hkind, hgroups⟩ := verifiedBatch_eq_ok hbatch.symm
  -- What the pool chose.
  obtain ⟨reply, t₇, rfl, hreply⟩ := runs_call_iff.mp h₁
  obtain ⟨rfl, hchosen⟩ := runs_ofExcept_iff.mp hreply
  obtain ⟨state, now, hstate, hanswer⟩ : pool.Answers ⟨.selectDistinctGroups _ _, reply⟩ :=
    hpool _ List.mem_cons_self
  obtain ⟨hlength, hdistinct, hmem⟩ := EndpointPool.selectDistinctGroups_eq_ok
    (Nat.le_of_succ_le executor.requiredProviderQuorum_ge) (hanswer.trans hchosen.symm)
  rw [hstate] at hmem
  -- What each of them returned.
  have hsub : t₃.Sublist ([⟨.selectDistinctGroups _ _, reply⟩] ++ (t₃ ++ ([] ++ []))) := by simp
  have hparts := runs_gather_ok h₃
  rw [List.forall₂_map_left_iff] at hparts
  have hconfirmed : List.Forall₂ (fun endpoint results => ∃ before run after,
      (before ++ (run ++ after)).Sublist t₃ ∧ AnchorConfirmed before endpoint anchor ∧
        Runs (runOnEndpoint endpoint calls anchor false) run (.ok results) ∧
        AnchorConfirmed after endpoint anchor) endpoints executions := by
    refine hparts.imp ?_
    rintro endpoint results ⟨t', ht', hrun⟩
    obtain ⟨before, run, after, rfl, hrest⟩ := confirmed_of_runNumberSandwich hrun
    exact ⟨before, run, after, ht', hrest⟩
  have hstreams : ∀ results ∈ executions, List.Forall₂ ResultOf calls results ∧
      ∀ stream, rawResultStream results = .ok stream →
        stream ∈ occurringStreams anchor calls
          ([⟨.selectDistinctGroups _ _, reply⟩] ++ (t₃ ++ ([] ++ []))) := by
    intro results hresults
    obtain ⟨endpoint, -, before, run, after, ht', -, hrun, -⟩ := forall₂_right hconfirmed hresults
    refine ⟨resultOf_runOnEndpoint hrun, fun stream hstream => ?_⟩
    refine ⟨endpoint, calls, run, results, List.infix_rfl, ?_, hrun, hstream⟩
    exact ((List.sublist_append_of_sublist_right (List.sublist_append_left run after)).trans ht').trans
      hsub
  have hequal := eq_of_agreedResults hinj hstreams hagreed.symm
  have hall : ∀ endpoint ∈ endpoints, ∃ before run after,
      (before ++ (run ++ after)).Sublist t₃ ∧ AnchorConfirmed before endpoint anchor ∧
        Runs (runOnEndpoint endpoint calls anchor false) run (.ok b.results) ∧
        AnchorConfirmed after endpoint anchor := by
    intro endpoint hendpoint
    obtain ⟨results, hresults, hsource⟩ := forall₂_left hconfirmed hendpoint
    rwa [hequal results hresults] at hsource
  have hresults : List.Forall₂ ResultOf calls b.results := by
    have hpos : 0 < endpoints.length := by
      rw [hlength]
      exact Nat.lt_of_lt_of_le Nat.zero_lt_two executor.requiredProviderQuorum_ge
    obtain ⟨_, run, _, -, -, hrun, -⟩ := hall _ (List.getElem_mem hpos)
    exact resultOf_runOnEndpoint hrun
  refine ⟨hresults, .inr ⟨hkind, endpoints, hlength.ge, hdistinct, hgroups, fun endpoint hendpoint => ?_⟩⟩
  obtain ⟨before, run, after, hrun, hrest⟩ := hall endpoint hendpoint
  exact ⟨hmem endpoint hendpoint, before, run, after, hrun.trans hsub, hrest⟩

/-! ## Attempts, halving and all batches -/

theorem sound_of_quorumFallback {failed : Bool} (hpool : ∀ x ∈ t, pool.Answers x)
    (hinj : (occurringStreams anchor calls t).InjOn sha256)
    (h : Runs (executor.quorumFallback calls anchor failed) t (.ok b)) :
    LegacySound executor.requiredProviderQuorum pool anchor t calls b := by
  obtain ⟨b', hb, hrun⟩ | ⟨e, t₁, t₂, rfl, -, hhandler⟩ := runs_tryCatch_iff.mp h
  · obtain rfl := Except.ok.inj hb
    exact sound_of_executeNumberQuorum hpool hinj hrun
  · -- The handler only renames what is raised.
    cases e <;> exact absurd hhandler not_runs_raise_ok

theorem sound_of_executeAttempts {attempts : Nat} {excluded : List String} {failed : Bool}
    (hpool : ∀ x ∈ t, pool.Answers x) (hinj : (occurringStreams anchor calls t).InjOn sha256)
    (h : Runs (executor.executeAttempts calls anchor attempts excluded failed) t (.ok b)) :
    LegacySound executor.requiredProviderQuorum pool anchor t calls b := by
  induction attempts generalizing excluded failed t with
  | zero => exact sound_of_quorumFallback hpool hinj h
  | succ attempts ih =>
    rw [executeAttempts] at h
    obtain ⟨selected, t₁, t₂, rfl, h₁, h₂⟩ := runs_bind_ok_iff.mp h
    obtain ⟨hpool₁, hpool₂⟩ := List.forall_mem_append.mp hpool
    have hsub₂ : t₂.Sublist (t₁ ++ t₂) := List.sublist_append_right _ _
    have hinj₂ := hinj.mono (occurringStreams_mono List.infix_rfl hsub₂)
    obtain ⟨_, hselected, hselect⟩ := runs_outcome_iff.mp h₁
    obtain rfl := Except.ok.inj hselected
    split at h₂
    · exact (sound_of_quorumFallback hpool₂ hinj₂ h₂).mono hsub₂
    · exact absurd h₂ not_runs_raise_ok
    · next endpoint =>
      obtain ⟨result, t₃, t₄, rfl, h₃, h₄⟩ := runs_bind_ok_iff.mp h₂
      obtain ⟨_, hresult, honce⟩ := runs_outcome_iff.mp h₃
      obtain rfl := Except.ok.inj hresult
      -- The pool selected an endpoint of its own that takes hashes.
      obtain ⟨reply, t₅, rfl, hreply⟩ := runs_call_iff.mp hselect
      obtain ⟨rfl, hchosen⟩ := runs_ofExcept_iff.mp hreply
      obtain ⟨state, now, hstate, hanswer⟩ : pool.Answers ⟨.select _ _ _, reply⟩ :=
        hpool₁ _ List.mem_cons_self
      rw [← hchosen] at hanswer
      cases result with
      | ok batch =>
        obtain ⟨_, t₇, t₈, rfl, -, h₈⟩ := runs_bind_ok_iff.mp h₄
        obtain ⟨-, hbatch⟩ := runs_ret_iff.mp h₈
        obtain rfl := Except.ok.inj hbatch
        obtain ⟨e, he, hconfig, -⟩ := EndpointPool.select_eq_ok hanswer
        have hmem : endpoint ∈ pool.configs := by
          rw [← hstate, ← hconfig]
          exact List.mem_map_of_mem he
        have hsound : LegacySound executor.requiredProviderQuorum pool anchor t₃ calls b :=
          sound_of_executeEip1898 hmem (EndpointPool.supportsEip1898_of_select hanswer) honce
        exact hsound.mono ((List.sublist_append_left _ _).trans hsub₂)
      | error e =>
        simp only at h₄
        obtain ⟨_, t₇, t₈, rfl, -, h₈⟩ := runs_bind_ok_iff.mp h₄
        split at h₈
        · exact absurd h₈ not_runs_raise_ok
        · split at h₈
          · exact absurd h₈ not_runs_raise_ok
          · have hsub : t₈.Sublist (t₃ ++ (t₇ ++ t₈)) :=
              List.sublist_append_of_sublist_right (List.sublist_append_right _ _)
            refine (ih (fun x hx => hpool₂ x (hsub.subset hx)) ?_ h₈).mono (hsub.trans hsub₂)
            exact hinj₂.mono (occurringStreams_mono List.infix_rfl hsub)

/-- Halving keeps the order of the calls. -/
theorem sound_of_executeAdaptive (hnonempty : calls ≠ []) {batches : List VerifiedBatchResult}
    (hpool : ∀ x ∈ t, pool.Answers x) (hinj : (occurringStreams anchor calls t).InjOn sha256)
    (h : Runs (executor.executeAdaptive calls anchor) t (.ok batches)) :
    Covers (LegacySound executor.requiredProviderQuorum pool anchor t) calls.length calls batches := by
  induction hlength : calls.length using Nat.strong_induction_on generalizing calls t batches with
  | h length ih =>
    subst hlength
    rw [executeAdaptive] at h
    obtain ⟨result, t₁, t₂, rfl, h₁, h₂⟩ := runs_bind_ok_iff.mp h
    obtain ⟨hpool₁, hpool₂⟩ := List.forall_mem_append.mp hpool
    obtain ⟨_, hresult, honce⟩ := runs_outcome_iff.mp h₁
    obtain rfl := Except.ok.inj hresult
    have hsub₁ : t₁.Sublist (t₁ ++ t₂) := List.sublist_append_left _ _
    have hsub₂ : t₂.Sublist (t₁ ++ t₂) := List.sublist_append_right _ _
    split at h₂
    · next batch =>
      obtain ⟨rfl, hbatches⟩ := runs_ret_iff.mp h₂
      rw [Except.ok.inj hbatches]
      have hinj₁ := hinj.mono (occurringStreams_mono List.infix_rfl hsub₁)
      exact .singleton hnonempty le_rfl ((sound_of_executeAttempts hpool₁ hinj₁ honce).mono hsub₁)
    · next e =>
      simp only at h₂
      split at h₂
      · exact absurd h₂ not_runs_raise_ok
      · split at h₂
        · exact absurd h₂ not_runs_raise_ok
        · next hlong =>
          obtain ⟨first, t₃, t₄, rfl, h₃, h₄⟩ := runs_bind_ok_iff.mp h₂
          obtain ⟨second, t₅, t₆, rfl, h₅, h₆⟩ := runs_bind_ok_iff.mp h₄
          obtain ⟨rfl, hbatches⟩ := runs_ret_iff.mp h₆
          rw [Except.ok.inj hbatches]
          obtain ⟨⟨hfirst_ne, hfirst⟩, hsecond_ne, hsecond⟩ := halves_spec hlong
          have hsub₃ : t₃.Sublist (t₁ ++ (t₃ ++ (t₅ ++ []))) :=
            (List.sublist_append_left _ _).trans hsub₂
          have hsub₅ : t₅.Sublist (t₁ ++ (t₃ ++ (t₅ ++ []))) := by
            refine List.Sublist.trans ?_ hsub₂
            exact List.sublist_append_of_sublist_right (List.sublist_append_left _ _)
          have hleft := ih _ hfirst hfirst_ne (fun x hx => hpool x (hsub₃.subset hx))
            (hinj.mono (occurringStreams_mono (List.take_prefix _ _).isInfix hsub₃)) h₃ rfl
          have hright := ih _ hsecond hsecond_ne (fun x hx => hpool x (hsub₅.subset hx))
            (hinj.mono (occurringStreams_mono (List.drop_suffix _ _).isInfix hsub₅)) h₅ rfl
          have hboth := (hleft.mono hfirst.le fun _ _ hb => hb.mono hsub₃).append
            (hright.mono hsecond.le fun _ _ hb => hb.mono hsub₅)
          rwa [List.take_append_drop] at hboth

theorem infix_of_mem_flatten {α : Type} {part : List α} {parts : List (List α)} (h : part ∈ parts) :
    part <:+: parts.flatten := by
  obtain ⟨before, after, rfl⟩ := List.append_of_mem h
  exact ⟨before.flatten, after.flatten, by simp⟩

theorem sound_of_execute {batches : List VerifiedBatchResult} (hpool : ∀ x ∈ t, pool.Answers x)
    (hinj : (occurringStreams anchor calls t).InjOn sha256)
    (h : Runs (executor.execute calls anchor) t (.ok batches)) :
    Covers (LegacySound executor.requiredProviderQuorum pool anchor t) executor.batchSize calls
      batches := by
  obtain ⟨slots, t₁, t₂, rfl, h₁, h₂⟩ := runs_bind_ok_iff.mp h
  obtain ⟨rfl, hbatches⟩ := runs_ret_iff.mp h₂
  rw [List.append_nil] at hpool hinj ⊢
  rw [Except.ok.inj hbatches]
  have hflatten := flatten_chunked executor.batchSize executor.batchSize_pos calls
  have hgroups := (List.forall₂_and_left _ _).mpr ⟨fun _ hg => hg, runs_mapM_ok h₁⟩
  have hcovers : List.Forall₂
      (Covers (LegacySound executor.requiredProviderQuorum pool anchor t₁) executor.batchSize)
      (chunked executor.batchSize executor.batchSize_pos calls) slots := by
    refine hgroups.imp ?_
    rintro group slot ⟨hmem, run, hsub, hrun⟩
    obtain ⟨hnonempty, hlength⟩ := length_of_mem_chunked hmem
    have hinfix := infix_of_mem_flatten hmem
    rw [hflatten] at hinfix
    have hsound := sound_of_executeAdaptive hnonempty (fun x hx => hpool x (hsub.subset hx))
      (hinj.mono (occurringStreams_mono hinfix hsub)) hrun
    exact hsound.mono hlength fun _ _ hb => hb.mono hsub
  have hall := Covers.flatten hcovers
  rwa [hflatten] at hall

end LegacyRpcBatchExecutor

end RpcStateIndexer
