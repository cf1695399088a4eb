import RpcStateIndexer.Execution.MulticallCorrect

/-!
# The contract of the Multicall executor

What holds of a returned execution, that an execution comes to an end, and when the evidence of its
batches tells the truth about their results.
-/

namespace RpcStateIndexer

open Reasoning Program Multicall3Executor

/-- A returned execution has a proven result for each call, in the order of the calls, in batches of the
size that was configured; and whatever is answered, an execution returns or raises. -/
theorem executes_sound (executor : Multicall3Executor) (calls : List ContractCall)
    (anchor : BlockRef) :
    (∀ t batches, executor.Executes calls anchor t (.ok batches) →
      (batches.flatMap fun b => b.batch.results.map RawCallResult.key)
          = calls.map ContractCall.key ∧
        List.Forall₂ (Proven executor anchor t) calls (batches.flatMap ExecutedBatch.obtained) ∧
        ∀ b ∈ batches, b.batch.results ≠ [] ∧ b.batch.results.length ≤ executor.batchSize ∧
          digestRawResults b.batch.results = .ok b.batch.evidence.resultDigest) ∧
    ∀ env : (op : RpcOp) → RpcAns op, ∃ t r, executor.Executes calls anchor t r ∧
      ∀ x ∈ t, x.2 = env x.1 := by
  refine ⟨fun t batches h => ?_, fun env => ?_⟩
  · obtain ⟨parts, rfl, hparts⟩ := sound_of_executes h
    have hobtained : List.Forall₂ (Proven executor anchor t) parts.flatten
        (batches.flatMap ExecutedBatch.obtained) := by
      rw [List.flatMap_def]
      apply List.rel_flatten
      rw [List.forall₂_map_right_iff]
      exact hparts.imp fun _ _ hpart => hpart.2.2.obtained
    refine ⟨?_, hobtained, fun b hb => ?_⟩
    · have hkeys : (batches.flatMap ExecutedBatch.obtained).map (fun o => o.result.key)
          = parts.flatten.map ContractCall.key := by
        rw [← List.forall₂_eq_eq_eq, List.forall₂_map_left_iff, List.forall₂_map_right_iff]
        exact hobtained.flip.imp fun _ _ hproven => hproven.key
      rw [← hkeys, List.map_flatMap]
      apply List.flatMap_congr
      intro b _
      rw [ExecutedBatch.batch, List.map_map]
      rfl
    · obtain ⟨part, -, hnonempty, hlength, hsound⟩ := forall₂_right hparts hb
      have hlen : b.batch.results.length = part.length := by
        rw [ExecutedBatch.batch, List.length_map, hsound.obtained.length_eq]
      refine ⟨?_, hlen ▸ hlength, hsound.digest⟩
      apply List.ne_nil_of_length_pos
      rw [hlen]
      exact List.length_pos_of_ne_nil hnonempty
  · simp only [Executes]
    by_cases hdeployed : anchor.number < executor.deploymentBlock
    · simp only [if_pos hdeployed]
      exact ⟨[], _, ⟨rfl, rfl⟩, List.forall_mem_nil _⟩
    · by_cases hgenesis : anchor.number = 0
      · simp only [if_neg hdeployed, if_pos hgenesis]
        exact ⟨[], _, ⟨rfl, rfl⟩, List.forall_mem_nil _⟩
      · simp only [if_neg hdeployed, if_neg hgenesis]
        split
        · exact ⟨_, _, runs_answeredBy env _, fun x hx => answer_of_mem_traceOf hx⟩
        · obtain ⟨t, slots, hruns, ht⟩ := exists_groupRuns env executor.maxParallelBatches_pos
            ((executor.groups calls).map fun group => executor.executeAdaptive group anchor) []
          rw [List.map_nil, List.nil_append, List.map_map] at hruns
          exact ⟨t, _, ⟨slots, hruns, rfl⟩, ht⟩

/-! ## Executions that a pool allows -/

namespace Multicall3Executor

section Pool

variable {pool : EndpointPool} {executor : Multicall3Executor} {anchor : BlockRef}
  {endpoint : EndpointConfig} {calldata : List UInt8} {reference : Json} {encoded : String}

/-- The endpoint answers, whichever way it is pinned to the anchor. -/
theorem mayEnd_callPinned {observed : String}
    (h : normalizeHash (.str anchor.blockHash) = .ok observed) :
    MayEnd pool.Answers (executor.callPinned endpoint calldata anchor reference) (.ok encoded) := by
  have hconfirm : MayEnd pool.Answers (confirmNumber endpoint anchor) (.ok ()) := by
    rw [confirmNumber]
    split
    · exact .ret ()
    · exact mayEnd_assertAnchorHash h
  exact hconfirm.bind (.bind (mayEnd_callOnEndpoint endpoint _ _ _ (.str encoded))
    (hconfirm.bind (.ret encoded)))

theorem mayEnd_callPinned_error {e : RpcFault} (h : endpoint.supportsEip1898 = true) :
    MayEnd pool.Answers (executor.callPinned endpoint calldata anchor reference) (.error e) := by
  have hconfirm : confirmNumber endpoint anchor = .ret () := by
    rw [confirmNumber, if_pos h]
    rfl
  rw [callPinned, hconfirm, ret_bind]
  exact .bind_error (mayEnd_callOnEndpoint_error endpoint _ _ _ e)

variable {attempts : Nat} {excluded : List String} {last : Option (EndpointConfig × RpcFailure)}

theorem mayEnd_ethCallAttempts
    (hselect : MayEnd pool.Answers (select anchor excluded) (.ok endpoint))
    (hreference : anchorReference endpoint anchor = .ok reference)
    (hcall : MayEnd pool.Answers (executor.callPinned endpoint calldata anchor reference)
      (.ok encoded)) :
    MayEnd pool.Answers (executor.ethCallAttempts calldata anchor (attempts + 1) excluded last)
      (.ok ⟨encoded, endpoint, referenceKind endpoint⟩) := by
  rw [ethCallAttempts]
  refine .bind (.guarded hselect) ?_
  rw [hreference]
  refine .bind (.ofExcept _) (.bind hcall.outcome ?_)
  exact .call () trivial (.ret _)

/-- A transport that failed is followed by the next attempt, without the endpoint. -/
theorem mayEnd_ethCallAttempts_retry {message : String} {r : Except RpcFault ServedCall}
    (hselect : MayEnd pool.Answers (select anchor excluded) (.ok endpoint))
    (hreference : anchorReference endpoint anchor = .ok reference)
    (hcall : MayEnd pool.Answers (executor.callPinned endpoint calldata anchor reference)
      (.error (.transport message)))
    (h : MayEnd pool.Answers (executor.ethCallAttempts calldata anchor attempts
      (endpoint.name :: excluded) (some (endpoint, ⟨.transient, true, true⟩))) r) :
    MayEnd pool.Answers (executor.ethCallAttempts calldata anchor (attempts + 1) excluded last) r := by
  rw [ethCallAttempts]
  refine .bind (.guarded hselect) ?_
  rw [hreference]
  refine .bind (.ofExcept _) (.bind hcall.outcome ?_)
  exact .call () trivial h

theorem mayEnd_executeAttempts {calls : List ContractCall}
    {finish : List (ContractCall × Obtained) → ClientProgram (List (Obtained × List String))}
    {served : ServedCall} {decoded : List (Bool × List UInt8)}
    {pieces : List (Obtained × List String)} {b : ExecutedBatch}
    (hcall : MayEnd pool.Answers (executor.ethCall calldata anchor excluded) (.ok served))
    (hverified : executor.verifiedResults served.encoded (calls.length + 6) anchor = .ok decoded)
    (hfinish : MayEnd pool.Answers (finish (calls.zip (body calls decoded served))) (.ok pieces))
    (hbatch : verifiedBatch anchor served pieces = .ok b) :
    MayEnd pool.Answers (executor.executeAttempts calls anchor calldata finish (attempts + 1) excluded)
      (.ok b) := by
  rw [executeAttempts]
  refine .bind hcall ?_
  rw [hverified]
  refine .bind hfinish ?_
  rw [hbatch]
  exact .ofExcept _

theorem verifySentinels_of_triple {results : List (Bool × List UInt8)}
    (h : SentinelTriple results anchor) (position : String) :
    verifySentinels results anchor position = .ok () := by
  obtain ⟨block, timestamp, parent, rfl, hblock, htimestamp, hlength, hparent⟩ := h
  simp [verifySentinels, hblock, htimestamp, hlength, hparent, check]

/-- A response between proofs of the anchor is accepted. -/
theorem verifiedResults_of_triples {head results tail : List (Bool × List UInt8)} {bytes : List UInt8}
    (hhead : SentinelTriple head anchor) (htail : SentinelTriple tail anchor) (hbytes : bytes ≠ [])
    (hdecode : executor.codec.decode bytes = some (head ++ results ++ tail)) :
    executor.verifiedResults (hexData bytes) (results.length + 6) anchor
      = .ok (head ++ results ++ tail) := by
  have hheadLength : head.length = 3 := by
    obtain ⟨_, _, _, rfl, -⟩ := hhead
    rfl
  have htailLength : tail.length = 3 := by
    obtain ⟨_, _, _, rfl, -⟩ := htail
    rfl
  have hcount : (head ++ results ++ tail).length = results.length + 6 := by
    simp only [List.length_append]
    omega
  have hfirst : (head ++ results ++ tail).take 3 = head := by
    rw [List.append_assoc, ← hheadLength, List.take_left]
  have hlast : (head ++ results ++ tail).drop ((head ++ results ++ tail).length - 3) = tail := by
    have hdrop : (head ++ results ++ tail).length - 3 = (head ++ results).length := by
      rw [@List.length_append _ (head ++ results) tail]
      omega
    rw [hdrop, List.drop_left]
  have hdecoded : executor.decodeAggregate3 bytes = .ok (head ++ results ++ tail) := by
    rw [decodeAggregate3, hdecode]
    simp [hbytes]
  rw [verifiedResults, hexDataToBytes_hexData]
  change (executor.decodeAggregate3 bytes >>= _) = _
  rw [hdecoded]
  change (check _ _ >>= _) = _
  rw [hcount, hfirst, ← hcount, hlast, verifySentinels_of_triple hhead, verifySentinels_of_triple htail]
  simp [check]

/-- A result of the body is one of those between the proofs, under the key of one of the calls. -/
theorem result_of_mem_body {head results tail : List (Bool × List UInt8)} {calls : List ContractCall}
    {served : ServedCall} {o : Obtained} (hhead : SentinelTriple head anchor)
    (htail : SentinelTriple tail anchor) (h : o ∈ body calls (head ++ results ++ tail) served) :
    ∃ c ∈ calls, ∃ x ∈ results, o.result = { key := c.key, success := x.1, returndata := x.2 } := by
  have hresults : ((head ++ results ++ tail).drop 3).take ((head ++ results ++ tail).length - 6)
      = results := by
    obtain ⟨_, _, _, rfl, -⟩ := hhead
    obtain ⟨_, _, _, rfl, -⟩ := htail
    simp
  rw [body, hresults] at h
  obtain ⟨i, hi, rfl⟩ := List.mem_mapIdx.mp h
  obtain ⟨hc, hx⟩ := List.of_mem_zip (List.getElem_mem hi)
  exact ⟨_, hc, _, hx, rfl⟩

theorem digestible_of_result {key : String} {success : Bool} {data : List UInt8}
    (hkey : (utf8 key).length < 256 ^ 4) (hdata : data.length < 256 ^ 4) :
    RawCallResult.Digestible { key, success, returndata := data } where
  key := hkey
  returndata := hdata
  code := by simp
  message := by simp [utf8]

theorem exists_verifiedBatch {observed : String} {served : ServedCall}
    {pieces : List (Obtained × List String)}
    (h : normalizeHash (.str anchor.blockHash) = .ok observed)
    (hpieces : ∀ piece ∈ pieces, piece.1.result.Digestible) :
    ∃ b, verifiedBatch anchor served pieces = .ok b := by
  obtain ⟨digest, hdigest⟩ := exists_digestRawResults_iff.mpr
    (List.forall_mem_map.mpr hpieces : ∀ result ∈ pieces.map fun x => x.1.result, result.Digestible)
  rw [verifiedBatch, h]
  change ∃ b, (digestRawResults _ >>= _) = Except.ok b
  rw [hdigest]
  exact ⟨_, rfl⟩

/-- The subcall may be read again alone, with one result that `served` returned. -/
def RetriedFrom (pool : EndpointPool) (executor : Multicall3Executor) (anchor : BlockRef)
    (served : ServedCall) (c : ContractCall) : Prop :=
  ∃ only retry, only.origin.served = served ∧ only.result.Digestible ∧ retry.obtained = [only] ∧
    MayEnd pool.Answers (executor.executeSingle anchor c) (.ok retry)

theorem retriedFrom_of_ethCall {observed : String} {served : ServedCall} {c : ContractCall}
    {decoded : List (Bool × List UInt8)} (hhash : normalizeHash (.str anchor.blockHash) = .ok observed)
    (hpacked : executor.packedCalldata [c] anchor = .ok calldata)
    (hcall : MayEnd pool.Answers (executor.ethCall calldata anchor []) (.ok served))
    (hverified : executor.verifiedResults served.encoded 7 anchor = .ok decoded)
    (hdigest : ∀ o ∈ body [c] decoded served, o.result.Digestible) :
    RetriedFrom pool executor anchor served c := by
  obtain ⟨-, hcount, -⟩ := verifiedResults_eq_ok hverified
  obtain ⟨success, data, -, hbody⟩ := @getElem?_body [c] decoded served hcount 0 c rfl
  have hlength : (body [c] decoded served).length = 1 := length_body hcount
  obtain ⟨only, honly⟩ := List.length_eq_one_iff.mp hlength
  rw [honly] at hbody hdigest
  obtain rfl := Option.some.inj hbody
  obtain ⟨attempts, hattempts⟩ := Nat.exists_eq_succ_of_ne_zero
    (Nat.ne_of_gt executor.maxRetries_pos)
  have hdigestible : ∀ piece ∈ ([c].zip (body [c] decoded served)).map fun x => (x.2, ([] : List String)),
      piece.1.result.Digestible := by
    rw [honly]
    simpa using hdigest
  obtain ⟨retry, hretry⟩ : ∃ retry, verifiedBatch anchor served _ = .ok retry :=
    exists_verifiedBatch hhash hdigestible
  refine ⟨_, retry, rfl, hdigest _ List.mem_cons_self, ?_, ?_⟩
  · rw [(verifiedBatch_eq_ok hretry).1, honly]
    rfl
  · rw [executeSingle, hpacked, hattempts]
    exact .bind (.ofExcept _) (mayEnd_executeAttempts hcall hverified (.ret _) hretry)

/-- Every result of the batch was read again alone from `served`; its main call was another one. -/
structure MixedBatch (main served : ServedCall) (calls : List ContractCall) (b : ExecutedBatch) :
    Prop where
  length : b.obtained.length = calls.length
  obtained : ∀ o ∈ b.obtained, o.origin.served = served
  referenceKind : b.evidence.blockReferenceKind = main.referenceKind

/-- A batch of which every subcall failed and is read again. -/
theorem mayEnd_executeOnce {observed : String} {main served : ServedCall} {calls : List ContractCall}
    {decoded : List (Bool × List UInt8)} (hhash : normalizeHash (.str anchor.blockHash) = .ok observed)
    (hpacked : executor.packedCalldata calls anchor = .ok calldata)
    (hcall : MayEnd pool.Answers (executor.ethCall calldata anchor []) (.ok main))
    (hverified : executor.verifiedResults main.encoded (calls.length + 6) anchor = .ok decoded)
    (hfailed : ∀ o ∈ body calls decoded main, o.result.success = false)
    (hretry : ∀ c ∈ calls, RetriedFrom pool executor anchor served c) :
    ∃ b, MixedBatch main served calls b ∧
      MayEnd pool.Answers (executor.executeOnce calls anchor) (.ok b) := by
  obtain ⟨-, hcount, -⟩ := verifiedResults_eq_ok hverified
  obtain ⟨pieces, hpieces, hends⟩ := MayEnd.mapM (A := pool.Answers)
    (f := escalate (executor.executeSingle anchor)) (l := calls.zip (body calls decoded main))
    (P := fun _ piece => piece.1.origin.served = served ∧ piece.1.result.Digestible) (by
      rintro ⟨c, o⟩ hx
      obtain ⟨hc, ho⟩ := List.of_mem_zip hx
      obtain ⟨only, retry, hserved, hdigestible, hobtained, hretry⟩ := hretry c hc
      refine ⟨(only, retry.evidence.providerGroups), ⟨hserved, hdigestible⟩, ?_⟩
      rw [escalate, hfailed o ho]
      refine .bind hretry ?_
      rw [hobtained]
      exact .ret _)
  have hpiece : ∀ piece ∈ pieces,
      piece.1.origin.served = served ∧ piece.1.result.Digestible := fun piece hmem => by
    obtain ⟨_, -, h⟩ := forall₂_right hpieces hmem
    exact h
  obtain ⟨b, hb⟩ : ∃ b, verifiedBatch anchor main pieces = .ok b :=
    exists_verifiedBatch hhash fun piece hmem => (hpiece piece hmem).2
  obtain ⟨hobtained, -, hkind, -⟩ := verifiedBatch_eq_ok hb
  obtain ⟨attempts, hattempts⟩ := Nat.exists_eq_succ_of_ne_zero
    (Nat.ne_of_gt executor.maxRetries_pos)
  refine ⟨b, ⟨?_, ?_, hkind⟩, ?_⟩
  · rw [hobtained, List.length_map, ← hpieces.length_eq, List.length_zip, length_body hcount,
      Nat.min_self]
  · rw [hobtained]
    exact List.forall_mem_map.mpr fun piece hmem => (hpiece piece hmem).1
  · rw [executeOnce, hpacked, hattempts]
    exact .bind (.ofExcept _) (mayEnd_executeAttempts hcall hverified hends hb)

/-- The batches of all groups, one after another. -/
theorem mayEnd_executes {calls : List ContractCall} {P : List ContractCall → ExecutedBatch → Prop}
    (hdeployed : executor.deploymentBlock ≤ anchor.number) (hpositive : 0 < anchor.number)
    (honce : ∀ group ∈ executor.groups calls, ∃ b, P group b ∧
      MayEnd pool.Answers (executor.executeOnce group anchor) (.ok b)) :
    ∃ t batches, executor.Executes calls anchor t (.ok batches) ∧ (∀ x ∈ t, pool.Answers x) ∧
      List.Forall₂ P (executor.groups calls) batches := by
  have hadaptive : ∀ group ∈ executor.groups calls, ∃ b, P group b ∧
      MayEnd pool.Answers (executor.executeAdaptive group anchor) (.ok [b]) := fun group hgroup => by
    obtain ⟨b, hb, hends⟩ := honce group hgroup
    refine ⟨b, hb, ?_⟩
    rw [executeAdaptive]
    exact .bind hends.outcome (.ret [b])
  simp only [Executes, if_neg (Nat.not_lt.mpr hdeployed), if_neg (Nat.ne_of_gt hpositive)]
  split
  · next group hgroups =>
    rw [hgroups] at hadaptive ⊢
    obtain ⟨b, hb, t, hruns, ht⟩ := hadaptive group List.mem_cons_self
    exact ⟨t, [b], hruns, ht, .cons hb .nil⟩
  · have hslot : ∀ group ∈ executor.groups calls, ∃ bs, (∃ b, bs = [b] ∧ P group b) ∧
        MayEnd pool.Answers (executor.executeAdaptive group anchor) (.ok bs) := fun group hgroup => by
      obtain ⟨b, hb, hends⟩ := hadaptive group hgroup
      exact ⟨[b], ⟨b, rfl, hb⟩, hends⟩
    obtain ⟨slots, t, hslots, hruns, ht⟩ := MayEnd.group executor.maxParallelBatches_pos hslot []
    rw [List.map_nil, List.nil_append, List.map_map] at hruns
    refine ⟨t, slots.flatten, ⟨.ok slots, hruns, rfl⟩, ht, ?_⟩
    generalize executor.groups calls = groups at hslots
    clear hruns hslot hadaptive honce
    induction hslots with
    | nil => exact .nil
    | cons hfirst _ ih =>
      obtain ⟨b, rfl, hb⟩ := hfirst
      exact .cons hb ih

/-- Some health of the pool leads to each endpoint whose archive reaches the anchor. -/
theorem mayEnd_select (hmem : endpoint ∈ pool.configs) (hreaches : endpoint.Reaches anchor.number) :
    MayEnd pool.Answers (select anchor []) (.ok endpoint) := by
  have hask : ∀ requireEip1898 answer,
      ((pool.onlyUp endpoint).select 0 (some anchor.number) requireEip1898 []).1 = answer →
        MayEnd pool.Answers (selectEndpoint (some anchor.number) requireEip1898 []) answer :=
    fun _ answer hanswer =>
      .call answer ⟨pool.onlyUp endpoint, 0, pool.configs_onlyUp endpoint, hanswer⟩ (.ofExcept answer)
  have hselect := EndpointPool.select_onlyUp hmem hreaches
  cases hkind : endpoint.supportsEip1898 with
  | true =>
    have hfirst := hselect true
    rw [if_pos fun _ => hkind] at hfirst
    exact .guarded (hask true _ hfirst)
  | false =>
    have hfirst := hselect true
    rw [if_neg fun hsupports => Bool.false_ne_true (hkind ▸ hsupports rfl)] at hfirst
    obtain ⟨message, hfirst⟩ := hfirst
    have hsecond := hselect false
    rw [if_pos nofun] at hsecond
    exact .handled (hask true _ hfirst) (hask false _ hsecond)

theorem exists_anchorReference {observed : String}
    (h : normalizeHash (.str anchor.blockHash) = .ok observed) (endpoint : EndpointConfig) :
    ∃ reference, anchorReference endpoint anchor = .ok reference := by
  rw [anchorReference, eip1898Reference, h]
  split
  · exact ⟨_, rfl⟩
  · exact ⟨_, rfl⟩

theorem mayEnd_ethCall {observed : String} (hhash : normalizeHash (.str anchor.blockHash) = .ok observed)
    (hmem : endpoint ∈ pool.configs) (hreaches : endpoint.Reaches anchor.number) :
    MayEnd pool.Answers (executor.ethCall calldata anchor [])
      (.ok ⟨encoded, endpoint, referenceKind endpoint⟩) := by
  obtain ⟨reference, hreference⟩ := exists_anchorReference hhash endpoint
  obtain ⟨attempts, hattempts⟩ := Nat.exists_eq_succ_of_ne_zero
    (Nat.ne_of_gt executor.maxRetries_pos)
  rw [ethCall, hattempts]
  exact mayEnd_ethCallAttempts (mayEnd_select hmem hreaches) hreference (mayEnd_callPinned hhash)

end Pool

end Multicall3Executor

/-! ## A batch of two kinds

One endpoint serves the aggregate by hash and fails the subcall; asked for the subcall alone, its
transport fails, and the endpoint that is left reads it by number. -/

def abiWord (n : Nat) : List UInt8 := bytesBE 32 n

/-- A `bytes` value, padded to whole words. -/
def abiBytes (data : List UInt8) : List UInt8 :=
  abiWord data.length ++ data ++ List.replicate ((32 - data.length % 32) % 32) 0

/-- The offsets of values that stand one after another from `start` on. -/
def abiOffsets : Nat → List (List UInt8) → List UInt8
  | _, [] => []
  | start, v :: values => abiWord start ++ abiOffsets (start + v.length) values

/-- A list of dynamic values, after the offsets at which they stand. -/
def abiList (values : List (List UInt8)) : List UInt8 :=
  abiWord 32 ++ abiWord values.length ++ abiOffsets (32 * values.length) values ++ values.flatten

/-- `(bool,bytes)[]` -/
def abiResults (results : List (Bool × List UInt8)) : List UInt8 :=
  abiList (results.map fun x => abiWord x.1.toNat ++ abiWord 64 ++ abiBytes x.2)

/-- `(address,bool,bytes)[]` -/
def abiCalls (calls : List (String × Bool × List UInt8)) : List UInt8 :=
  abiList (calls.map fun x =>
    abiWord (hexValue x.1) ++ abiWord x.2.1.toNat ++ abiWord 96 ++ abiBytes x.2.2)

def mixedHash : List UInt8 := List.replicate 32 0x11
def mixedParent : List UInt8 := List.replicate 32 0x22

def mixedAnchor : BlockRef where
  number := 1
  blockHash := hexData mixedHash
  parentHash := hexData mixedParent
  timestamp := 1

def mixedTriple : List (Bool × List UInt8) :=
  [(true, abiWord 1), (true, abiWord 1), (true, mixedParent)]

def mainResults : List (Bool × List UInt8) := mixedTriple ++ [(false, [])] ++ mixedTriple
def retryResults : List (Bool × List UInt8) := mixedTriple ++ [(true, abiWord 7)] ++ mixedTriple

/-- The return data of the run are told apart by what they encode. -/
def decodeMixed (bytes : List UInt8) : Option (List (Bool × List UInt8)) :=
  [mainResults, retryResults].find? fun results => abiResults results = bytes

def mixedExecutor : Multicall3Executor where
  codec :=
    { encode := fun calls => .ok (abiCalls calls)
      decode := decodeMixed }
  address := zeroAddress
  deploymentBlock := 0
  batchSize := 1
  maxParallelBatches := 1
  maxRetries := 2
  batchSize_pos := Nat.le_refl 1
  maxParallelBatches_pos := Nat.le_refl 1
  maxRetries_pos := Nat.le_succ 1

def hashEndpoint : EndpointConfig where
  name := "a"
  url := "http://a"
  providerGroup := "ga"
  supportsHttpBatch := true
  supportsEip1898 := true
  archiveFromBlock := none

def numberEndpoint : EndpointConfig where
  name := "b"
  url := "http://b"
  providerGroup := "gb"
  supportsHttpBatch := true
  supportsEip1898 := false
  archiveFromBlock := none

def mixedPool : EndpointPool where
  endpoints := [⟨hashEndpoint, {}⟩, ⟨numberEndpoint, {}⟩]
  cursor := 0
  nonempty := List.cons_ne_nil _ _
  names_nodup := by decide

def mixedCall : ContractCall := { key := "k", target := zeroAddress, calldata := [] }

theorem decodeUint256_abiWord : decodeUint256 (abiWord 1) = some 1 := by
  rw [decodeUint256, abiWord, length_bytesBE, if_pos rfl, ofBytesBE_bytesBE (by decide)]

theorem sentinelTriple_mixedTriple : SentinelTriple mixedTriple mixedAnchor :=
  ⟨abiWord 1, abiWord 1, mixedParent, rfl, decodeUint256_abiWord, decodeUint256_abiWord,
    List.length_replicate, normalizeHash_hexData List.length_replicate⟩

theorem length_abiList (values : List (List UInt8)) :
    (abiList values).length = 64 + 32 * values.length + (values.map List.length).sum := by
  have hoffsets : ∀ start, (abiOffsets start values).length = 32 * values.length := by
    induction values with
    | nil => exact fun _ => rfl
    | cons v values ih =>
      intro start
      rw [abiOffsets, List.length_append, ih, abiWord, length_bytesBE, List.length_cons]
      omega
  rw [abiList, List.length_append, List.length_append, List.length_append, hoffsets, abiWord, abiWord,
    length_bytesBE, length_bytesBE, List.length_flatten]

theorem length_abiResults (results : List (Bool × List UInt8)) : (abiResults results).length =
    64 + 32 * results.length + (results.map fun x => 64 + (abiBytes x.2).length).sum := by
  rw [abiResults, length_abiList, List.length_map, List.map_map]
  refine congrArg (64 + 32 * results.length + List.sum ·) (List.map_congr_left fun x _ => ?_)
  rw [Function.comp_apply, List.length_append, List.length_append, abiWord, abiWord, length_bytesBE,
    length_bytesBE]

theorem abiResults_ne : abiResults mainResults ≠ abiResults retryResults := by
  intro heq
  have hlength := congrArg List.length heq
  rw [length_abiResults, length_abiResults] at hlength
  simp [mainResults, retryResults, mixedTriple, abiBytes, abiWord] at hlength

theorem decode_mainResults : decodeMixed (abiResults mainResults) = some mainResults := by
  simp only [decodeMixed, List.find?_cons, decide_true]

theorem decode_retryResults : decodeMixed (abiResults retryResults) = some retryResults := by
  simp only [decodeMixed, List.find?_cons, abiResults_ne, decide_false, decide_true]

theorem abiResults_ne_nil (results : List (Bool × List UInt8)) : abiResults results ≠ [] := by
  apply List.ne_nil_of_length_pos
  rw [length_abiResults]
  omega

theorem normalizeHash_mixedHash :
    normalizeHash (.str mixedAnchor.blockHash) = .ok (hexData mixedHash) :=
  normalizeHash_hexData List.length_replicate

theorem utf8_mixedKey : (utf8 mixedCall.key).length < 256 ^ 4 := by decide

namespace Multicall3Executor

theorem exists_packedCalldata (calls : List ContractCall) :
    ∃ calldata, mixedExecutor.packedCalldata calls mixedAnchor = .ok calldata := by
  have hword : uint256Word (mixedAnchor.number - 1) = .ok (abiWord 0) := rfl
  simp only [packedCalldata, sentinels, getBlockHashCalldata, hword]
  exact ⟨_, rfl⟩

/-- The aggregate is answered by the first endpoint. -/
def mixedMain : ServedCall := ⟨hexData (abiResults mainResults), hashEndpoint, "eip1898"⟩

/-- The subcall alone is answered by the second one. -/
def mixedRetry : ServedCall := ⟨hexData (abiResults retryResults), numberEndpoint, "number_hash_sandwich"⟩

theorem anchorReference_hashEndpoint :
    anchorReference hashEndpoint mixedAnchor = .ok (hashReference (hexData mixedHash)) := by
  show eip1898Reference mixedAnchor = _
  rw [eip1898Reference, normalizeHash_mixedHash]
  rfl

theorem verifiedResults_mixed {bytes : List UInt8} {results : List (Bool × List UInt8)}
    {x : Bool × List UInt8} (hresults : results = mixedTriple ++ [x] ++ mixedTriple)
    (hbytes : bytes ≠ []) (hdecode : decodeMixed bytes = some results) :
    mixedExecutor.verifiedResults (hexData bytes) 7 mixedAnchor = .ok results := by
  subst hresults
  have hcodec : mixedExecutor.codec.decode bytes = some (mixedTriple ++ [x] ++ mixedTriple) := hdecode
  exact verifiedResults_of_triples sentinelTriple_mixedTriple sentinelTriple_mixedTriple hbytes hcodec

/-- The subcall alone: the first endpoint's transport fails, the second one is asked by number. -/
theorem retriedFrom_mixed : RetriedFrom mixedPool mixedExecutor mixedAnchor mixedRetry mixedCall := by
  obtain ⟨calldata, hcalldata⟩ := exists_packedCalldata [mixedCall]
  have hfirst : MayEnd mixedPool.Answers (select mixedAnchor []) (.ok hashEndpoint) :=
    .guarded (mayEnd_selectEndpoint (some 1) true [])
  have hsecond : MayEnd mixedPool.Answers (select mixedAnchor ["a"]) (.ok numberEndpoint) :=
    .handled (mayEnd_selectEndpoint (some 1) true ["a"]) (mayEnd_selectEndpoint (some 1) false ["a"])
  have hserved : MayEnd mixedPool.Answers (mixedExecutor.ethCall calldata mixedAnchor [])
      (.ok mixedRetry) :=
    mayEnd_ethCallAttempts_retry hfirst anchorReference_hashEndpoint
      (mayEnd_callPinned_error (e := .transport "reset") rfl)
      (mayEnd_ethCallAttempts hsecond rfl (mayEnd_callPinned normalizeHash_mixedHash))
  refine retriedFrom_of_ethCall normalizeHash_mixedHash hcalldata hserved
    (verifiedResults_mixed rfl (abiResults_ne_nil _) decode_retryResults) fun o ho => ?_
  obtain ⟨c, hc, x, hx, hresult⟩ :=
    result_of_mem_body sentinelTriple_mixedTriple sentinelTriple_mixedTriple ho
  obtain rfl := List.mem_singleton.mp hc
  obtain rfl := List.mem_singleton.mp hx
  rw [hresult]
  exact digestible_of_result utf8_mixedKey (by rw [abiWord, length_bytesBE]; decide)

/-- The batch: the first endpoint answers the aggregate, in which the subcall failed. -/
theorem mayEnd_once : ∃ b, MixedBatch mixedMain mixedRetry [mixedCall] b ∧
    MayEnd mixedPool.Answers (mixedExecutor.executeOnce [mixedCall] mixedAnchor) (.ok b) := by
  obtain ⟨calldata, hcalldata⟩ := exists_packedCalldata [mixedCall]
  have hserved : MayEnd mixedPool.Answers (mixedExecutor.ethCall calldata mixedAnchor [])
      (.ok mixedMain) :=
    mayEnd_ethCallAttempts (.guarded (mayEnd_selectEndpoint (some 1) true []))
      anchorReference_hashEndpoint (mayEnd_callPinned normalizeHash_mixedHash)
  refine mayEnd_executeOnce normalizeHash_mixedHash hcalldata hserved
    (verifiedResults_mixed rfl (abiResults_ne_nil _) decode_mainResults) (fun o ho => ?_)
    (List.forall_mem_singleton.mpr retriedFrom_mixed)
  obtain ⟨c, -, x, hx, hresult⟩ :=
    result_of_mem_body sentinelTriple_mixedTriple sentinelTriple_mixedTriple ho
  obtain rfl := List.mem_singleton.mp hx
  rw [hresult]

/-- The batch names the kind of its main call, its result was read in the other way. -/
theorem mixed_executes : ∃ t batches, mixedExecutor.Executes [mixedCall] mixedAnchor t (.ok batches) ∧
    (∀ x ∈ t, mixedPool.Answers x) ∧
    List.Forall₂ (MixedBatch mixedMain mixedRetry) [[mixedCall]] batches := by
  have hgroups : mixedExecutor.groups [mixedCall] = [[mixedCall]] := by
    simp [groups, chunked, mixedExecutor]
  have honce : ∀ group ∈ mixedExecutor.groups [mixedCall], ∃ b,
      MixedBatch mixedMain mixedRetry group b ∧
        MayEnd mixedPool.Answers (mixedExecutor.executeOnce group mixedAnchor) (.ok b) := by
    rw [hgroups]
    exact List.forall_mem_singleton.mpr mayEnd_once
  rw [← hgroups]
  exact mayEnd_executes (by decide) (by decide) honce

end Multicall3Executor

/-! ## The evidence of a batch -/

/-- Every result of the batch was obtained as its evidence says: by an `eth_call` with the kind of
reference, and from one of the provider groups, that are recorded. -/
def EvidenceSound (executor : Multicall3Executor) (anchor : BlockRef) (t : List (Sigma RpcAns))
    (b : ExecutedBatch) : Prop :=
  ∀ o ∈ b.obtained, (∃ c, Proven executor anchor t c o) ∧
    o.origin.served.referenceKind = b.batch.evidence.blockReferenceKind ∧
    o.origin.served.endpoint.providerGroup ∈ b.batch.evidence.providerGroups

theorem referenceKind_inj {e e' : EndpointConfig} :
    referenceKind e = referenceKind e' ↔ e.supportsEip1898 = e'.supportsEip1898 := by
  cases h : e.supportsEip1898 <;> cases h' : e'.supportsEip1898 <;> simp [referenceKind, h, h']

/-- What the pool must be for the evidence to tell the truth: the endpoints whose archive reaches the
block are asked for it in one way. -/
def EndpointPool.OneKind (pool : EndpointPool) (block : Nat) : Prop :=
  ∀ c ∈ pool.configs, c.Reaches block → ∀ c' ∈ pool.configs, c'.Reaches block →
    c.supportsEip1898 = c'.supportsEip1898

/-- Whatever is answered as the pool allows, the evidence of each returned batch tells the truth. -/
def EvidenceAlwaysSound (executor : Multicall3Executor) (pool : EndpointPool)
    (calls : List ContractCall) (anchor : BlockRef) : Prop :=
  ∀ t batches, executor.Executes calls anchor t (.ok batches) → (∀ x ∈ t, pool.Answers x) →
    ∀ b ∈ batches, EvidenceSound executor anchor t b

/-- Aggregates of the calls can be sent, and a response that proves the anchor can report that all
subcalls failed. -/
structure Multicall3Executor.Executable (executor : Multicall3Executor) (calls : List ContractCall)
    (anchor : BlockRef) : Prop where
  nonempty : calls ≠ []
  deployed : executor.deploymentBlock ≤ anchor.number
  positive : 0 < anchor.number
  blockHash : isHash anchor.blockHash = true
  keys : ∀ c ∈ calls, (utf8 c.key).length < 256 ^ 4
  packed : ∀ part, part.Sublist calls →
    ∃ calldata, executor.packedCalldata part anchor = .ok calldata
  answered : ∀ count, 0 < count → count ≤ calls.length → ∃ head tail bytes,
    SentinelTriple head anchor ∧ SentinelTriple tail anchor ∧ bytes ≠ [] ∧
      executor.codec.decode bytes = some (head ++ List.replicate count (false, []) ++ tail)

section Evidence

variable {executor : Multicall3Executor} {pool : EndpointPool} {calls : List ContractCall}
  {anchor : BlockRef} {t : List (Sigma RpcAns)} {batches : List ExecutedBatch}

/-- Where the endpoints that were selected are of one kind, so are the main calls and the results. -/
theorem evidenceSound_of_selected (h : executor.Executes calls anchor t (.ok batches))
    (hkind : ∀ c c', Selected t anchor c → Selected t anchor c' →
      c.supportsEip1898 = c'.supportsEip1898) :
    ∀ b ∈ batches, EvidenceSound executor anchor t b := by
  intro b hb o ho
  obtain ⟨parts, -, hparts⟩ := Multicall3Executor.sound_of_executes h
  obtain ⟨part, -, -, -, hsound⟩ := forall₂_right hparts hb
  obtain ⟨c, -, hproven⟩ := forall₂_right hsound.obtained ho
  obtain ⟨_, hresponse, -⟩ := hproven.response
  refine ⟨⟨c, hproven⟩, ?_, hsound.groups o ho⟩
  rw [show b.batch.evidence = b.evidence from rfl, hsound.referenceKind, hresponse.referenceKind,
    referenceKind_inj]
  exact hkind _ _ hresponse.selected hsound.selected

theorem reaches_of_selected {c : EndpointConfig} (hpool : ∀ x ∈ t, pool.Answers x)
    (h : Selected t anchor c) : c ∈ pool.configs ∧ c.Reaches anchor.number := by
  obtain ⟨requireEip1898, exclude, hmem⟩ := h
  obtain ⟨state, now, hconfigs, hselect⟩ := hpool _ hmem
  rw [← hconfigs]
  exact EndpointPool.reaches_of_select hselect

theorem Multicall3Executor.MixedBatch.not_evidenceSound {main served : ServedCall} {b : ExecutedBatch}
    (h : MixedBatch main served calls b) (hnonempty : calls ≠ [])
    (hkind : served.referenceKind ≠ main.referenceKind) : ¬ EvidenceSound executor anchor t b := by
  intro hsound
  obtain ⟨o, ho⟩ := List.exists_mem_of_ne_nil b.obtained (by
    rw [← List.length_pos_iff, h.length]
    exact List.length_pos_of_ne_nil hnonempty)
  have heq := (hsound o ho).2.1
  rw [h.obtained o ho, show b.batch.evidence = b.evidence from rfl, h.referenceKind] at heq
  exact hkind heq

/-- Two endpoints of different kinds, both of which can serve the anchor, may share each batch: one
answers the aggregate, the other one the subcalls that failed. -/
theorem exists_mixed (h : executor.Executable calls anchor) {c c' : EndpointConfig}
    (hc : c ∈ pool.configs) (hreaches : c.Reaches anchor.number) (hc' : c' ∈ pool.configs)
    (hreaches' : c'.Reaches anchor.number) (hkind : c.supportsEip1898 ≠ c'.supportsEip1898) :
    ¬ EvidenceAlwaysSound executor pool calls anchor := by
  obtain ⟨observed, hhash⟩ : ∃ observed, normalizeHash (.str anchor.blockHash) = .ok observed :=
    ⟨_, if_pos h.blockHash⟩
  -- The response to an aggregate: all its subcalls failed.
  have hanswer : ∀ count, 0 < count → count ≤ calls.length → ∃ bytes decoded,
      executor.verifiedResults (hexData bytes) (count + 6) anchor = .ok decoded ∧
        ∀ part served, ∀ o ∈ Multicall3Executor.body part decoded served, ∃ c ∈ part,
          o.result = { key := c.key, success := false, returndata := [] } := by
    intro count hpos hle
    obtain ⟨head, tail, bytes, hhead, htail, hbytes, hdecode⟩ := h.answered count hpos hle
    have hverified := Multicall3Executor.verifiedResults_of_triples hhead htail hbytes hdecode
    rw [List.length_replicate] at hverified
    refine ⟨bytes, _, hverified, fun part served o ho => ?_⟩
    obtain ⟨c', hmem, x, hx, hresult⟩ := Multicall3Executor.result_of_mem_body hhead htail ho
    rw [(List.mem_replicate.mp hx).2] at hresult
    exact ⟨c', hmem, hresult⟩
  have hlength : 0 < calls.length := List.length_pos_of_ne_nil h.nonempty
  obtain ⟨single, decoded, hsingle, hbody⟩ := hanswer 1 Nat.one_pos hlength
  have hretry : ∀ call ∈ calls, Multicall3Executor.RetriedFrom pool executor anchor
      ⟨hexData single, c', referenceKind c'⟩ call := by
    intro call hcall
    obtain ⟨calldata, hpacked⟩ := h.packed [call] (List.singleton_sublist.mpr hcall)
    refine Multicall3Executor.retriedFrom_of_ethCall hhash hpacked
      (Multicall3Executor.mayEnd_ethCall hhash hc' hreaches') hsingle fun o ho => ?_
    obtain ⟨only, honly, hresult⟩ := hbody _ _ o ho
    rw [hresult, List.mem_singleton.mp honly]
    exact Multicall3Executor.digestible_of_result (h.keys call hcall) (by decide)
  have honce : ∀ group ∈ executor.groups calls, ∃ b,
      (group ≠ [] ∧ ∃ main, main.referenceKind = referenceKind c ∧
        Multicall3Executor.MixedBatch main ⟨hexData single, c', referenceKind c'⟩ group b) ∧
      MayEnd pool.Answers (executor.executeOnce group anchor) (.ok b) := by
    intro group hgroup
    have hsub : group.Sublist calls := by
      rw [← flatten_chunked executor.batchSize executor.batchSize_pos calls]
      exact List.sublist_flatten_of_mem hgroup
    obtain ⟨hnonempty, -⟩ := length_of_mem_chunked hgroup
    obtain ⟨bytes, results, hverified, hfailed⟩ :=
      hanswer group.length (List.length_pos_of_ne_nil hnonempty) hsub.length_le
    obtain ⟨calldata, hpacked⟩ := h.packed group hsub
    obtain ⟨b, hb, hends⟩ := Multicall3Executor.mayEnd_executeOnce hhash hpacked
      (Multicall3Executor.mayEnd_ethCall hhash hc hreaches) hverified
      (fun o ho => by
        obtain ⟨_, -, hresult⟩ := hfailed _ _ o ho
        rw [hresult])
      (fun call hcall => hretry call (hsub.subset hcall))
    exact ⟨b, ⟨hnonempty, _, rfl, hb⟩, hends⟩
  obtain ⟨t, batches, hexecutes, hpool, hbatches⟩ :=
    Multicall3Executor.mayEnd_executes h.deployed h.positive honce
  have hgroups : executor.groups calls ≠ [] := by
    intro hnil
    have hflatten := flatten_chunked executor.batchSize executor.batchSize_pos calls
    rw [show chunked _ _ calls = [] from hnil] at hflatten
    exact h.nonempty hflatten.symm
  obtain ⟨group, hgroup⟩ := List.exists_mem_of_ne_nil _ hgroups
  obtain ⟨b, hb, hnonempty, main, hmain, hmixed⟩ := forall₂_left hbatches hgroup
  intro hsound
  refine hmixed.not_evidenceSound hnonempty ?_ (hsound t batches hexecutes hpool b hb)
  rw [hmain]
  exact fun heq => hkind (referenceKind_inj.mp heq.symm)

end Evidence

/-- The evidence tells the truth in every run whose selected endpoints are of one kind, and for every
run that a pool allows exactly when the endpoints of the pool that reach the anchor are of one kind. -/
theorem evidenceSound_iff (executor : Multicall3Executor) (pool : EndpointPool)
    (calls : List ContractCall) (anchor : BlockRef) :
    (∀ t batches, executor.Executes calls anchor t (.ok batches) →
      (∀ c c', Selected t anchor c → Selected t anchor c' → c.supportsEip1898 = c'.supportsEip1898) →
        ∀ b ∈ batches, EvidenceSound executor anchor t b) ∧
    (pool.OneKind anchor.number → EvidenceAlwaysSound executor pool calls anchor) ∧
    (executor.Executable calls anchor → EvidenceAlwaysSound executor pool calls anchor →
      pool.OneKind anchor.number) := by
  refine ⟨fun t batches h hkind => evidenceSound_of_selected h hkind, ?_, ?_⟩
  · intro hkind t batches h hpool
    refine evidenceSound_of_selected h fun c c' hc hc' => ?_
    obtain ⟨hmem, hreaches⟩ := reaches_of_selected hpool hc
    obtain ⟨hmem', hreaches'⟩ := reaches_of_selected hpool hc'
    exact hkind c hmem hreaches c' hmem' hreaches'
  · intro hexecutable hsound c hmem hreaches c' hmem' hreaches'
    by_contra hkind
    exact exists_mixed hexecutable hmem hreaches hmem' hreaches' hkind hsound

theorem executable_mixed : mixedExecutor.Executable [mixedCall] mixedAnchor where
  nonempty := List.cons_ne_nil _ _
  deployed := by decide
  positive := by decide
  blockHash := isHash_hexText (by rw [length_flatMap_hexByte]; rfl) (all_flatMap_hexByte _)
  keys := List.forall_mem_singleton.mpr utf8_mixedKey
  packed := fun part _ => Multicall3Executor.exists_packedCalldata part
  answered := by
    intro count hpos hle
    obtain rfl : count = 1 := Nat.le_antisymm hle hpos
    have hresults : mixedTriple ++ List.replicate 1 (false, []) ++ mixedTriple = mainResults := rfl
    refine ⟨mixedTriple, mixedTriple, abiResults mainResults, sentinelTriple_mixedTriple,
      sentinelTriple_mixedTriple, abiResults_ne_nil _, ?_⟩
    have hcodec : mixedExecutor.codec.decode = decodeMixed := rfl
    rw [hresults, hcodec, decode_mainResults]

theorem evidenceSound_iff_mixed :
    mixedExecutor.Executable [mixedCall] mixedAnchor ∧ ¬ mixedPool.OneKind mixedAnchor.number ∧
      ¬ EvidenceAlwaysSound mixedExecutor mixedPool [mixedCall] mixedAnchor := by
  have hkinds : ¬ mixedPool.OneKind mixedAnchor.number := by
    intro hkind
    exact Bool.noConfusion (hkind hashEndpoint (by decide) rfl numberEndpoint (by decide) rfl)
  refine ⟨executable_mixed, hkinds, fun hsound => hkinds ?_⟩
  exact (evidenceSound_iff mixedExecutor mixedPool [mixedCall] mixedAnchor).2.2 executable_mixed hsound

/-- The evidence of a batch does not cover the results that were read again alone. -/
theorem evidence_mixed : ∃ t batches,
    mixedExecutor.Executes [mixedCall] mixedAnchor t (.ok batches) ∧
      (∀ x ∈ t, mixedPool.Answers x) ∧
      ¬ ∀ b ∈ batches, EvidenceSound mixedExecutor mixedAnchor t b := by
  obtain ⟨t, batches, hexecutes, ht, hmixed⟩ := Multicall3Executor.mixed_executes
  obtain ⟨b, hb, hbatch⟩ := forall₂_left hmixed List.mem_cons_self
  exact ⟨t, batches, hexecutes, ht, fun hsound =>
    hbatch.not_evidenceSound (List.cons_ne_nil _ _) (by decide) (hsound b hb)⟩

end RpcStateIndexer
