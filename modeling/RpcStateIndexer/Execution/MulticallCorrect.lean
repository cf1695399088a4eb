import RpcStateIndexer.Execution.Multicall

/-!
# What a Multicall execution proves

Every result comes from a response whose length is exact and whose sentinels name the anchor at both
ends; the retries, the escalations, the halving and the order in which batches end only decide from
which response.
-/

namespace RpcStateIndexer

open Reasoning Program

/-! ## A proven response -/

/-- Three successes that return the number, the timestamp and the parent hash of the anchor. -/
def SentinelTriple (results : List (Bool × List UInt8)) (anchor : BlockRef) : Prop :=
  ∃ block timestamp parent, results = [(true, block), (true, timestamp), (true, parent)] ∧
    decodeUint256 block = some anchor.number ∧ decodeUint256 timestamp = some anchor.timestamp ∧
    parent.length = 32 ∧ normalizeHash (.str anchor.parentHash) = .ok (hexData parent)

/-- In `t`, the pool named the endpoint when it was asked for one that serves the anchor. -/
def Selected (t : List (Sigma RpcAns)) (anchor : BlockRef) (endpoint : EndpointConfig) : Prop :=
  ∃ requireEip1898 exclude,
    (⟨.select (some anchor.number) requireEip1898 exclude, .ok endpoint⟩ : Sigma RpcAns) ∈ t

theorem Selected.mono {t t' : List (Sigma RpcAns)} {anchor : BlockRef} {endpoint : EndpointConfig}
    (h : Selected t anchor endpoint) (hsub : ∀ x ∈ t, x ∈ t') : Selected t' anchor endpoint := by
  obtain ⟨requireEip1898, exclude, hmem⟩ := h
  exact ⟨requireEip1898, exclude, hsub _ hmem⟩

/-- In `t`, the endpoint answered the aggregate of `calls` at the anchor with `decoded`. -/
structure ProvenResponse (executor : Multicall3Executor) (anchor : BlockRef)
    (t : List (Sigma RpcAns)) (calls : List ContractCall) (served : ServedCall)
    (decoded : List (Bool × List UInt8)) : Prop where
  answered : ∃ calldata reference, executor.packedCalldata calls anchor = .ok calldata ∧
    anchorReference served.endpoint anchor = .ok reference ∧
    CallAnswered t served.endpoint "eth_call" (ethCallParams executor.address calldata reference)
      (.str served.encoded)
  selected : Selected t anchor served.endpoint
  referenceKind : served.referenceKind = RpcStateIndexer.referenceKind served.endpoint
  decodes : ∃ bytes, hexDataToBytes served.encoded = .ok bytes ∧
    executor.codec.decode bytes = some decoded
  count : decoded.length = calls.length + 6
  head : SentinelTriple (decoded.take 3) anchor
  tail : SentinelTriple (decoded.drop (decoded.length - 3)) anchor

/-- The result is the one a proven response has for the call. -/
structure Proven (executor : Multicall3Executor) (anchor : BlockRef) (t : List (Sigma RpcAns))
    (c : ContractCall) (o : Obtained) : Prop where
  response : ∃ decoded, ProvenResponse executor anchor t o.origin.calls o.origin.served decoded ∧
    o.origin.calls[o.origin.position]? = some c ∧
    ∃ success data, decoded[o.origin.position + 3]? = some (success, data) ∧
      o.result = { key := c.key, success, returndata := data }

variable {executor : Multicall3Executor} {anchor : BlockRef} {t t' : List (Sigma RpcAns)}

theorem Proven.mono {c : ContractCall} {o : Obtained} (h : Proven executor anchor t c o)
    (hsub : ∀ x ∈ t, x ∈ t') : Proven executor anchor t' c o := by
  obtain ⟨decoded, hresponse, hrest⟩ := h.response
  obtain ⟨calldata, reference, hpacked, hreference, hanswered⟩ := hresponse.answered
  exact ⟨decoded, { hresponse with
    answered := ⟨calldata, reference, hpacked, hreference, hanswered.mono hsub⟩
    selected := hresponse.selected.mono hsub }, hrest⟩

theorem Proven.key {c : ContractCall} {o : Obtained} (h : Proven executor anchor t c o) :
    o.result.key = c.key := by
  obtain ⟨_, _, _, _, _, _, hresult⟩ := h.response
  rw [hresult]

theorem sentinelTriple_of_verify {results : List (Bool × List UInt8)} {position : String} {u : Unit}
    (h : Multicall3Executor.verifySentinels results anchor position = .ok u) :
    SentinelTriple results anchor := by
  unfold Multicall3Executor.verifySentinels at h
  split at h
  · next block timestamp parent =>
    simp only [except_bind_eq_ok_iff, check_eq_ok_iff, decide_eq_true_eq] at h
    obtain ⟨-, hblock, -, htimestamp, -, hlength, expected, hexpected, hparent⟩ := h
    exact ⟨block, timestamp, parent, rfl, hblock, htimestamp, hlength, hparent ▸ hexpected⟩
  · exact absurd h error_ne_ok

namespace Multicall3Executor

theorem verifiedResults_eq_ok {encoded : String} {count : Nat} {decoded : List (Bool × List UInt8)}
    (h : executor.verifiedResults encoded count anchor = .ok decoded) :
    (∃ bytes, hexDataToBytes encoded = .ok bytes ∧ executor.codec.decode bytes = some decoded) ∧
      decoded.length = count ∧ SentinelTriple (decoded.take 3) anchor ∧
      SentinelTriple (decoded.drop (decoded.length - 3)) anchor := by
  simp only [verifiedResults, except_bind_eq_ok_iff, check_eq_ok_iff, decide_eq_true_eq,
    except_pure_eq_ok_iff] at h
  obtain ⟨bytes, hbytes, decoded', hdecoded, -, hcount, _, hhead, _, htail, rfl⟩ := h
  refine ⟨⟨bytes, hbytes, ?_⟩, hcount, sentinelTriple_of_verify hhead, sentinelTriple_of_verify htail⟩
  rw [decodeAggregate3] at hdecoded
  split at hdecoded
  · exact absurd hdecoded error_ne_ok
  · split at hdecoded
    · next decoded'' hcodec =>
      obtain rfl := Except.ok.inj hdecoded
      exact hcodec
    · exact absurd hdecoded error_ne_ok

/-! ## One `eth_call` -/

/-- A pinned call that returns was answered for its reference. -/
theorem answered_of_callPinned {endpoint : EndpointConfig} {calldata : List UInt8} {reference : Json}
    {encoded : String}
    (h : Runs (executor.callPinned endpoint calldata anchor reference) t (.ok encoded)) :
    CallAnswered t endpoint "eth_call" (ethCallParams executor.address calldata reference)
      (.str encoded) := by
  rw [callPinned] at h
  obtain ⟨u, t₁, t₂, rfl, -, h₂⟩ := runs_bind_ok_iff.mp h
  obtain ⟨result, t₃, t₄, rfl, h₃, h₄⟩ := runs_bind_ok_iff.mp h₂
  obtain ⟨u', t₅, t₆, rfl, -, h₆⟩ := runs_bind_ok_iff.mp h₄
  have hanswered := answered_of_runs h₃
  cases result with
  | str text =>
    obtain ⟨rfl, htext⟩ := runs_ret_iff.mp h₆
    obtain rfl := Except.ok.inj htext
    exact hanswered.mono fun x hx =>
      List.mem_append_right _ (List.mem_append_left _ hx)
  | null => exact absurd h₆ not_runs_raise_ok
  | bool b => exact absurd h₆ not_runs_raise_ok
  | int i => exact absurd h₆ not_runs_raise_ok
  | float x => exact absurd h₆ not_runs_raise_ok
  | arr items => exact absurd h₆ not_runs_raise_ok
  | obj fields => exact absurd h₆ not_runs_raise_ok

theorem selected_of_selectEndpoint {requireEip1898 : Bool} {exclude : List String}
    {endpoint : EndpointConfig}
    (h : Runs (selectEndpoint (some anchor.number) requireEip1898 exclude) t (.ok endpoint)) :
    Selected t anchor endpoint := by
  obtain ⟨answer, t', rfl, hret⟩ := runs_call_iff.mp h
  obtain ⟨rfl, rfl⟩ := runs_ofExcept_iff.mp hret
  exact ⟨requireEip1898, exclude, List.mem_cons_self⟩

theorem selected_of_select {excluded : List String} {endpoint : EndpointConfig}
    (h : Runs (select anchor excluded) t (.ok endpoint)) : Selected t anchor endpoint := by
  rw [select] at h
  rcases runs_tryCatch_iff.mp h with ⟨e, heq, hrun⟩ | ⟨e, t₁, t₂, rfl, -, h₂⟩
  · obtain rfl := Except.ok.inj heq
    exact selected_of_selectEndpoint hrun
  · split at h₂
    · exact (selected_of_selectEndpoint h₂).mono fun x hx => List.mem_append_right _ hx
    · exact absurd h₂ not_runs_raise_ok

/-- The endpoint of an attempt is selected, or it is the last one again. -/
theorem selected_of_reselect {excluded : List String} {last : Option (EndpointConfig × RpcFailure)}
    {endpoint : EndpointConfig}
    (h : Runs (tryCatch (select anchor excluded) fun e => ofExcept (reselect last e)) t (.ok endpoint)) :
    Selected t anchor endpoint ∨ ∃ failure, last = some (endpoint, failure) := by
  rcases runs_tryCatch_iff.mp h with ⟨e, heq, hrun⟩ | ⟨e, t₁, t₂, rfl, -, h₂⟩
  · obtain rfl := Except.ok.inj heq
    exact .inl (selected_of_select hrun)
  · obtain ⟨-, hreselect⟩ := runs_ofExcept_iff.mp h₂
    unfold reselect at hreselect
    split at hreselect
    · split at hreselect
      · obtain rfl := Except.ok.inj hreselect
        exact .inr ⟨_, rfl⟩
      · exact absurd hreselect ok_ne_error
    · exact absurd hreselect ok_ne_error

/-- Whatever is retried, the data come from an endpoint that was selected, now or before. -/
theorem selected_of_ethCallAttempts {calldata : List UInt8} {attempts : Nat} {excluded : List String}
    {last : Option (EndpointConfig × RpcFailure)} {served : ServedCall}
    (h : Runs (executor.ethCallAttempts calldata anchor attempts excluded last) t (.ok served)) :
    Selected t anchor served.endpoint ∨ ∃ failure, last = some (served.endpoint, failure) := by
  induction attempts generalizing excluded last t with
  | zero => exact absurd h not_runs_raise_ok
  | succ attempts ih =>
    rw [ethCallAttempts] at h
    obtain ⟨endpoint, t₁, t₂, rfl, h₁, h₂⟩ := runs_bind_ok_iff.mp h
    obtain ⟨reference, t₃, t₄, rfl, -, h₄⟩ := runs_bind_ok_iff.mp h₂
    obtain ⟨result, t₅, t₆, rfl, -, h₆⟩ := runs_bind_ok_iff.mp h₄
    have hendpoint : Selected (t₁ ++ (t₃ ++ (t₅ ++ t₆))) anchor endpoint ∨
        ∃ failure, last = some (endpoint, failure) :=
      (selected_of_reselect h₁).imp_left fun hselected =>
        hselected.mono fun x hx => List.mem_append_left _ hx
    cases result with
    | ok encoded =>
      obtain ⟨u, t₇, t₈, rfl, -, h₈⟩ := runs_bind_ok_iff.mp h₆
      obtain ⟨rfl, hserved⟩ := runs_ret_iff.mp h₈
      obtain rfl := Except.ok.inj hserved
      exact hendpoint
    | error e =>
      simp only at h₆
      obtain ⟨u, t₇, t₈, rfl, -, h₈⟩ := runs_bind_ok_iff.mp h₆
      by_cases hlimit : (classifyRpcFailure (normalizeRpcError e)).kind = .providerLimit
      · rw [if_pos hlimit] at h₈
        exact absurd h₈ not_runs_raise_ok
      · rw [if_neg hlimit] at h₈
        split at h₈
        · exact absurd h₈ not_runs_raise_ok
        · -- The endpoint of this attempt is the last one of the attempts that follow.
          rcases ih h₈ with hselected | ⟨failure, hlast⟩
          · exact .inl (hselected.mono (by simp +contextual))
          · cases hlast
            exact hendpoint

/-- Whatever was retried, the data come from a call at the anchor on the endpoint that is named. -/
theorem served_of_ethCallAttempts {calldata : List UInt8} {attempts : Nat} {excluded : List String}
    {last : Option (EndpointConfig × RpcFailure)} {served : ServedCall}
    (h : Runs (executor.ethCallAttempts calldata anchor attempts excluded last) t (.ok served)) :
    served.referenceKind = referenceKind served.endpoint ∧
      ∃ reference, anchorReference served.endpoint anchor = .ok reference ∧
        CallAnswered t served.endpoint "eth_call"
          (ethCallParams executor.address calldata reference) (.str served.encoded) := by
  induction attempts generalizing excluded last t with
  | zero => exact absurd h not_runs_raise_ok
  | succ attempts ih =>
    rw [ethCallAttempts] at h
    obtain ⟨endpoint, t₁, t₂, rfl, -, h₂⟩ := runs_bind_ok_iff.mp h
    obtain ⟨reference, t₃, t₄, rfl, h₃, h₄⟩ := runs_bind_ok_iff.mp h₂
    obtain ⟨result, t₅, t₆, rfl, h₅, h₆⟩ := runs_bind_ok_iff.mp h₄
    obtain ⟨rfl, hreference⟩ := runs_ofExcept_iff.mp h₃
    obtain ⟨_, hresult, hpinned⟩ := runs_outcome_iff.mp h₅
    obtain rfl := Except.ok.inj hresult
    cases result with
    | ok encoded =>
      obtain ⟨u, t₇, t₈, rfl, -, h₈⟩ := runs_bind_ok_iff.mp h₆
      obtain ⟨rfl, hserved⟩ := runs_ret_iff.mp h₈
      obtain rfl := Except.ok.inj hserved
      refine ⟨rfl, reference, hreference.symm, (answered_of_callPinned hpinned).mono ?_⟩
      intro x hx
      simp [hx]
    | error e =>
      simp only at h₆
      obtain ⟨u, t₇, t₈, rfl, -, h₈⟩ := runs_bind_ok_iff.mp h₆
      -- A failure that is not the end of the attempts leads to the next one.
      by_cases hlimit : (classifyRpcFailure (normalizeRpcError e)).kind = .providerLimit
      · rw [if_pos hlimit] at h₈
        exact absurd h₈ not_runs_raise_ok
      · rw [if_neg hlimit] at h₈
        split at h₈
        · exact absurd h₈ not_runs_raise_ok
        · obtain ⟨hkind, reference', hreference', hanswered⟩ := ih h₈
          refine ⟨hkind, reference', hreference', hanswered.mono ?_⟩
          intro x hx
          simp [hx]

/-! ## The body of a response -/

theorem getElem?_body {calls : List ContractCall} {decoded : List (Bool × List UInt8)}
    {served : ServedCall} (hcount : decoded.length = calls.length + 6) {i : Nat} {c : ContractCall}
    (hc : calls[i]? = some c) :
    ∃ success data, decoded[i + 3]? = some (success, data) ∧
      (body calls decoded served)[i]? =
        some ⟨{ key := c.key, success, returndata := data }, ⟨calls, i, served⟩⟩ := by
  obtain ⟨hi, rfl⟩ := List.getElem?_eq_some_iff.mp hc
  have hbound : i + 3 < decoded.length := by omega
  refine ⟨decoded[i + 3].1, decoded[i + 3].2, List.getElem?_eq_getElem hbound, ?_⟩
  have hzip : (calls.zip ((decoded.drop 3).take (decoded.length - 6)))[i]? =
      some (calls[i], decoded[i + 3]) := by
    rw [List.getElem?_zip_eq_some]
    refine ⟨hc, ?_⟩
    rw [List.getElem?_take_of_lt (by omega), List.getElem?_drop, Nat.add_comm]
    exact List.getElem?_eq_getElem hbound
  rw [body, List.getElem?_mapIdx, hzip]
  rfl

theorem length_body {calls : List ContractCall} {decoded : List (Bool × List UInt8)}
    {served : ServedCall} (hcount : decoded.length = calls.length + 6) :
    (body calls decoded served).length = calls.length := by
  rw [body, List.length_mapIdx, List.length_zip, List.length_take, List.length_drop]
  omega

/-- The body of a proven response holds a proven result for each call, in the order of the calls. -/
theorem proven_body {calls : List ContractCall} {decoded : List (Bool × List UInt8)}
    {served : ServedCall} (h : ProvenResponse executor anchor t calls served decoded) :
    List.Forall₂ (fun c o => Proven executor anchor t c o ∧ o.origin.served = served) calls
      (body calls decoded served) := by
  apply List.forall₂_of_length_eq_of_get (length_body h.count).symm
  intro i hi hi'
  obtain ⟨success, data, hdecoded, hbody⟩ := @getElem?_body _ _ served h.count _ _
    (List.getElem?_eq_getElem hi)
  have hget : (body calls decoded served).get ⟨i, hi'⟩ =
      ⟨{ key := calls[i].key, success, returndata := data }, ⟨calls, i, served⟩⟩ :=
    Option.some.inj ((List.getElem?_eq_getElem hi').symm.trans hbody)
  rw [hget]
  exact ⟨⟨decoded, h, List.getElem?_eq_getElem hi, success, data, hdecoded, rfl⟩, rfl⟩

/-! ## One batch -/

/-- A batch whose results are proven, call by call, and whose evidence covers them. -/
structure BatchSound (executor : Multicall3Executor) (anchor : BlockRef) (t : List (Sigma RpcAns))
    (calls : List ContractCall) (b : ExecutedBatch) : Prop where
  obtained : List.Forall₂ (Proven executor anchor t) calls b.obtained
  digest : digestRawResults b.batch.results = .ok b.evidence.resultDigest
  selected : Selected t anchor b.main.endpoint
  referenceKind : b.evidence.blockReferenceKind = RpcStateIndexer.referenceKind b.main.endpoint
  groups : ∀ o ∈ b.obtained, o.origin.served.endpoint.providerGroup ∈ b.evidence.providerGroups

theorem BatchSound.mono {calls : List ContractCall} {b : ExecutedBatch}
    (h : BatchSound executor anchor t calls b) (hsub : ∀ x ∈ t, x ∈ t') :
    BatchSound executor anchor t' calls b :=
  { h with
    obtained := h.obtained.imp fun _ _ hproven => hproven.mono hsub
    selected := h.selected.mono hsub }

/-- What `finish` may do with a result: keep it, or replace it by another proven one whose provider
group it reports. -/
def Finished (executor : Multicall3Executor) (anchor : BlockRef) (t : List (Sigma RpcAns))
    (x : ContractCall × Obtained) (piece : Obtained × List String) : Prop :=
  piece.1 = x.2 ∨ Proven executor anchor t x.1 piece.1 ∧
    piece.1.origin.served.endpoint.providerGroup ∈ piece.2

theorem verifiedBatch_eq_ok {served : ServedCall} {pieces : List (Obtained × List String)}
    {b : ExecutedBatch} (h : verifiedBatch anchor served pieces = .ok b) :
    b.obtained = pieces.map Prod.fst ∧ b.main = served ∧
      b.evidence.blockReferenceKind = served.referenceKind ∧
      b.evidence.providerGroups =
        sortedSet (served.endpoint.providerGroup :: pieces.flatMap Prod.snd) ∧
      digestRawResults b.batch.results = .ok b.evidence.resultDigest := by
  simp only [verifiedBatch, except_bind_eq_ok_iff, except_pure_eq_ok_iff] at h
  obtain ⟨anchorHash, -, resultDigest, hdigest, rfl⟩ := h
  refine ⟨rfl, rfl, rfl, rfl, ?_⟩
  rw [ExecutedBatch.batch, List.map_map]
  exact hdigest

theorem forall₂_zip_left {α β γ : Type} {R : α → β → Prop} {S : α × β → γ → Prop} {P : α → γ → Prop}
    {as : List α} {bs : List β} {cs : List γ} (h : List.Forall₂ R as bs)
    (hs : List.Forall₂ S (as.zip bs) cs) (himp : ∀ a b c, R a b → S (a, b) c → P a c) :
    List.Forall₂ P as cs := by
  induction h generalizing cs with
  | nil =>
    cases hs
    exact .nil
  | cons hab _ ih =>
    cases hs with
    | cons hs hrest => exact .cons (himp _ _ _ hab hs) (ih hrest)

/-- However often a response had to be read again, the batch that is returned is sound. -/
theorem sound_of_executeAttempts {calls : List ContractCall} {calldata : List UInt8}
    {finish : List (ContractCall × Obtained) → ClientProgram (List (Obtained × List String))}
    (hpacked : executor.packedCalldata calls anchor = .ok calldata)
    (hfinish : ∀ pairs t pieces, Runs (finish pairs) t (.ok pieces) →
      List.Forall₂ (Finished executor anchor t) pairs pieces)
    {attempts : Nat} {excluded : List String} {b : ExecutedBatch}
    (h : Runs (executor.executeAttempts calls anchor calldata finish attempts excluded) t (.ok b)) :
    BatchSound executor anchor t calls b := by
  induction attempts generalizing excluded t with
  | zero => exact absurd h not_runs_raise_ok
  | succ attempts ih =>
    rw [executeAttempts] at h
    obtain ⟨served, t₁, t₂, rfl, h₁, h₂⟩ := runs_bind_ok_iff.mp h
    have hleft : ∀ x ∈ t₁, x ∈ t₁ ++ t₂ := fun x hx => List.mem_append_left _ hx
    have hright : ∀ x ∈ t₂, x ∈ t₁ ++ t₂ := fun x hx => List.mem_append_right _ hx
    obtain ⟨hkind, reference, hreference, hanswered⟩ := served_of_ethCallAttempts h₁
    have hselected : Selected t₁ anchor served.endpoint :=
      (selected_of_ethCallAttempts h₁).resolve_right fun ⟨_, hnone⟩ => nomatch hnone
    cases hverified : executor.verifiedResults served.encoded (calls.length + 6) anchor with
    | ok decoded =>
      rw [hverified] at h₂
      obtain ⟨pieces, t₃, t₄, rfl, h₃, h₄⟩ := runs_bind_ok_iff.mp h₂
      obtain ⟨rfl, hbatch⟩ := runs_ofExcept_iff.mp h₄
      obtain ⟨hdecodes, hcount, hhead, htail⟩ := verifiedResults_eq_ok hverified
      have hresponse : ProvenResponse executor anchor (t₁ ++ (t₃ ++ [])) calls served decoded :=
        ⟨⟨calldata, reference, hpacked, hreference, hanswered.mono hleft⟩, hselected.mono hleft, hkind,
          hdecodes, hcount, hhead, htail⟩
      obtain ⟨hobtained, hmain, hreferenceKind, hgroups, hdigest⟩ := verifiedBatch_eq_ok hbatch.symm
      have hpieces : List.Forall₂ (fun c piece => Proven executor anchor (t₁ ++ (t₃ ++ [])) c piece.1 ∧
          (piece.1.origin.served = served ∨
            piece.1.origin.served.endpoint.providerGroup ∈ piece.2)) calls pieces := by
        refine forall₂_zip_left (proven_body hresponse) (hfinish _ _ _ h₃) ?_
        rintro c o piece ⟨hproven, hserved⟩ (rfl | ⟨hproven', hgroup⟩)
        · exact ⟨hproven, .inl hserved⟩
        · exact ⟨hproven'.mono fun x hx => hright x (List.mem_append_left _ hx), .inr hgroup⟩
      refine ⟨?_, hdigest, hmain ▸ hselected.mono hleft, by rw [hreferenceKind, hmain, hkind], ?_⟩
      · rw [hobtained, List.forall₂_map_right_iff]
        exact hpieces.imp fun _ _ hpiece => hpiece.1
      · intro o ho
        rw [hobtained] at ho
        obtain ⟨piece, hpiece, rfl⟩ := List.mem_map.mp ho
        obtain ⟨c, -, -, hfrom⟩ := forall₂_right hpieces hpiece
        rw [hgroups, mem_sortedSet, List.mem_cons, List.mem_flatMap]
        rcases hfrom with hserved | hgroup
        · exact .inl (congrArg (fun s : ServedCall => s.endpoint.providerGroup) hserved)
        · exact .inr ⟨piece, hpiece, hgroup⟩
    | error e =>
      rw [hverified] at h₂
      obtain ⟨u, t₃, t₄, rfl, -, h₄⟩ := runs_bind_ok_iff.mp h₂
      refine (ih h₄).mono fun x hx => hright x (List.mem_append_right _ hx)

theorem sound_of_executeSingle {c : ContractCall} {b : ExecutedBatch}
    (h : Runs (executor.executeSingle anchor c) t (.ok b)) : BatchSound executor anchor t [c] b := by
  obtain ⟨calldata, t₁, t₂, rfl, h₁, h₂⟩ := runs_bind_ok_iff.mp h
  obtain ⟨rfl, hpacked⟩ := runs_ofExcept_iff.mp h₁
  apply sound_of_executeAttempts hpacked.symm _ h₂
  intro pairs t pieces hrun
  obtain ⟨-, hpieces⟩ := runs_ret_iff.mp hrun
  rw [Except.ok.inj hpieces, List.forall₂_map_right_iff, List.forall₂_same]
  exact fun x _ => .inl rfl

/-- An escalated subcall is replaced by the result of a sound batch of its own. -/
theorem finished_of_escalate {x : ContractCall × Obtained} {piece : Obtained × List String}
    (h : Runs (escalate (executor.executeSingle anchor) x) t (.ok piece)) :
    Finished executor anchor t x piece := by
  rw [escalate] at h
  by_cases hsuccess : x.2.result.success = true
  · rw [if_pos hsuccess] at h
    obtain ⟨-, hpiece⟩ := runs_ret_iff.mp h
    rw [Except.ok.inj hpiece]
    exact .inl rfl
  · rw [if_neg hsuccess] at h
    obtain ⟨retry, t₁, t₂, rfl, h₁, h₂⟩ := runs_bind_ok_iff.mp h
    obtain ⟨hobtained, -, -, -, hgroups⟩ := sound_of_executeSingle h₁
    split at h₂
    · next only honly =>
      obtain ⟨rfl, hpiece⟩ := runs_ret_iff.mp h₂
      obtain rfl := Except.ok.inj hpiece
      rw [honly] at hobtained hgroups
      cases hobtained with
      | cons hproven _ =>
        exact .inr ⟨hproven.mono (by simp), hgroups only List.mem_cons_self⟩
    · exact absurd h₂ not_runs_raise_ok

theorem Finished.mono {x : ContractCall × Obtained} {piece : Obtained × List String}
    (h : Finished executor anchor t x piece) (hsub : ∀ y ∈ t, y ∈ t') :
    Finished executor anchor t' x piece :=
  h.imp id fun hreplaced => ⟨hreplaced.1.mono hsub, hreplaced.2⟩

theorem sound_of_executeOnce {calls : List ContractCall} {b : ExecutedBatch}
    (h : Runs (executor.executeOnce calls anchor) t (.ok b)) :
    BatchSound executor anchor t calls b := by
  obtain ⟨calldata, t₁, t₂, rfl, h₁, h₂⟩ := runs_bind_ok_iff.mp h
  obtain ⟨rfl, hpacked⟩ := runs_ofExcept_iff.mp h₁
  apply sound_of_executeAttempts hpacked.symm _ h₂
  intro pairs t pieces hrun
  refine (runs_mapM_ok hrun).imp ?_
  rintro x piece ⟨t', hsub, hescalate⟩
  exact (finished_of_escalate hescalate).mono fun y hy => hsub.subset hy

/-! ## Batches that follow each other -/

/-- Halving keeps the order of the calls. -/
theorem sound_of_executeAdaptive {calls : List ContractCall} (hnonempty : calls ≠ [])
    {batches : List ExecutedBatch} (h : Runs (executor.executeAdaptive calls anchor) t (.ok batches)) :
    Covers (BatchSound executor anchor t) calls.length calls batches := by
  induction hlength : calls.length using Nat.strong_induction_on generalizing calls t batches with
  | h length ih =>
    subst hlength
    rw [executeAdaptive] at h
    obtain ⟨result, t₁, t₂, rfl, h₁, h₂⟩ := runs_bind_ok_iff.mp h
    obtain ⟨_, hresult, honce⟩ := runs_outcome_iff.mp h₁
    obtain rfl := Except.ok.inj hresult
    have hright : ∀ x ∈ t₂, x ∈ t₁ ++ t₂ := fun x hx => List.mem_append_right _ hx
    split at h₂
    · next batch =>
      obtain ⟨rfl, hbatches⟩ := runs_ret_iff.mp h₂
      rw [Except.ok.inj hbatches]
      exact .singleton hnonempty le_rfl ((sound_of_executeOnce honce).mono (by simp))
    · next message =>
      split at h₂
      · exact absurd h₂ not_runs_raise_ok
      · next hlong =>
        obtain ⟨first, t₃, t₄, rfl, h₃, h₄⟩ := runs_bind_ok_iff.mp h₂
        obtain ⟨second, t₅, t₆, rfl, h₅, h₆⟩ := runs_bind_ok_iff.mp h₄
        obtain ⟨rfl, hbatches⟩ := runs_ret_iff.mp h₆
        rw [Except.ok.inj hbatches]
        obtain ⟨⟨hfirst_ne, hfirst⟩, hsecond_ne, hsecond⟩ := halves_spec hlong
        have hboth := ((ih _ hfirst hfirst_ne h₃ rfl).mono hfirst.le fun _ _ hb =>
            hb.mono fun x hx => hright x (List.mem_append_left _ hx)).append
          ((ih _ hsecond hsecond_ne h₅ rfl).mono hsecond.le fun _ _ hb =>
            hb.mono fun x hx => hright x (List.mem_append_right _ (List.mem_append_left _ hx)))
        rwa [List.take_append_drop] at hboth
    · exact absurd h₂ not_runs_raise_ok

/-- Whatever the order in which the batches of a group end. -/
theorem sound_of_executes {calls : List ContractCall} {batches : List ExecutedBatch}
    (h : executor.Executes calls anchor t (.ok batches)) :
    Covers (BatchSound executor anchor t) executor.batchSize calls batches := by
  have hgroup : ∀ group ∈ executor.groups calls, ∀ t' bs, t'.Sublist t →
      Runs (executor.executeAdaptive group anchor) t' (.ok bs) →
        Covers (BatchSound executor anchor t) executor.batchSize group bs := by
    intro group hmem t' bs hsub hrun
    obtain ⟨hnonempty, hlength⟩ := length_of_mem_chunked hmem
    exact (sound_of_executeAdaptive hnonempty hrun).mono hlength fun _ _ hb =>
      hb.mono fun x hx => hsub.subset hx
  rw [← flatten_chunked executor.batchSize executor.batchSize_pos calls]
  rw [Executes] at h
  split at h
  · exact absurd h.2 ok_ne_error
  · split at h
    · exact absurd h.2 ok_ne_error
    · split at h
      · next group hgroups =>
        rw [groups] at hgroups hgroup
        rw [hgroups] at hgroup ⊢
        rw [List.flatten_singleton]
        exact hgroup group List.mem_cons_self t batches (List.Sublist.refl t) h
      · obtain ⟨slots, hruns, hslots⟩ := h
        cases slots with
        | error e => exact absurd hslots ok_ne_error
        | ok slots =>
          obtain rfl : batches = slots.flatten := Except.ok.inj hslots
          have htasks := groupRuns_ok hruns rfl
          rw [List.forall₂_map_left_iff] at htasks
          apply Covers.flatten
          have hmem := (List.forall₂_and_left _ _).mpr ⟨fun _ hg => hg, htasks⟩
          refine hmem.imp ?_
          rintro group bs ⟨hmem, t', hsub, hends⟩
          exact hgroup group hmem t' bs hsub hends

end Multicall3Executor

end RpcStateIndexer
