import RpcStateIndexer.Execution.LegacyBatchContract

/-!
# The two transports of a legacy batch

The same responses, sent as one HTTP batch in any order or each to a request of its own.  The two
readings of a response differ in one shape: a result beside an `error` key.
-/

namespace RpcStateIndexer

open Reasoning Program

/-! ## Servers -/

/-- A response with the id that it carries. -/
def withId (requestId : Json) (response : List (String × Json)) : List (String × Json) :=
  ("id", requestId) :: response

/-- The id of a request. -/
def requestIdOf : Json → Json
  | .obj fields => Json.get fields "id"
  | _ => .null

/-- Each request is answered by its own response, under its own id. -/
def AnsweredAlone (responses : List (List (String × Json))) (x : Sigma RpcAns) : Prop :=
  match x with
  | ⟨.post _ payload exchange, a⟩ =>
    a = .ok (.obj (withId (requestIdOf payload) (responses.getD exchange [])))
  | _ => True

/-- The batch is answered by all responses, in some order, under the numbers of the requests. -/
def AnsweredTogether (responses : List (List (String × Json))) (x : Sigma RpcAns) : Prop :=
  match x with
  | ⟨.post _ _ _, a⟩ => ∃ order : List (List (String × Json) × Nat),
      order.Perm (responses.zipIdx 1) ∧ a = .ok (.arr (order.map fun x => .obj (withId (.int x.2) x.1)))
  | _ => True

/-- Both return the same, or both raise. -/
def SameOutcome {ε α : Type} : Except ε α → Except ε α → Prop
  | .ok a, .ok b => a = b
  | .error _, .error _ => True
  | _, _ => False

/-- Whatever the order of the responses, the endpoint's results do not depend on the transport. -/
def TransportsAgree (endpoint : EndpointConfig) (calls : List ContractCall) (anchor : BlockRef)
    (eip1898 : Bool) (responses : List (List (String × Json))) : Prop :=
  ∀ t r t' r',
    Runs (runOnEndpoint { endpoint with supportsHttpBatch := true } calls anchor eip1898) t r →
    (∀ x ∈ t, AnsweredTogether responses x) →
    Runs (runOnEndpoint { endpoint with supportsHttpBatch := false } calls anchor eip1898) t' r' →
    (∀ x ∈ t', AnsweredAlone responses x) → SameOutcome r r'

theorem sameOutcome_iff {ε α : Type} {r r' : Except ε α} :
    SameOutcome r r' ↔ ∀ a, r = .ok a ↔ r' = .ok a := by
  cases r with
  | error e =>
    cases r' with
    | error e' => exact ⟨fun _ a => iff_of_false error_ne_ok error_ne_ok, fun _ => trivial⟩
    | ok b => exact ⟨False.elim, fun h => absurd ((h b).mpr rfl) error_ne_ok⟩
  | ok a =>
    cases r' with
    | error e' => exact ⟨False.elim, fun h => absurd ((h a).mp rfl) error_ne_ok⟩
    | ok b =>
      constructor
      · rintro rfl c
        rfl
      · intro h
        exact (Except.ok.inj ((h a).mp rfl)).symm

/-! ## Reading one response -/

/-- An individual response, past its id. -/
def readAlone (c : ContractCall) (response : List (String × Json)) : Except RpcFault RawCallResult :=
  individualResult c do
    checkVersion (.protocol "unexpected JSON-RPC version") (Json.get response "jsonrpc")
    parseResult response

/-- A response of a batch, past its id. -/
def readTogether (c : ContractCall) (requestId : Nat) (response : List (String × Json)) :
    Except RpcFault RawCallResult := do
  checkVersion (malformed "unexpected JSON-RPC version") (Json.get response "jsonrpc")
  decodeResponse c requestId response

/-- The response has both keys, whatever their values. -/
def HasBoth (response : List (String × Json)) : Prop :=
  (response.lookup "result").isSome ∧ (response.lookup "error").isSome

theorem decodedResult_eq_ok_iff {c : ContractCall} {encoded : String} {e e' : RpcFault}
    {r : RawCallResult} : decodedResult c encoded e = .ok r ↔ decodedResult c encoded e' = .ok r := by
  unfold decodedResult
  cases hexDataToBytes encoded <;> simp

theorem decodeResponse_eq_ok_iff {c : ContractCall} {requestId : Nat}
    {response : List (String × Json)} {r : RawCallResult} :
    decodeResponse c requestId response = .ok r ↔
      individualResult c (parseResult response) = .ok r ∧ ¬ HasBoth response := by
  have herror : Json.get response "error" = (response.lookup "error").getD .null := rfl
  unfold decodeResponse parseResult HasBoth
  rw [herror]
  cases hresult : response.lookup "result" with
  | none =>
    cases response.lookup "error" with
    | none => simp [individualResult]
    | some error =>
      cases error with
      | obj fields =>
        cases hparsed : parseError (.obj fields) with
        | none => simp [individualResult, hparsed]
        | some reported => simp [individualResult, hparsed]
      | _ => simp [individualResult]
  | some result =>
    cases response.lookup "error" with
    | none =>
      cases result with
      | str encoded =>
        have hdecoded := @decodedResult_eq_ok_iff c encoded
          (malformed s!"response {requestId} result is malformed")
          (malformed "individual eth_call result is malformed") r
        simpa [individualResult] using hdecoded
      | _ => simp [individualResult]
    | some error =>
      -- Both keys are there: the batch rejects whatever they hold.
      simp

/-- The batch reads a response as the individual call does, unless it has both keys. -/
theorem readTogether_eq_ok_iff {c : ContractCall} {requestId : Nat} {response : List (String × Json)}
    {r : RawCallResult} : readTogether c requestId response = .ok r ↔
      readAlone c response = .ok r ∧ ¬ HasBoth response := by
  unfold readTogether readAlone
  cases hversion : Json.get response "jsonrpc" with
  | null => exact decodeResponse_eq_ok_iff
  | str version =>
    by_cases hok : version = "2.0"
    · simpa [checkVersion, check, hok] using decodeResponse_eq_ok_iff
    · simp [checkVersion, check, hok, individualResult, bind, Except.bind]
  | _ => simp [checkVersion, individualResult, bind, Except.bind]

/-! ## Reading all responses -/

variable {endpoint : EndpointConfig} {calls : List ContractCall} {anchor : BlockRef}
  {reference : Json} {responses : List (List (String × Json))} {t : List (Sigma RpcAns)}

/-- An individual call ends in what its response reads as. -/
theorem result_of_one {c : ContractCall} {exchange : Nat} {r : Except RpcFault RawCallResult}
    (h : Runs (one endpoint reference c exchange) t r) (ht : ∀ x ∈ t, AnsweredAlone responses x) :
    r = readAlone c (responses.getD exchange []) := by
  have hcall : ∀ t (r : Except RpcFault Json), Runs (callOnEndpoint endpoint "eth_call"
      (ethCallParams c.target c.calldata reference) exchange) t r →
      (∀ x ∈ t, AnsweredAlone responses x) → individualResult c r =
        readAlone c (responses.getD exchange []) := by
    intro t r hrun ht
    obtain ⟨requestId, t', rfl, hrest⟩ := runs_call_iff.mp hrun
    obtain ⟨body, t'', rfl, hparse⟩ := runs_call_iff.mp hrest
    obtain rfl : body = .ok (.obj (withId (.int requestId) (responses.getD exchange []))) :=
      ht ⟨.post endpoint _ exchange, body⟩ (by simp)
    obtain ⟨-, rfl⟩ := runs_ofExcept_iff.mp hparse
    have hid : idMatches requestId (.int requestId) = true := decide_eq_true rfl
    show individualResult c (do
      checkVersion _ (Json.get (responses.getD exchange []) "jsonrpc")
      check (idMatches requestId (.int requestId)) _
      parseResult (responses.getD exchange [])) = _
    rw [hid]
    rfl
  rcases runs_bind_iff.mp h with ⟨value, t₁, t₂, rfl, h₁, h₂⟩ | ⟨e, h₁, rfl⟩
  · obtain ⟨value', hvalue, hrun⟩ := runs_outcome_iff.mp h₁
    obtain rfl := Except.ok.inj hvalue
    obtain ⟨rfl, rfl⟩ := runs_ofExcept_iff.mp h₂
    exact hcall t₁ value hrun fun x hx => ht x (List.mem_append_left _ hx)
  · obtain ⟨_, hvalue, -⟩ := runs_outcome_iff.mp h₁
    exact absurd hvalue error_ne_ok

theorem zip_eq_map_zipIdx (start : Nat) (hlength : responses.length = calls.length) :
    calls.zip responses =
      (calls.zipIdx start).map fun x => (x.1, responses.getD (x.2 - start) []) := by
  apply List.ext_getElem
  · rw [List.length_zip, List.length_map, List.length_zipIdx, hlength, Nat.min_self]
  · intro i hi hi'
    have hresponses : i < responses.length := by
      rw [List.length_zip] at hi
      omega
    simp [hresponses]

/-- Individual calls return when every response reads as a result. -/
theorem sent_alone {r : Except RpcFault (List RawCallResult)}
    (hlength : responses.length = calls.length) (halone : endpoint.supportsHttpBatch = false)
    (h : Runs (sendCalls endpoint calls reference) t r) (ht : ∀ x ∈ t, AnsweredAlone responses x)
    (results : List RawCallResult) : r = .ok results ↔
      List.Forall₂ (fun x r => readAlone x.1 x.2 = .ok r) (calls.zip responses) results := by
  rw [sendCalls, halone] at h
  rw [zip_eq_map_zipIdx 0 hlength, List.forall₂_map_left_iff]
  cases r with
  | ok obtained =>
    have hparts := runs_gather_ok h
    rw [List.forall₂_map_left_iff] at hparts
    have hread : List.Forall₂ (fun x r => readAlone x.1 (responses.getD (x.2 - 0) []) = .ok r)
        calls.zipIdx obtained := by
      refine hparts.imp ?_
      rintro ⟨c, exchange⟩ r ⟨t', hsub, hone⟩
      exact (result_of_one hone fun x hx => ht x (hsub.subset hx)).symm
    rw [← mapM_eq_ok_iff] at hread ⊢
    rw [hread]
  | error e =>
    -- The one that raised reads as no result, in whatever order the others ended.
    obtain ⟨p, hp, t', hsub, hrun⟩ := runs_gather_error h
    obtain ⟨⟨c, exchange⟩, hmem, rfl⟩ := List.mem_map.mp hp
    have hraised := result_of_one hrun fun x hx => ht x (hsub.subset hx)
    refine iff_of_false error_ne_ok fun hread => ?_
    obtain ⟨r, -, hr⟩ := forall₂_left hread hmem
    exact absurd (hraised.trans hr) error_ne_ok

/-! ## Reading a batch -/

theorem lookup_eq_none_of_notMem {κ β : Type} [DecidableEq κ] {entries : List (κ × β)} {key : κ}
    (h : key ∉ entries.map Prod.fst) : entries.lookup key = none := by
  rw [List.lookup_eq_none_iff]
  intro entry hentry
  rw [bne_iff_ne]
  rintro rfl
  exact h (List.mem_map_of_mem hentry)

/-- Responses with distinct numbers of requests are collected when their versions pass. -/
theorem collectResponses_eq_ok_iff {count : Nat} {order : List (List (String × Json) × Nat)}
    {acc byId : List (Nat × List (String × Json))} (hknown : ∀ x ∈ order, 1 ≤ x.2 ∧ x.2 ≤ count)
    (hnodup : (acc.map Prod.fst ++ order.map Prod.snd).Nodup) :
    collectResponses count (order.map fun x => withId (.int x.2) x.1) acc = .ok byId ↔
      (∀ x ∈ order, ∃ u, checkVersion (malformed "unexpected JSON-RPC version")
        (Json.get x.1 "jsonrpc") = .ok u) ∧
      byId = acc ++ order.map fun x => (x.2, withId (.int x.2) x.1) := by
  induction order generalizing acc with
  | nil => simp [collectResponses, eq_comm]
  | cons x order ih =>
    obtain ⟨response, requestId⟩ := x
    obtain ⟨hknownId, hrest⟩ := List.forall_mem_cons.mp hknown
    have hid : knownId count (Json.get (withId (.int requestId) response) "id") = some requestId := by
      show (if (1 : Int) ≤ requestId ∧ (requestId : Int) ≤ count then _ else _) = _
      rw [if_pos ⟨by exact_mod_cast hknownId.1, by exact_mod_cast hknownId.2⟩]
      rfl
    have hfresh : acc.lookup requestId = none := by
      apply lookup_eq_none_of_notMem
      intro hmem
      exact (List.nodup_append.mp hnodup).2.2 _ hmem _ List.mem_cons_self rfl
    have hversion : Json.get (withId (.int requestId) response) "jsonrpc" =
        Json.get response "jsonrpc" := rfl
    have hnext : ((acc ++ [(requestId, withId (.int requestId) response)]).map Prod.fst ++
        order.map Prod.snd).Nodup := by
      simpa using hnodup
    rw [List.map_cons, collectResponses]
    simp only [hid, hfresh, Option.isSome_none, Bool.false_eq_true, if_false, hversion,
      except_bind_eq_ok_iff, ih hrest hnext, List.forall_mem_cons]
    constructor
    · rintro ⟨u, hu, hall, rfl⟩
      exact ⟨⟨⟨u, hu⟩, hall⟩, by simp⟩
    · rintro ⟨⟨⟨u, hu⟩, hall⟩, rfl⟩
      exact ⟨u, hu, hall, by simp⟩

theorem decodeResponse_withId {c : ContractCall} {requestId : Nat} {response : List (String × Json)}
    {value : Json} : decodeResponse c requestId (withId value response) =
      decodeResponse c requestId response := rfl

section Order

variable {order : List (List (String × Json) × Nat)} (hlength : responses.length = calls.length)
  (horder : order.Perm (responses.zipIdx 1))

include hlength horder

theorem response_of_mem_order {x : List (String × Json) × Nat} (hx : x ∈ order) :
    (1 ≤ x.2 ∧ x.2 ≤ calls.length) ∧ x.1 = responses.getD (x.2 - 1) [] := by
  obtain ⟨response, requestId⟩ := x
  rw [horder.mem_iff, List.mk_mem_zipIdx_iff_le_and_getElem?_sub] at hx
  obtain ⟨hle, hget⟩ := hx
  obtain ⟨hlt, -⟩ := List.getElem?_eq_some_iff.mp hget
  refine ⟨⟨hle, by omega⟩, ?_⟩
  rw [List.getD_eq_getElem?_getD, hget]
  rfl

omit hlength in
theorem nodup_order_ids : (order.map Prod.snd).Nodup := by
  have hperm := horder.map Prod.snd
  rw [List.zipIdx_map_snd] at hperm
  exact hperm.nodup_iff.mpr List.nodup_range'

theorem mem_order {requestId : Nat} (hle : 1 ≤ requestId) (hlt : requestId ≤ calls.length) :
    (responses.getD (requestId - 1) [], requestId) ∈ order := by
  rw [horder.mem_iff, List.mk_mem_zipIdx_iff_le_and_getElem?_sub]
  have hbound : requestId - 1 < responses.length := by omega
  simp [hle, hbound]

/-- Each number of a request is found with its response. -/
theorem lookup_order {requestId : Nat} (hle : 1 ≤ requestId) (hlt : requestId ≤ calls.length) :
    (order.map fun x => (x.2, withId (.int x.2) x.1)).lookup requestId =
      some (withId (.int requestId) (responses.getD (requestId - 1) [])) := by
  apply (mem_iff_lookup _).mp
  · exact List.mem_map.mpr ⟨_, mem_order hlength horder hle hlt, rfl⟩
  · rw [List.map_map]
    exact nodup_order_ids horder

theorem missing_order : ((List.range' 1 calls.length).filter fun requestId =>
    ((order.map fun x => (x.2, withId (.int x.2) x.1)).lookup requestId).isNone) = [] := by
  rw [List.filter_eq_nil_iff]
  intro requestId hrequestId
  rw [List.mem_range'_1] at hrequestId
  rw [lookup_order hlength horder hrequestId.1 (by omega)]
  exact Bool.false_ne_true

/-- A batch returns when every response reads as a result and none has both keys. -/
theorem decoded_together {results : List RawCallResult} :
    decodeBatchResponses (order.map fun x => withId (.int x.2) x.1) calls = .ok results ↔
      List.Forall₂ (fun x r => readAlone x.1 x.2 = .ok r ∧ ¬ HasBoth x.2) (calls.zip responses)
        results := by
  have hcollect : ∀ byId,
      collectResponses calls.length (order.map fun x => withId (.int x.2) x.1) [] = .ok byId ↔ _ :=
    fun byId => collectResponses_eq_ok_iff (fun x hx => (response_of_mem_order hlength horder hx).1)
      (by simpa using nodup_order_ids horder)
  have hnumbered : ∀ x ∈ calls.zipIdx 1, 1 ≤ x.2 ∧ x.2 ≤ calls.length := by
    intro x hx
    have hle := List.le_snd_of_mem_zipIdx hx
    have hlt := List.snd_lt_of_mem_zipIdx hx
    omega
  rw [zip_eq_map_zipIdx 1 hlength, List.forall₂_map_left_iff]
  simp only [decodeBatchResponses, except_bind_eq_ok_iff, hcollect, List.nil_append, check_eq_ok_iff,
    List.isEmpty_iff]
  constructor
  · rintro ⟨byId, ⟨hversions, rfl⟩, _, -, hresults⟩
    have hall := (List.forall₂_and_left _ _).mpr ⟨fun _ hx => hx, mapM_eq_ok_iff.mp hresults⟩
    refine hall.imp ?_
    rintro ⟨c, requestId⟩ r ⟨hx, hdecoded⟩
    obtain ⟨hle, hlt⟩ := hnumbered _ hx
    rw [lookup_order hlength horder hle hlt, Option.getD_some, decodeResponse_withId] at hdecoded
    obtain ⟨u, hversion⟩ := hversions _ (mem_order hlength horder hle hlt)
    apply readTogether_eq_ok_iff.mp
    rw [readTogether, hversion]
    exact hdecoded
  · intro hread
    have htogether : List.Forall₂ (fun x r =>
        readTogether x.1 x.2 (responses.getD (x.2 - 1) []) = .ok r) (calls.zipIdx 1) results :=
      hread.imp fun _ _ => readTogether_eq_ok_iff.mpr
    simp only [readTogether, except_bind_eq_ok_iff] at htogether
    refine ⟨_, ⟨fun x hx => ?_, rfl⟩, ⟨⟩, missing_order hlength horder, mapM_eq_ok_iff.mpr ?_⟩
    · obtain ⟨⟨hle, hlt⟩, hresponse⟩ := response_of_mem_order hlength horder hx
      have hcall : (calls[x.2 - 1], x.2) ∈ calls.zipIdx 1 := by
        rw [List.mk_mem_zipIdx_iff_le_and_getElem?_sub]
        exact ⟨hle, List.getElem?_eq_getElem _⟩
      obtain ⟨_, -, u, hversion, -⟩ := forall₂_left htogether hcall
      rw [hresponse]
      exact ⟨u, hversion⟩
    · have hall := (List.forall₂_and_left _ _).mpr ⟨fun _ hx => hx, htogether⟩
      refine hall.imp ?_
      rintro ⟨c, requestId⟩ r ⟨hx, _, -, hdecoded⟩
      obtain ⟨hle, hlt⟩ := hnumbered _ hx
      rw [lookup_order hlength horder hle hlt, Option.getD_some, decodeResponse_withId]
      exact hdecoded

end Order

/-- The batch ends as its decoding does. -/
theorem sent_together {r : Except RpcFault (List RawCallResult)}
    (hlength : responses.length = calls.length) (htogether : endpoint.supportsHttpBatch = true)
    (h : Runs (sendCalls endpoint calls reference) t r) (ht : ∀ x ∈ t, AnsweredTogether responses x)
    (results : List RawCallResult) : r = .ok results ↔
      List.Forall₂ (fun x r => readAlone x.1 x.2 = .ok r ∧ ¬ HasBoth x.2) (calls.zip responses)
        results := by
  rw [sendCalls, if_pos htogether] at h
  by_cases hempty : calls = []
  · -- Nothing is posted for no calls.
    subst hempty
    obtain ⟨rfl, rfl⟩ : t = [] ∧ r = .ok [] := runs_ret_iff.mp h
    simp [eq_comm]
  · have hposted : (buildBatchRequests calls reference).isEmpty = false := by
      simpa [buildBatchRequests, List.zipIdx_eq_nil_iff] using hempty
    rw [batchOnEndpoint, hposted] at h
    obtain ⟨a, t', rfl, hrest⟩ := runs_call_iff.mp h
    obtain ⟨order, horder, rfl⟩ : AnsweredTogether responses ⟨.post endpoint _ 0, a⟩ :=
      ht _ List.mem_cons_self
    have hbody : parseBatch (.arr (order.map fun x => .obj (withId (.int x.2) x.1))) =
        .ok (order.map fun x => withId (.int x.2) x.1) := by
      rw [parseBatch, mapM_eq_ok_iff, List.forall₂_map_left_iff, List.forall₂_map_right_iff,
        List.forall₂_same]
      exact fun x _ => rfl
    have hdecoded : Runs (ofExcept (decodeBatchResponses
        (order.map fun x => withId (.int x.2) x.1) calls) : ClientProgram _) t' r := by
      change Runs (ofExcept (parseBatch _) >>= _) t' r at hrest
      rw [hbody] at hrest
      exact hrest
    obtain ⟨-, rfl⟩ := runs_ofExcept_iff.mp hdecoded
    exact decoded_together hlength horder

/-! ## Agreement -/

/-- An individual call takes the response: its result is data, or its error is well formed. -/
def accepted (response : List (String × Json)) : Bool :=
  (checkVersion (.protocol "unexpected JSON-RPC version") (Json.get response "jsonrpc")).isOk &&
    match Json.get response "error", response.lookup "result" with
    | .null, some (.str encoded) => (hexDataToBytes encoded).isOk
    | .null, _ => false
    | error, _ => (parseError error).isSome

/-- The response has an error that reads as a limit of the provider. -/
def reportsLimit (response : List (String × Json)) : Bool :=
  match parseError (Json.get response "error") with
  | some (code, message) =>
    (classifyRpcFailure (.response (if code = 0 then -1 else code) message .null)).kind = .providerLimit
  | none => false

theorem individualResult_eq_ok_iff {c : ContractCall} {response : List (String × Json)}
    {r : RawCallResult} : individualResult c (parseResult response) = .ok r ↔
      (∃ encoded raw, Json.get response "error" = .null ∧
        response.lookup "result" = some (.str encoded) ∧ hexDataToBytes encoded = .ok raw ∧
        r = { key := c.key, success := true, returndata := raw }) ∨
      ∃ code message, parseError (Json.get response "error") = some (code, message) ∧
        r = failedResult c code message := by
  unfold parseResult
  cases Json.get response "error" with
  | null =>
    cases response.lookup "result" with
    | none => simp [individualResult, parseError]
    | some result =>
      cases result with
      | str encoded =>
        cases hraw : hexDataToBytes encoded with
        | error e => simp [individualResult, decodedResult, parseError, hraw]
        | ok raw => simp [individualResult, decodedResult, parseError, hraw, eq_comm]
      | _ => simp [individualResult, parseError]
  | obj error =>
    cases hparsed : parseError (.obj error) with
    | none => simp [individualResult, hparsed]
    | some reported =>
      obtain ⟨code, message⟩ := reported
      simp [individualResult, hparsed, eq_comm]
  | _ => simp [individualResult, parseError]

theorem readAlone_eq_ok_iff {c : ContractCall} {response : List (String × Json)} {r : RawCallResult} :
    readAlone c response = .ok r ↔
      (checkVersion (.protocol "unexpected JSON-RPC version") (Json.get response "jsonrpc")).isOk = true
        ∧ individualResult c (parseResult response) = .ok r := by
  unfold readAlone
  cases hversion : Json.get response "jsonrpc" with
  | str version => by_cases hok : version = "2.0" <;>
      simp [checkVersion, check, hok, individualResult, Except.isOk, Except.toBool, bind, Except.bind]
  | _ => simp [checkVersion, individualResult, Except.isOk, Except.toBool, bind, Except.bind]

theorem exists_readAlone_iff {c : ContractCall} {response : List (String × Json)} :
    (∃ r, readAlone c response = .ok r) ↔ accepted response = true := by
  simp only [readAlone_eq_ok_iff, individualResult_eq_ok_iff, accepted, Bool.and_eq_true,
    exists_and_left, and_congr_right_iff]
  intro _
  cases Json.get response "error" with
  | null =>
    cases response.lookup "result" with
    | none => simp [parseError]
    | some result =>
      cases result with
      | str encoded =>
        cases hraw : hexDataToBytes encoded with
        | error e => simp [parseError, hraw, Except.isOk, Except.toBool]
        | ok raw => simp [parseError, hraw, Except.isOk, Except.toBool]
      | _ => simp [parseError]
  | obj error =>
    cases hparsed : parseError (.obj error) with
    | none => simp [hparsed]
    | some reported =>
      obtain ⟨code, message⟩ := reported
      simp [hparsed]
  | _ => simp [parseError]

theorem isLimit_of_readAlone {c : ContractCall} {response : List (String × Json)} {r : RawCallResult}
    (h : readAlone c response = .ok r) : isLimit r = reportsLimit response := by
  obtain ⟨-, hresult⟩ := readAlone_eq_ok_iff.mp h
  rw [reportsLimit]
  obtain ⟨encoded, raw, herror, -, -, rfl⟩ | ⟨code, message, herror, rfl⟩ :=
    individualResult_eq_ok_iff.mp hresult
  · rw [herror]
    rfl
  · simp only [herror, isLimit, failedResult, probe, Option.getD_some, Bool.not_false, Bool.true_and]
    exact decide_eq_decide.mpr Iff.rfl

section Outcome

variable {eip1898 : Bool} {P : ContractCall × List (String × Json) → RawCallResult → Prop}
  {A : Sigma RpcAns → Prop}

/-- What is sent decides, once the limits are raised. -/
theorem outcome_of_runOnEndpoint {r : Except RpcFault (List RawCallResult)}
    (hsent : ∀ t r, Runs (sendCalls endpoint calls reference) t r → (∀ x ∈ t, A x) →
      ∀ results, r = .ok results ↔ List.Forall₂ P (calls.zip responses) results)
    (hreference : callReference anchor eip1898 = .ok reference)
    (h : Runs (runOnEndpoint endpoint calls anchor eip1898) t r) (ht : ∀ x ∈ t, A x)
    (results : List RawCallResult) : r = .ok results ↔
      List.Forall₂ P (calls.zip responses) results ∧ ∀ r ∈ results, isLimit r = false := by
  rw [runOnEndpoint, hreference] at h
  change Runs (sendCalls endpoint calls reference >>= fun results => ofExcept (raiseLimits results))
    t r at h
  obtain ⟨obtained, t₁, t₂, rfl, h₁, h₂⟩ | ⟨e, h₁, rfl⟩ := runs_bind_iff.mp h
  · have hiff := hsent t₁ _ h₁ fun x hx => ht x (List.mem_append_left _ hx)
    obtain ⟨rfl, rfl⟩ := runs_ofExcept_iff.mp h₂
    rw [raiseLimits_eq_ok_iff, ← hiff, Except.ok.injEq]
    constructor
    · rintro ⟨rfl, hlimits⟩
      exact ⟨rfl, hlimits⟩
    · rintro ⟨rfl, hlimits⟩
      exact ⟨rfl, hlimits⟩
  · have hiff := hsent t _ h₁ ht
    exact iff_of_false error_ne_ok fun hall => error_ne_ok ((hiff results).mpr hall.1)

end Outcome

/-- A server that answers every request as `reply` does. -/
def serve (reply : Json → Nat → Json) : (op : RpcOp) → RpcAns op
  | .nextId => (0 : Nat)
  | .post _ payload exchange => .ok (reply payload exchange)
  | .select _ _ _ => .error (.noHealthyEndpoint "no RPC endpoint can serve the request")
  | .selectDistinctGroups _ _ => .error (.noHealthyEndpoint "no RPC endpoint can serve the request")
  | .recordSuccess _ => ()
  | .recordFailure _ _ _ _ => ()
  | .turn => true

/-- There is a run against the server of each kind. -/
theorem exists_answeredAlone (p : ClientProgram (List RawCallResult)) :
    ∃ t r, Runs p t r ∧ ∀ x ∈ t, AnsweredAlone responses x := by
  refine ⟨_, _, runs_answeredBy (serve fun payload exchange =>
    .obj (withId (requestIdOf payload) (responses.getD exchange []))) p, ?_⟩
  rintro ⟨op, a⟩ hx
  obtain rfl : a = serve _ op := answer_of_mem_traceOf hx
  cases op <;> first | exact trivial | rfl

theorem exists_answeredTogether (p : ClientProgram (List RawCallResult)) :
    ∃ t r, Runs p t r ∧ ∀ x ∈ t, AnsweredTogether responses x := by
  refine ⟨_, _, runs_answeredBy (serve fun _ _ =>
    .arr ((responses.zipIdx 1).map fun x => .obj (withId (.int x.2) x.1))) p, ?_⟩
  rintro ⟨op, a⟩ hx
  obtain rfl : a = serve _ op := answer_of_mem_traceOf hx
  cases op <;> first | exact trivial | exact ⟨_, List.Perm.refl _, rfl⟩

section Agreement

variable {eip1898 : Bool} (hlength : responses.length = calls.length)

include hlength

theorem exists_call_of_mem {response : List (String × Json)} (hresponse : response ∈ responses) :
    ∃ c, (c, response) ∈ calls.zip responses := by
  obtain ⟨i, hi, rfl⟩ := List.getElem_of_mem hresponse
  refine ⟨calls[i], List.mem_iff_getElem.mpr ⟨i, ?_, List.getElem_zip⟩⟩
  rw [List.length_zip]
  omega

variable (hreference : callReference anchor eip1898 = .ok reference)
  {r : Except RpcFault (List RawCallResult)} (results : List RawCallResult)

include hreference

theorem outcome_alone
    (h : Runs (runOnEndpoint { endpoint with supportsHttpBatch := false } calls anchor eip1898) t r)
    (ht : ∀ x ∈ t, AnsweredAlone responses x) : r = .ok results ↔
      List.Forall₂ (fun x r => readAlone x.1 x.2 = .ok r) (calls.zip responses) results ∧
        ∀ r ∈ results, isLimit r = false :=
  outcome_of_runOnEndpoint (fun _ _ h ht => sent_alone hlength rfl h ht) hreference h ht results

theorem outcome_together
    (h : Runs (runOnEndpoint { endpoint with supportsHttpBatch := true } calls anchor eip1898) t r)
    (ht : ∀ x ∈ t, AnsweredTogether responses x) : r = .ok results ↔
      List.Forall₂ (fun x r => readAlone x.1 x.2 = .ok r ∧ ¬ HasBoth x.2) (calls.zip responses)
        results ∧ ∀ r ∈ results, isLimit r = false :=
  outcome_of_runOnEndpoint (fun _ _ h ht => sent_together hlength rfl h ht) hreference h ht results

/-- When no response makes the individual calls raise, one with both keys sets the batch apart. -/
theorem disagree_of_hasBoth {response : List (String × Json)} (hresponse : response ∈ responses)
    (hboth : HasBoth response) (haccepted : ∀ response ∈ responses, accepted response = true)
    (hlimits : ∀ response ∈ responses, reportsLimit response = false) :
    ¬ TransportsAgree endpoint calls anchor eip1898 responses := by
  intro hagree
  obtain ⟨results, hresults⟩ : ∃ results, (calls.zip responses).mapM
      (fun x => readAlone x.1 x.2) = .ok results :=
    mapM_isOk fun x hx => exists_readAlone_iff.mpr (haccepted x.2 (List.of_mem_zip hx).2)
  have hunlimited : ∀ r ∈ results, isLimit r = false := by
    intro r hr
    obtain ⟨x, hx, hread⟩ := exists_of_mem_mapM hresults hr
    rw [isLimit_of_readAlone hread]
    exact hlimits x.2 (List.of_mem_zip hx).2
  obtain ⟨t, r, hr, ht⟩ := @exists_answeredTogether responses
    (runOnEndpoint { endpoint with supportsHttpBatch := true } calls anchor eip1898)
  obtain ⟨t', r', hr', ht'⟩ := @exists_answeredAlone responses
    (runOnEndpoint { endpoint with supportsHttpBatch := false } calls anchor eip1898)
  have hreturned := (outcome_alone hlength hreference results hr' ht').mpr
    ⟨mapM_eq_ok_iff.mp hresults, hunlimited⟩
  have hsame := (sameOutcome_iff.mp (hagree t r t' r' hr ht hr' ht') results).mpr hreturned
  obtain ⟨c, hmem⟩ := exists_call_of_mem hlength hresponse
  obtain ⟨_, -, -, hnot⟩ := forall₂_left
    ((outcome_together hlength hreference results hr ht).mp hsame).1 hmem
  exact hnot hboth

theorem agree_of_condition
    (hcondition : (∀ response ∈ responses, ¬ HasBoth response) ∨
      (∃ response ∈ responses, accepted response = false) ∨
      ∃ response ∈ responses, reportsLimit response = true) :
    TransportsAgree endpoint calls anchor eip1898 responses := by
  intro t r t' r' hr ht hr' ht'
  rw [sameOutcome_iff]
  intro results
  rw [outcome_together hlength hreference results hr ht,
    outcome_alone hlength hreference results hr' ht']
  have hforget : List.Forall₂ (fun x r => readAlone x.1 x.2 = .ok r ∧ ¬ HasBoth x.2)
      (calls.zip responses) results →
      List.Forall₂ (fun x r => readAlone x.1 x.2 = .ok r) (calls.zip responses) results :=
    fun hall => hall.imp fun _ _ hread => hread.1
  rcases hcondition with hnone | ⟨response, hresponse, hnot⟩ | ⟨response, hresponse, hlimit⟩
  · refine and_congr_left fun _ => ⟨hforget, fun hall => ?_⟩
    have hmem := (List.forall₂_and_left _ _).mpr ⟨fun _ hx => hx, hall⟩
    exact hmem.imp fun x _ hread => ⟨hread.2, hnone x.2 (List.of_mem_zip hread.1).2⟩
  · -- One response is not accepted, so neither returns.
    obtain ⟨c, hmem⟩ := exists_call_of_mem hlength hresponse
    have hfails : ¬ List.Forall₂ (fun x r => readAlone x.1 x.2 = .ok r)
        (calls.zip responses) results := by
      intro hall
      obtain ⟨r, -, hread⟩ := forall₂_left hall hmem
      rw [exists_readAlone_iff.mp ⟨r, hread⟩] at hnot
      cases hnot
    exact iff_of_false (fun h => hfails (hforget h.1)) fun h => hfails h.1
  · -- One response reports a limit, which is raised when it is accepted.
    obtain ⟨c, hmem⟩ := exists_call_of_mem hlength hresponse
    have hfails : ¬ (List.Forall₂ (fun x r => readAlone x.1 x.2 = .ok r)
        (calls.zip responses) results ∧ ∀ r ∈ results, isLimit r = false) := by
      rintro ⟨hall, hunlimited⟩
      obtain ⟨r, hr, hread⟩ := forall₂_left hall hmem
      have hfalse := hunlimited r hr
      rw [isLimit_of_readAlone hread, hlimit] at hfalse
      cases hfalse
    exact iff_of_false (fun h => hfails ⟨hforget h.1, h.2⟩) hfails

end Agreement

/-- The transports agree exactly when no response has both keys, or some response makes either of them
raise: it is not accepted, it reports a limit, or there is no reference to begin with. -/
theorem transports_agree_iff (endpoint : EndpointConfig) (calls : List ContractCall)
    (anchor : BlockRef) (eip1898 : Bool) (responses : List (List (String × Json)))
    (hlength : responses.length = calls.length) :
    TransportsAgree endpoint calls anchor eip1898 responses ↔
      ((∀ response ∈ responses, ¬ HasBoth response) ∨
        (∃ response ∈ responses, accepted response = false) ∨
        ∃ response ∈ responses, reportsLimit response = true) ∨
      ∃ e, callReference anchor eip1898 = .error e := by
  cases hreference : callReference anchor eip1898 with
  | error e =>
    -- Nothing is sent without a reference.
    refine ⟨fun _ => .inr ⟨e, rfl⟩, fun _ t r t' r' hr _ hr' _ => ?_⟩
    rw [runOnEndpoint, hreference] at hr hr'
    rw [(runs_raise_iff.mp hr).2, (runs_raise_iff.mp hr').2]
    trivial
  | ok reference =>
    refine ⟨fun hagree => .inl ?_, fun hcondition => ?_⟩
    · by_contra hcondition
      rw [not_or, not_or] at hcondition
      obtain ⟨hboth, haccepted, hlimits⟩ := hcondition
      simp only [not_forall, not_not, exists_prop] at hboth
      obtain ⟨response, hresponse, hboth⟩ := hboth
      refine disagree_of_hasBoth hlength hreference hresponse hboth ?_ ?_ hagree
      · exact fun response h => eq_true_of_ne_false fun hnot => haccepted ⟨response, h, hnot⟩
      · exact fun response h => eq_false_of_ne_true fun hlimit => hlimits ⟨response, h, hlimit⟩
    · apply agree_of_condition hlength hreference
      rcases hcondition with hcondition | ⟨e, he⟩
      · exact hcondition
      · exact absurd he ok_ne_error

/-- A null error beside a result: the individual call returns the data, the batch raises. -/
def nullError : List (String × Json) := [("result", .str "0x"), ("error", .null)]

theorem transports_agree_iff_nullError :
    TransportsAgree hashEndpoint [mixedCall] mixedAnchor false [nullError] ↔
      ((∀ response ∈ [nullError], ¬ HasBoth response) ∨
        (∃ response ∈ [nullError], accepted response = false) ∨
        ∃ response ∈ [nullError], reportsLimit response = true) ∨
      ∃ e, callReference mixedAnchor false = .error e :=
  transports_agree_iff hashEndpoint [mixedCall] mixedAnchor false [nullError] rfl

theorem transports_disagree :
    ¬ TransportsAgree hashEndpoint [mixedCall] mixedAnchor false [nullError] := by
  have haccepted : accepted nullError = true := rfl
  have hlimit : reportsLimit nullError = false := rfl
  exact disagree_of_hasBoth rfl rfl (List.mem_singleton_self _) ⟨rfl, rfl⟩ (by simpa using haccepted)
    (by simpa using hlimit)

end RpcStateIndexer
