import RpcStateIndexer.Execution.Transports

/-!
# Decoding the responses of a batch

A list of responses decodes exactly when its ids are those of the requests, in any order, and each
response is well formed.  The results stand in the order of the calls, whatever order the responses
came in.
-/

namespace RpcStateIndexer

open Reasoning

/-! ## Well-formed responses -/

/-- The version of a response is absent, null or the one that was asked for. -/
def VersionAccepted (response : List (String × Json)) : Prop :=
  Json.get response "jsonrpc" = .null ∨ Json.get response "jsonrpc" = .str "2.0"

/-- What a response says of a call: data or a well-formed error, never beside the other. -/
inductive Carries (c : ContractCall) (response : List (String × Json)) : RawCallResult → Prop
  | data {encoded : String} {raw : List UInt8} (result : response.lookup "result" = some (.str encoded))
      (error : response.lookup "error" = none) (decodes : hexDataToBytes encoded = .ok raw) :
      Carries c response { key := c.key, success := true, returndata := raw }
  | error {fields : List (String × Json)} {code : Int} {message : String}
      (result : response.lookup "result" = none) (error : response.lookup "error" = some (.obj fields))
      (code_eq : Json.get fields "code" = .int code)
      (message_eq : Json.get fields "message" = .str message) :
      Carries c response (failedResult c code message)

/-- One of the keys `result` and `error`: whole-byte hex data, or an error object with an integer code
and a text. -/
def PayloadWellFormed (response : List (String × Json)) : Prop :=
  (response.lookup "error" = none ∧ ∃ encoded raw,
    response.lookup "result" = some (.str encoded) ∧ hexDataToBytes encoded = .ok raw) ∨
  (response.lookup "result" = none ∧ ∃ fields code message,
    response.lookup "error" = some (.obj fields) ∧ Json.get fields "code" = .int code ∧
      Json.get fields "message" = .str message)

structure WellFormedResponse (response : List (String × Json)) : Prop where
  version : VersionAccepted response
  payload : PayloadWellFormed response

theorem checkVersion_ok_iff {e : RpcFault} {response : List (String × Json)} :
    (∃ u, checkVersion e (Json.get response "jsonrpc") = .ok u) ↔ VersionAccepted response := by
  unfold VersionAccepted
  cases Json.get response "jsonrpc" <;> simp [checkVersion]

theorem parseError_eq_some_iff {fields : List (String × Json)} {code : Int} {message : String} :
    parseError (.obj fields) = some (code, message) ↔
      Json.get fields "code" = .int code ∧ Json.get fields "message" = .str message := by
  unfold parseError
  dsimp only
  cases Json.get fields "code" <;> cases Json.get fields "message" <;> simp

/-- A response decodes to what it carries. -/
theorem decodeResponse_iff_carries {c : ContractCall} {requestId : Nat}
    {response : List (String × Json)} {r : RawCallResult} :
    decodeResponse c requestId response = .ok r ↔ Carries c response r := by
  constructor
  · intro h
    unfold decodeResponse at h
    split at h
    · next error hresult herror =>
      cases hparsed : parseError (.obj error) with
      | none =>
        rw [hparsed] at h
        cases h
      | some reported =>
        obtain ⟨code, message⟩ := reported
        rw [hparsed] at h
        cases h
        obtain ⟨hcode, hmessage⟩ := parseError_eq_some_iff.mp hparsed
        exact .error hresult herror hcode hmessage
    · cases h
    · next encoded hresult herror =>
      unfold decodedResult at h
      cases hraw : hexDataToBytes encoded with
      | error e =>
        rw [hraw] at h
        cases h
      | ok raw =>
        rw [hraw] at h
        cases h
        exact .data hresult herror hraw
    · cases h
    · cases h
  · intro h
    cases h with
    | data hresult herror hraw =>
      unfold decodeResponse decodedResult
      rw [hresult, herror]
      dsimp only
      rw [hraw]
    | error hresult herror hcode hmessage =>
      unfold decodeResponse
      rw [hresult, herror]
      dsimp only
      rw [parseError_eq_some_iff.mpr ⟨hcode, hmessage⟩]

/-- Whether a response carries a result does not depend on the call. -/
theorem exists_carries_iff {response : List (String × Json)} (c : ContractCall) :
    (∃ r, Carries c response r) ↔ PayloadWellFormed response := by
  constructor
  · rintro ⟨r, hcarries⟩
    cases hcarries with
    | data hresult herror hraw => exact .inl ⟨herror, _, _, hresult, hraw⟩
    | error hresult herror hcode hmessage => exact .inr ⟨hresult, _, _, _, herror, hcode, hmessage⟩
  · rintro (⟨herror, encoded, raw, hresult, hraw⟩ |
      ⟨hresult, fields, code, message, herror, hcode, hmessage⟩)
    · exact ⟨_, .data hresult herror hraw⟩
    · exact ⟨_, .error hresult herror hcode hmessage⟩

/-! ## Collecting responses by id -/

/-- The number of a response whose id is one. -/
def responseNumber (response : List (String × Json)) : Nat :=
  match Json.get response "id" with
  | .int value => value.toNat
  | _ => 0

/-- The id of the response is the number of one of `count` requests. -/
def Numbered (count : Nat) (response : List (String × Json)) : Prop :=
  ∃ requestId : Nat, (1 ≤ requestId ∧ requestId ≤ count) ∧ Json.get response "id" = .int requestId

theorem knownId_eq_some_iff {count requestId : Nat} {id : Json} :
    knownId count id = some requestId ↔ (1 ≤ requestId ∧ requestId ≤ count) ∧ id = .int requestId := by
  cases id with
  | int value =>
    unfold knownId
    dsimp only
    by_cases hrange : 1 ≤ value ∧ value ≤ count
    · rw [if_pos hrange, Option.some.injEq, Json.int.injEq]
      omega
    · rw [if_neg hrange, Json.int.injEq]
      refine iff_of_false (fun h => by cases h) ?_
      omega
  | _ => simp [knownId]

theorem responseNumber_of_numbered {count : Nat} {response : List (String × Json)}
    (h : Numbered count response) :
    (1 ≤ responseNumber response ∧ responseNumber response ≤ count) ∧
      Json.get response "id" = .int (responseNumber response) := by
  obtain ⟨requestId, hrange, hid⟩ := h
  have hnumber : responseNumber response = requestId := by
    unfold responseNumber
    rw [hid]
    rfl
  rw [hnumber]
  exact ⟨hrange, hid⟩

/-- Responses are collected when each has the number of a request, no two the same, and their versions
pass. -/
theorem collectResponses_ok_iff {count : Nat} {responses : List (List (String × Json))}
    {acc byId : List (Nat × List (String × Json))} (hacc : (acc.map Prod.fst).Nodup) :
    collectResponses count responses acc = .ok byId ↔
      (∀ response ∈ responses, Numbered count response ∧ VersionAccepted response) ∧
        (acc.map Prod.fst ++ responses.map responseNumber).Nodup ∧
          byId = acc ++ responses.map fun response => (responseNumber response, response) := by
  induction responses generalizing acc with
  | nil => simp [collectResponses, hacc, eq_comm]
  | cons response responses ih =>
    rw [collectResponses, List.forall_mem_cons]
    cases hknown : knownId count (Json.get response "id") with
    | none =>
      refine iff_of_false (fun h => by cases h) ?_
      rintro ⟨⟨⟨⟨requestId, hid⟩, -⟩, -⟩, -⟩
      rw [knownId_eq_some_iff.mpr hid] at hknown
      cases hknown
    | some requestId =>
      have hid := knownId_eq_some_iff.mp hknown
      have hnumbered : Numbered count response := ⟨requestId, hid⟩
      have hnumber : responseNumber response = requestId := by
        unfold responseNumber
        rw [hid.2]
        rfl
      dsimp only
      by_cases hduplicate : requestId ∈ acc.map Prod.fst
      · -- A number that was seen before is refused.
        obtain ⟨entry, hentry, hfst⟩ := List.mem_map.mp hduplicate
        have hlookup : acc.lookup requestId = some entry.2 :=
          (mem_iff_lookup hacc).mp (hfst ▸ hentry)
        rw [hlookup, Option.isSome_some, if_pos rfl]
        refine iff_of_false (fun h => by cases h) ?_
        rintro ⟨-, hnodup, -⟩
        rw [List.map_cons, hnumber] at hnodup
        exact List.disjoint_of_nodup_append hnodup hduplicate List.mem_cons_self
      · rw [lookup_eq_none_of_notMem hduplicate, Option.isSome_none, if_neg Bool.false_ne_true]
        have hacc' : ((acc ++ [(requestId, response)]).map Prod.fst).Nodup := by
          rw [List.map_append, List.nodup_append]
          refine ⟨hacc, List.nodup_singleton _, ?_⟩
          intro a ha b hb
          rw [List.mem_singleton.mp hb]
          rintro rfl
          exact hduplicate ha
        simp only [except_bind_eq_ok_iff, ih hacc', List.map_append, List.map_cons, List.map_nil,
          List.append_assoc, List.singleton_append, hnumber, hnumbered, true_and]
        constructor
        · rintro ⟨u, hu, hall, hnodup, rfl⟩
          exact ⟨⟨checkVersion_ok_iff.mp ⟨u, hu⟩, hall⟩, hnodup, rfl⟩
        · rintro ⟨⟨hversion, hall⟩, hnodup, rfl⟩
          obtain ⟨u, hu⟩ := checkVersion_ok_iff.mpr hversion
          exact ⟨u, hu, hall, hnodup, rfl⟩

/-! ## Ids -/

/-- The ids of the responses are those of the requests, each once. -/
def AnswersRequests (requests : List Json) (responses : List (List (String × Json))) : Prop :=
  (responses.map fun response => Json.get response "id").Perm (requests.map requestIdOf)

theorem requestIds_eq (calls : List ContractCall) (reference : Json) :
    (buildBatchRequests calls reference).map requestIdOf =
      (List.range' 1 calls.length).map fun requestId => .int (requestId : Nat) := by
  rw [buildBatchRequests, List.map_map, ← List.zipIdx_map_snd 1 calls, List.map_map]
  rfl

variable {calls : List ContractCall} {reference : Json} {responses : List (List (String × Json))}

/-- The ids are a permutation when they are numbers of requests, none twice and none left out. -/
theorem answersRequests_iff : AnswersRequests (buildBatchRequests calls reference) responses ↔
    (∀ response ∈ responses, Numbered calls.length response) ∧
      (responses.map responseNumber).Nodup ∧
        ∀ requestId, 1 ≤ requestId → requestId ≤ calls.length →
          requestId ∈ responses.map responseNumber := by
  have hinjective : Function.Injective fun requestId : Nat => Json.int requestId := by
    intro a b h
    exact Int.ofNat_inj.mp (Json.int.inj h)
  have hids : (∀ response ∈ responses, Numbered calls.length response) →
      responses.map (fun response => Json.get response "id") =
        (responses.map responseNumber).map fun requestId => .int (requestId : Nat) := by
    intro hnumbered
    rw [List.map_map]
    exact List.map_congr_left fun response hresponse =>
      (responseNumber_of_numbered (hnumbered response hresponse)).2
  have hmem : ∀ requestId, requestId ∈ List.range' 1 calls.length ↔
      1 ≤ requestId ∧ requestId ≤ calls.length := by
    intro requestId
    rw [List.mem_range'_1]
    omega
  rw [AnswersRequests, requestIds_eq]
  constructor
  · intro hperm
    have hnumbered : ∀ response ∈ responses, Numbered calls.length response := by
      intro response hresponse
      have hid := hperm.mem_iff.mp (List.mem_map_of_mem hresponse)
      obtain ⟨requestId, hrange, heq⟩ := List.mem_map.mp hid
      exact ⟨requestId, (hmem requestId).mp hrange, heq.symm⟩
    rw [hids hnumbered, List.map_perm_map_iff hinjective] at hperm
    refine ⟨hnumbered, hperm.nodup_iff.mpr List.nodup_range', fun requestId hle hlt => ?_⟩
    exact hperm.mem_iff.mpr ((hmem requestId).mpr ⟨hle, hlt⟩)
  · rintro ⟨hnumbered, hnodup, hall⟩
    rw [hids hnumbered, List.map_perm_map_iff hinjective,
      List.perm_ext_iff_of_nodup hnodup List.nodup_range']
    intro requestId
    rw [hmem]
    constructor
    · intro hrequestId
      obtain ⟨response, hresponse, rfl⟩ := List.mem_map.mp hrequestId
      exact (responseNumber_of_numbered (hnumbered response hresponse)).1
    · rintro ⟨hle, hlt⟩
      exact hall requestId hle hlt

/-! ## The results -/

/-- One result for each call, in their order: what the response with the id of its request says. -/
def ResultsOf (calls : List ContractCall) (requests : List Json)
    (responses : List (List (String × Json))) (results : List RawCallResult) : Prop :=
  List.Forall₂ (fun x r => r.key = x.1.key ∧ ∃ response ∈ responses,
    Json.get response "id" = requestIdOf x.2 ∧ Carries x.1 response r) (calls.zip requests) results

theorem key_of_carries {c : ContractCall} {response : List (String × Json)} {r : RawCallResult}
    (h : Carries c response r) : r.key = c.key := by
  cases h <;> rfl

theorem zip_buildBatchRequests (calls : List ContractCall) (reference : Json) :
    calls.zip (buildBatchRequests calls reference) = (calls.zipIdx 1).map fun x =>
      (x.1, requestObject x.2 "eth_call" (ethCallParams x.1.target x.1.calldata reference)) := by
  have hzip := List.zip_map' (f := Prod.fst) (l := calls.zipIdx 1) (g := fun x : ContractCall × Nat =>
    requestObject x.2 "eth_call" (ethCallParams x.1.target x.1.calldata reference))
  rw [List.zipIdx_map_fst] at hzip
  exact hzip

/-- Where no number repeats, a number is looked up to the response that has it. -/
theorem lookup_responses (hnodup : (responses.map responseNumber).Nodup)
    {response : List (String × Json)} {requestId : Nat} :
    (responses.map fun response => (responseNumber response, response)).lookup requestId =
        some response ↔ response ∈ responses ∧ responseNumber response = requestId := by
  have hkeys : ((responses.map fun response => (responseNumber response, response)).map
      Prod.fst).Nodup := by
    rw [List.map_map]
    exact hnodup
  rw [← mem_iff_lookup hkeys, List.mem_map]
  constructor
  · rintro ⟨other, hother, heq⟩
    obtain ⟨rfl, rfl⟩ := Prod.mk.inj heq
    exact ⟨hother, rfl⟩
  · rintro ⟨hresponse, rfl⟩
    exact ⟨response, hresponse, rfl⟩

/-- No number of a request is missing exactly when each is the number of a response. -/
theorem missing_eq_nil_iff (hnodup : (responses.map responseNumber).Nodup) {count : Nat} :
    ((List.range' 1 count).filter fun requestId =>
      ((responses.map fun response => (responseNumber response, response)).lookup
        requestId).isNone) = [] ↔
      ∀ requestId, 1 ≤ requestId → requestId ≤ count → requestId ∈ responses.map responseNumber := by
  have hfound : ∀ requestId, ((responses.map fun response =>
      (responseNumber response, response)).lookup requestId).isNone = false ↔
        requestId ∈ responses.map responseNumber := by
    intro requestId
    rw [Option.isNone_eq_false_iff, Option.isSome_iff_exists, List.mem_map]
    simp only [lookup_responses hnodup]
  rw [List.filter_eq_nil_iff]
  simp only [List.mem_range'_1, Bool.not_eq_true, hfound]
  constructor
  · intro h requestId hle hlt
    exact h requestId ⟨hle, by omega⟩
  · rintro h requestId ⟨hle, hlt⟩
    exact h requestId hle (by omega)

section Answered

variable (h : AnswersRequests (buildBatchRequests calls reference) responses)
include h

/-- The number of a call is looked up to a response with the id of its request. -/
theorem exists_response {x : ContractCall × Nat} (hx : x ∈ calls.zipIdx 1) :
    ∃ response ∈ responses, Json.get response "id" = .int x.2 ∧
      (responses.map fun response => (responseNumber response, response)).lookup x.2 =
        some response := by
  obtain ⟨hnumbered, hnodup, hall⟩ := answersRequests_iff.mp h
  have hle := List.le_snd_of_mem_zipIdx hx
  have hlt := List.snd_lt_of_mem_zipIdx hx
  obtain ⟨response, hresponse, hnumber⟩ := List.mem_map.mp (hall x.2 hle (by omega))
  refine ⟨response, hresponse, ?_, (lookup_responses hnodup).mpr ⟨hresponse, hnumber⟩⟩
  rw [← hnumber]
  exact (responseNumber_of_numbered (hnumbered response hresponse)).2

/-- Responses of one id are one response. -/
theorem response_unique {response other : List (String × Json)} (hresponse : response ∈ responses)
    (hother : other ∈ responses) (hid : Json.get other "id" = Json.get response "id") :
    other = response := by
  obtain ⟨-, hnodup, -⟩ := answersRequests_iff.mp h
  refine List.inj_on_of_nodup_map hnodup hother hresponse ?_
  unfold responseNumber
  rw [hid]

/-- Under the number of a call its response is read. -/
theorem decodeResponse_lookup_iff {x : ContractCall × Nat} (hx : x ∈ calls.zipIdx 1)
    {r : RawCallResult} :
    decodeResponse x.1 x.2 (((responses.map fun response =>
        (responseNumber response, response)).lookup x.2).getD []) = .ok r ↔
      r.key = x.1.key ∧ ∃ response ∈ responses, Json.get response "id" = .int x.2 ∧
        Carries x.1 response r := by
  obtain ⟨response, hresponse, hid, hlookup⟩ := exists_response h hx
  rw [hlookup, Option.getD_some, decodeResponse_iff_carries]
  constructor
  · intro hcarries
    exact ⟨key_of_carries hcarries, response, hresponse, hid, hcarries⟩
  · rintro ⟨-, other, hother, hotherId, hcarries⟩
    exact response_unique h hresponse hother (hotherId.trans hid.symm) ▸ hcarries

theorem forall₂_decodeResponse_iff {results : List RawCallResult} :
    List.Forall₂ (fun x r => decodeResponse x.1 x.2 (((responses.map fun response =>
        (responseNumber response, response)).lookup x.2).getD []) = .ok r) (calls.zipIdx 1) results ↔
      ResultsOf calls (buildBatchRequests calls reference) responses results := by
  rw [ResultsOf, zip_buildBatchRequests, List.forall₂_map_left_iff]
  constructor
  · intro hresults
    have hall := (List.forall₂_and_left _ _).mpr ⟨fun x hx => hx, hresults⟩
    exact hall.imp fun x r hr => (decodeResponse_lookup_iff h hr.1).mp hr.2
  · intro hresults
    have hall := (List.forall₂_and_left _ _).mpr ⟨fun x hx => hx, hresults⟩
    exact hall.imp fun x r hr => (decodeResponse_lookup_iff h hr.1).mpr hr.2

/-- The calls have results exactly when every response is well formed. -/
theorem exists_resultsOf_iff :
    (∃ results, ResultsOf calls (buildBatchRequests calls reference) responses results) ↔
      ∀ response ∈ responses, PayloadWellFormed response := by
  simp only [← forall₂_decodeResponse_iff h, ← mapM_eq_ok_iff]
  constructor
  · rintro ⟨results, hresults⟩ response hresponse
    obtain ⟨hnumbered, -, -⟩ := answersRequests_iff.mp h
    obtain ⟨⟨hle, hlt⟩, hid⟩ := responseNumber_of_numbered (hnumbered response hresponse)
    have hindex : responseNumber response - 1 < calls.length := by omega
    have hx : (calls[responseNumber response - 1], responseNumber response) ∈ calls.zipIdx 1 := by
      rw [List.mk_mem_zipIdx_iff_le_and_getElem?_sub]
      exact ⟨hle, List.getElem?_eq_getElem hindex⟩
    obtain ⟨r, -, hr⟩ := exists_of_mem_of_mapM hresults hx
    obtain ⟨-, other, hother, hotherId, hcarries⟩ := (decodeResponse_lookup_iff h hx).mp hr
    rw [← response_unique h hresponse hother (hotherId.trans hid.symm)]
    exact (exists_carries_iff _).mp ⟨r, hcarries⟩
  · intro hall
    apply mapM_isOk
    intro x hx
    obtain ⟨response, hresponse, hid, -⟩ := exists_response h hx
    obtain ⟨r, hcarries⟩ := (exists_carries_iff x.1).mpr (hall response hresponse)
    exact ⟨r, (decodeResponse_lookup_iff h hx).mpr
      ⟨key_of_carries hcarries, response, hresponse, hid, hcarries⟩⟩

end Answered

/-- Decoding returns exactly the results of the responses, when their ids and versions pass. -/
theorem decodeBatchResponses_eq_ok_iff {results : List RawCallResult} :
    decodeBatchResponses responses calls = .ok results ↔
      AnswersRequests (buildBatchRequests calls reference) responses ∧
        (∀ response ∈ responses, VersionAccepted response) ∧
          ResultsOf calls (buildBatchRequests calls reference) responses results := by
  have hcollect : ∀ byId, collectResponses calls.length responses [] = .ok byId ↔ _ := fun byId =>
    collectResponses_ok_iff List.nodup_nil
  simp only [decodeBatchResponses, except_bind_eq_ok_iff, hcollect, List.map_nil, List.nil_append,
    check_eq_ok_iff, List.isEmpty_iff, mapM_eq_ok_iff]
  constructor
  · rintro ⟨byId, ⟨hall, hnodup, rfl⟩, _, hmissing, hresults⟩
    have hanswers : AnswersRequests (buildBatchRequests calls reference) responses :=
      answersRequests_iff.mpr ⟨fun response hresponse => (hall response hresponse).1, hnodup,
        (missing_eq_nil_iff hnodup).mp hmissing⟩
    exact ⟨hanswers, fun response hresponse => (hall response hresponse).2,
      (forall₂_decodeResponse_iff hanswers).mp hresults⟩
  · rintro ⟨hanswers, hversions, hresults⟩
    obtain ⟨hnumbered, hnodup, hcovered⟩ := answersRequests_iff.mp hanswers
    exact ⟨_, ⟨fun response hresponse => ⟨hnumbered response hresponse, hversions response hresponse⟩,
      hnodup, rfl⟩, (), (missing_eq_nil_iff hnodup).mpr hcovered,
      (forall₂_decodeResponse_iff hanswers).mpr hresults⟩

/-- Only which responses there are decides, not their order. -/
theorem answersRequests_perm {requests : List Json} {responses' : List (List (String × Json))}
    (h : responses'.Perm responses) :
    AnswersRequests requests responses' ↔ AnswersRequests requests responses := by
  unfold AnswersRequests
  exact ⟨(h.map _).symm.trans, (h.map _).trans⟩

theorem resultsOf_perm {requests : List Json} {responses' : List (List (String × Json))}
    (h : responses'.Perm responses) {results : List RawCallResult} :
    ResultsOf calls requests responses' results ↔ ResultsOf calls requests responses results := by
  unfold ResultsOf
  simp only [h.mem_iff]

/-- A batch decodes exactly when the ids of its responses are those of the requests and every response is
well formed.  It then gives each call, in order, the result of the response with its id, and so does
every other order of the responses. -/
theorem batch_decodes_iff (calls : List ContractCall) (reference : Json)
    (responses : List (List (String × Json))) :
    ((∃ results, decodeBatchResponses responses calls = .ok results) ↔
      AnswersRequests (buildBatchRequests calls reference) responses ∧
        ∀ response ∈ responses, WellFormedResponse response) ∧
    ∀ results, decodeBatchResponses responses calls = .ok results →
      ResultsOf calls (buildBatchRequests calls reference) responses results ∧
      ∀ responses', responses'.Perm responses →
        decodeBatchResponses responses' calls = .ok results := by
  have hdecode : ∀ responses results, decodeBatchResponses responses calls = .ok results ↔
      AnswersRequests (buildBatchRequests calls reference) responses ∧
        (∀ response ∈ responses, VersionAccepted response) ∧
          ResultsOf calls (buildBatchRequests calls reference) responses results :=
    fun responses results => decodeBatchResponses_eq_ok_iff
  constructor
  · simp only [hdecode]
    constructor
    · rintro ⟨results, hanswers, hversions, hresults⟩
      have hpayload := (exists_resultsOf_iff hanswers).mp ⟨results, hresults⟩
      exact ⟨hanswers, fun response hresponse =>
        ⟨hversions response hresponse, hpayload response hresponse⟩⟩
    · rintro ⟨hanswers, hall⟩
      obtain ⟨results, hresults⟩ := (exists_resultsOf_iff hanswers).mpr fun response hresponse =>
        (hall response hresponse).payload
      exact ⟨results, hanswers, fun response hresponse => (hall response hresponse).version, hresults⟩
  · intro results h
    obtain ⟨hanswers, hversions, hresults⟩ := (hdecode responses results).mp h
    refine ⟨hresults, fun responses' hperm => (hdecode responses' results).mpr ⟨?_, ?_, ?_⟩⟩
    · exact (answersRequests_perm hperm).mpr hanswers
    · exact fun response hresponse => hversions response (hperm.mem_iff.mp hresponse)
    · exact (resultsOf_perm hperm).mpr hresults

/-- Two calls, the second answered first and the other one with an error. -/
def outOfOrderCalls : List ContractCall := [⟨"a", zeroAddress, [], true⟩, ⟨"b", zeroAddress, [], true⟩]

def outOfOrder : List (List (String × Json)) := [
  [("id", .int 2), ("result", .str "0x")],
  [("jsonrpc", .str "2.0"), ("id", .int 1),
    ("error", .obj [("code", .int 3), ("message", .str "execution reverted")])]]

theorem batch_decodes_iff_outOfOrder : ∃ results,
    decodeBatchResponses outOfOrder outOfOrderCalls = .ok results ∧
      results.map RawCallResult.success = [false, true] ∧
      ResultsOf outOfOrderCalls (buildBatchRequests outOfOrderCalls (.str "0x1")) outOfOrder results ∧
      decodeBatchResponses outOfOrder.reverse outOfOrderCalls = .ok results := by
  have hdecode : decodeBatchResponses outOfOrder outOfOrderCalls =
      .ok [failedResult ⟨"a", zeroAddress, [], true⟩ 3 "execution reverted", ⟨"b", true, [], none, none⟩] :=
    rfl
  obtain ⟨hresults, horder⟩ := (batch_decodes_iff outOfOrderCalls (.str "0x1") outOfOrder).2 _ hdecode
  exact ⟨_, hdecode, rfl, hresults, horder _ (List.reverse_perm _)⟩

end RpcStateIndexer
