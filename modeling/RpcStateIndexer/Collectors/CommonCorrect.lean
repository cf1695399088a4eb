import RpcStateIndexer.Collectors.Common

/-!
# What a round accepts

A round returns exactly on verified batches of the anchor whose results carry every expected key once,
and then it returns these results in order.
-/

namespace RpcStateIndexer

open Reasoning Program

/-- A batch is verified, at the anchor, and its digest is that of its results. -/
structure VerifiedFor (anchor : BlockRef) (batch : VerifiedBatchResult) : Prop where
  verified : batch.evidence.verified = true
  anchorHash : batch.evidence.anchorHash.toLower = anchor.blockHash.toLower
  digest : digestRawResults batch.results = .ok batch.evidence.resultDigest

/-- The results of all batches, in order. -/
def rawResults (batches : List VerifiedBatchResult) : List RawCallResult :=
  batches.flatMap VerifiedBatchResult.results

/-- The results of all batches with the numbers of their batches. -/
def numbered (sequence : Nat) : List VerifiedBatchResult → List NumberedResult
  | [] => []
  | batch :: rest =>
    batch.results.map (fun raw => ⟨raw, sequence⟩) ++ numbered (sequence + 1) rest

/-- The batches answer the keys: each is verified for the anchor, and each key has one result. -/
structure Accepted (expected : List String) (anchor : BlockRef) (batches : List VerifiedBatchResult) :
    Prop where
  verified : ∀ batch ∈ batches, VerifiedFor anchor batch
  nodup : ((rawResults batches).map RawCallResult.key).Nodup
  keys : ∀ key, key ∈ (rawResults batches).map RawCallResult.key ↔ key ∈ expected

theorem raw_numbered (sequence : Nat) (batches : List VerifiedBatchResult) :
    (numbered sequence batches).map NumberedResult.raw = rawResults batches := by
  induction batches generalizing sequence with
  | nil => rfl
  | cons batch rest ih =>
    rw [numbered, List.map_append, ih, List.map_map]
    exact congrArg (· ++ rawResults rest) (List.map_id batch.results)

theorem keys_numbered (sequence : Nat) (batches : List VerifiedBatchResult) :
    (numbered sequence batches).map (fun result => result.raw.key) =
      (rawResults batches).map RawCallResult.key := by
  rw [← raw_numbered sequence, List.map_map]
  rfl

section Accept

variable {messages : RoundMessages} {expected : List String} {anchor : BlockRef}

theorem foldlM_acceptResult {sequence : Nat} {raws : List RawCallResult}
    {results out : List NumberedResult} (h : (results.map fun r => r.raw.key).Nodup) :
    raws.foldlM (acceptResult messages expected sequence) results = .ok out ↔
      (∀ raw ∈ raws, raw.key ∈ expected) ∧
        (results.map (fun r => r.raw.key) ++ raws.map RawCallResult.key).Nodup ∧
          out = results ++ raws.map fun raw => ⟨raw, sequence⟩ := by
  induction raws generalizing results with
  | nil =>
    rw [List.foldlM_nil, except_pure_eq_ok_iff]
    simp [h, eq_comm]
  | cons raw raws ih =>
    rw [List.foldlM_cons, acceptResult]
    by_cases hexpected : raw.key ∈ expected
    · rw [if_neg (not_not.mpr hexpected)]
      by_cases hduplicate : raw.key ∈ results.map fun r => r.raw.key
      · rw [if_pos hduplicate]
        apply iff_of_false error_ne_ok
        rintro ⟨-, hnodup, -⟩
        rw [List.map_cons] at hnodup
        exact List.disjoint_of_nodup_append hnodup hduplicate List.mem_cons_self
      · rw [if_neg hduplicate, except_ok_bind, ih]
        · simp only [List.map_append, List.map_cons, List.map_nil, List.append_assoc,
            List.singleton_append, List.forall_mem_cons, hexpected, true_and]
        · rw [List.map_append, List.nodup_append]
          refine ⟨h, List.nodup_singleton _, ?_⟩
          intro a ha b hb
          obtain rfl : b = raw.key := List.mem_singleton.mp hb
          rintro rfl
          exact hduplicate ha
    · rw [if_pos hexpected]
      apply iff_of_false error_ne_ok
      rintro ⟨hall, -, -⟩
      exact hexpected (hall raw List.mem_cons_self)

theorem acceptBatch_eq_ok_iff {sequence : Nat} {batch : VerifiedBatchResult}
    {results out : List NumberedResult} (h : (results.map fun r => r.raw.key).Nodup) :
    acceptBatch messages expected anchor sequence results batch = .ok out ↔
      VerifiedFor anchor batch ∧ (∀ raw ∈ batch.results, raw.key ∈ expected) ∧
        (results.map (fun r => r.raw.key) ++ batch.results.map RawCallResult.key).Nodup ∧
          out = results ++ batch.results.map fun raw => ⟨raw, sequence⟩ := by
  rw [acceptBatch]
  by_cases hverified : batch.evidence.verified = false
  · rw [if_pos hverified]
    apply iff_of_false error_ne_ok
    rintro ⟨⟨htrue, -, -⟩, -⟩
    rw [htrue] at hverified
    cases hverified
  · rw [if_neg hverified]
    by_cases hhash : batch.evidence.anchorHash.toLower = anchor.blockHash.toLower
    · rw [if_neg (not_not.mpr hhash)]
      cases hdigest : digestRawResults batch.results with
      | error fault =>
        apply iff_of_false error_ne_ok
        rintro ⟨⟨-, -, hok⟩, -⟩
        rw [hdigest] at hok
        cases hok
      | ok digest =>
        dsimp only
        by_cases hsame : batch.evidence.resultDigest = digest
        · rw [if_neg (not_not.mpr hsame), foldlM_acceptResult h]
          have hbatch : VerifiedFor anchor batch :=
            ⟨Bool.not_eq_false _ ▸ hverified, hhash, by rw [hdigest, hsame]⟩
          simp only [hbatch, true_and]
        · rw [if_pos hsame]
          apply iff_of_false error_ne_ok
          rintro ⟨⟨-, -, hok⟩, -⟩
          rw [hdigest] at hok
          exact hsame (Except.ok.inj hok).symm
    · rw [if_pos hhash]
      apply iff_of_false error_ne_ok
      rintro ⟨⟨-, hlower, -⟩, -⟩
      exact hhash hlower

theorem acceptBatches_eq_ok_iff {sequence : Nat} {batches : List VerifiedBatchResult}
    {results out : List NumberedResult} (h : (results.map fun r => r.raw.key).Nodup) :
    acceptBatches messages expected anchor sequence results batches = .ok out ↔
      (∀ batch ∈ batches, VerifiedFor anchor batch) ∧
        (∀ raw ∈ rawResults batches, raw.key ∈ expected) ∧
          (results.map (fun r => r.raw.key) ++ (rawResults batches).map RawCallResult.key).Nodup ∧
            out = results ++ numbered sequence batches := by
  induction batches generalizing sequence results with
  | nil =>
    rw [acceptBatches, Except.ok.injEq]
    simp [rawResults, numbered, h, eq_comm]
  | cons batch rest ih =>
    have hraw : rawResults (batch :: rest) = batch.results ++ rawResults rest := rfl
    rw [acceptBatches, except_bind_eq_ok_iff]
    simp only [acceptBatch_eq_ok_iff h]
    constructor
    · rintro ⟨results₁, ⟨hbatch, hkeys, hnodup, rfl⟩, hrest⟩
      rw [ih (by simpa [List.map_append, List.map_map, Function.comp_def] using hnodup)] at hrest
      obtain ⟨hbatches, hrestKeys, hrestNodup, rfl⟩ := hrest
      refine ⟨List.forall_mem_cons.mpr ⟨hbatch, hbatches⟩, ?_, ?_, ?_⟩
      · rw [hraw]
        exact List.forall_mem_append.mpr ⟨hkeys, hrestKeys⟩
      · rw [hraw]
        simpa [List.map_append, List.map_map, Function.comp_def] using hrestNodup
      · rw [numbered, List.append_assoc]
    · rintro ⟨hbatches, hkeys, hnodup, rfl⟩
      obtain ⟨hbatch, hrest⟩ := List.forall_mem_cons.mp hbatches
      rw [hraw] at hkeys hnodup
      obtain ⟨hbatchKeys, hrestKeys⟩ := List.forall_mem_append.mp hkeys
      rw [List.map_append, ← List.append_assoc] at hnodup
      have hfirst := (List.nodup_append.mp hnodup).1
      refine ⟨_, ⟨hbatch, hbatchKeys, hfirst, rfl⟩, ?_⟩
      rw [ih (by simpa [List.map_append, List.map_map, Function.comp_def] using hfirst)]
      refine ⟨hrest, hrestKeys, ?_, ?_⟩
      · simpa [List.map_append, List.map_map, Function.comp_def] using hnodup
      · rw [numbered, List.append_assoc]

/-- A round returns exactly on accepted batches. -/
theorem acceptRound_eq_ok_iff {sequence : Nat} {batches : List VerifiedBatchResult}
    {out : List NumberedResult} :
    acceptRound messages expected anchor sequence batches = .ok out ↔
      Accepted expected anchor batches ∧ out = numbered sequence batches := by
  have hnil : (([] : List NumberedResult).map fun r => r.raw.key).Nodup := List.nodup_nil
  rw [acceptRound, except_bind_eq_ok_iff]
  simp only [acceptBatches_eq_ok_iff hnil, List.map_nil, List.nil_append]
  have hmissing : ∀ results : List NumberedResult,
      sortedSet (expected.filter fun key => key ∉ results.map fun r => r.raw.key) = [] ↔
        ∀ key ∈ expected, key ∈ results.map fun r => r.raw.key := by
    intro results
    rw [List.eq_nil_iff_forall_not_mem]
    simp [mem_sortedSet]
  constructor
  · rintro ⟨results, ⟨hbatches, hkeys, hnodup, rfl⟩, hreturn⟩
    by_cases h : sortedSet (expected.filter fun key =>
        key ∉ (numbered sequence batches).map fun r => r.raw.key) = []
    · rw [if_pos h] at hreturn
      obtain rfl := except_pure_eq_ok_iff.mp hreturn
      rw [hmissing, keys_numbered] at h
      refine ⟨⟨hbatches, hnodup, fun key => ⟨?_, h key⟩⟩, rfl⟩
      intro hkey
      obtain ⟨raw, hraw, rfl⟩ := List.mem_map.mp hkey
      exact hkeys raw hraw
    · rw [if_neg h] at hreturn
      cases hreturn
  · rintro ⟨haccepted, rfl⟩
    refine ⟨_, ⟨haccepted.verified, fun raw hraw => ?_, haccepted.nodup, rfl⟩, ?_⟩
    · exact (haccepted.keys raw.key).mp (List.mem_map_of_mem hraw)
    · rw [if_pos]
      · rfl
      · rw [hmissing, keys_numbered]
        exact fun key hkey => (haccepted.keys key).mpr hkey

end Accept

/-- Accepted batches leave verified evidence. -/
theorem verified_batchEvidence {batches : List VerifiedBatchResult}
    (h : ∀ batch ∈ batches, batch.evidence.verified = true) (sequence : Nat) :
    ∀ batch ∈ batchEvidence sequence batches, batch.evidence.verified = true := by
  intro batch hbatch
  obtain ⟨⟨verified, _⟩, hmem, rfl⟩ := List.mem_map.mp hbatch
  exact h verified (List.fst_mem_of_mem_zipIdx hmem)

theorem Accepted.evidence {expected : List String} {anchor : BlockRef}
    {batches : List VerifiedBatchResult} (h : Accepted expected anchor batches) (sequence : Nat) :
    ∀ batch ∈ batchEvidence sequence batches, batch.evidence.verified = true :=
  verified_batchEvidence (fun batch hbatch => (h.verified batch hbatch).verified) sequence

/-! ## Looking a result up -/

theorem of_resultOf {results : List NumberedResult} {result : NumberedResult} {key : String}
    (h : resultOf results key = some result) : result ∈ results ∧ result.raw.key = key := by
  unfold resultOf at h
  exact ⟨List.mem_of_find?_eq_some h, by simpa using List.find?_some h⟩

/-! ## Partition -/

theorem mem_partition_snd {α ε : Type} {l : List (Except ε α)} {e : ε} :
    e ∈ (partition l).2 ↔ .error e ∈ l := by
  induction l with
  | nil => simp [partition]
  | cons x rest ih => cases x <;> simp [partition, ih]

theorem partition_fst {α ε : Type} (l : List (Except ε α)) :
    (partition l).1 = l.filterMap Except.toOption := by
  induction l with
  | nil => rfl
  | cons x rest ih =>
    cases x with
    | error e => exact ih
    | ok a => exact congrArg (a :: ·) ih

theorem partition_map_ok {α ε : Type} (l : List α) :
    partition (l.map (.ok : α → Except ε α)) = (l, []) := by
  induction l with
  | nil => rfl
  | cons a l ih => rw [List.map_cons, partition, ih]

/-- Without errors every result succeeded. -/
theorem eq_map_ok_of_partition {α ε : Type} {l : List (Except ε α)} (h : (partition l).2 = []) :
    l = (partition l).1.map .ok := by
  induction l with
  | nil => rfl
  | cons x rest ih =>
    cases x with
    | error e => exact absurd h (List.cons_ne_nil _ _)
    | ok a => exact congrArg (.ok a :: ·) (ih h)

/-! ## An executor that answers -/

/-- The successful result of a call, by the answer to its key. -/
def answered (answer : String → List UInt8) (call : ContractCall) : RawCallResult where
  key := call.key
  success := true
  returndata := answer call.key

/-- An executor that answers every call in one verified batch. -/
def answerCalls (answer : String → List UInt8) (op : ExecuteOp) : ExecuteAns op := do
  let results := op.calls.map (answered answer)
  let digest ← digestRawResults results
  return [⟨results, ⟨.multicall3, "eip1898", op.anchor.blockHash, ["p"], digest, true⟩⟩]

theorem rawResults_answerCalls {answer : String → List UInt8} {op : ExecuteOp}
    {batches : List VerifiedBatchResult} (h : answerCalls answer op = .ok batches) :
    rawResults batches = op.calls.map (answered answer) := by
  simp only [answerCalls, except_bind_eq_ok_iff, except_pure_eq_ok_iff] at h
  obtain ⟨digest, -, rfl⟩ := h
  exact List.append_nil _

theorem answeredBy_execute {env : (op : ExecuteOp) → ExecuteAns op} {calls : List ContractCall}
    {anchor : BlockRef} {batches : List VerifiedBatchResult} (h : env ⟨calls, anchor⟩ = .ok batches) :
    answeredBy env (execute calls anchor) = .ok batches := by
  rw [execute, perform_bind, answeredBy, h]
  rfl

/-- The results of calls with short keys and answers have a digest. -/
theorem exists_digest {answer : String → List UInt8} {calls : List ContractCall}
    (h : ∀ call ∈ calls, (utf8 call.key).length < 256 ^ 4 ∧ (answer call.key).length < 256 ^ 4) :
    ∃ digest, digestRawResults (calls.map (answered answer)) = .ok digest := by
  refine exists_digestRawResults_iff.mpr fun raw hraw => ?_
  obtain ⟨call, hcall, rfl⟩ := List.mem_map.mp hraw
  obtain ⟨hkey, hanswer⟩ := h call hcall
  have hcode : -2 ^ 63 ≤ (-2 ^ 31 : Int) ∧ (-2 ^ 31 : Int) < 2 ^ 63 := by decide
  exact ⟨hkey, hanswer, hcode, show (utf8 "").length < 256 ^ 4 by decide⟩

/-- Such an executor answers a round with the results of its calls, in order. -/
theorem acceptRound_answerCalls {answer : String → List UInt8} {calls : List ContractCall}
    (anchor : BlockRef) (hkeys : (calls.map ContractCall.key).Nodup) (hsize : ∀ call ∈ calls,
      (utf8 call.key).length < 256 ^ 4 ∧ (answer call.key).length < 256 ^ 4) :
    ∃ batches, answerCalls answer ⟨calls, anchor⟩ = .ok batches ∧
      (∀ batch ∈ batches, batch.evidence.verified = true) ∧ batches.length = 1 ∧
        ∀ messages sequence,
          acceptRound messages (calls.map ContractCall.key) anchor sequence batches =
            .ok (calls.map fun call => ⟨answered answer call, sequence⟩) := by
  obtain ⟨digest, hdigest⟩ := exists_digest hsize
  refine ⟨[⟨calls.map (answered answer),
    ⟨.multicall3, "eip1898", anchor.blockHash, ["p"], digest, true⟩⟩], ?_, ?_, rfl, ?_⟩
  · rw [answerCalls]
    dsimp only
    rw [hdigest]
    rfl
  · intro batch hbatch
    rw [List.mem_singleton.mp hbatch]
  · intro messages sequence
    have hraw : ∀ batch : VerifiedBatchResult, rawResults [batch] = batch.results := fun batch =>
      List.append_nil batch.results
    have hmap : (calls.map (answered answer)).map RawCallResult.key = calls.map ContractCall.key := by
      rw [List.map_map]
      rfl
    rw [acceptRound_eq_ok_iff]
    refine ⟨⟨?_, ?_, ?_⟩, ?_⟩
    · intro batch hbatch
      rw [List.mem_singleton.mp hbatch]
      exact ⟨rfl, rfl, hdigest⟩
    · rw [hraw, hmap]
      exact hkeys
    · intro key
      rw [hraw, hmap]
    · rw [numbered, numbered, List.append_nil, List.map_map]
      rfl

end RpcStateIndexer
