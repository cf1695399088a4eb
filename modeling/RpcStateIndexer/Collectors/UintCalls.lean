import RpcStateIndexer.Collectors.CommonCorrect

/-!
# What uint calls decode to

Of an accepted answer every call has a value exactly when its result is one word of a successful call.
The batches that the results came in number the decoded calls and tell nothing else.
-/

namespace RpcStateIndexer

open Reasoning

/-- The value of a result: the big-endian value of one successfully returned word. -/
def returned (raw : RawCallResult) : Option Nat :=
  if raw.success = true ∧ raw.returndata.length = 32 then some (ofBytesBE raw.returndata) else none

/-- The value that the batches return for a key. -/
def returnOf (batches : List VerifiedBatchResult) (key : String) : Option Nat :=
  ((rawResults batches).find? fun raw => raw.key = key).bind returned

theorem value_decodeRaw (spec : UIntCallSpec) (result : NumberedResult) :
    (decodeRaw spec result).observation.value = returned result.raw := by
  unfold decodeRaw returned
  by_cases hsuccess : result.raw.success = true
  · simp only [hsuccess, if_true, true_and]
    apply Option.ext
    intro value
    rw [UIntObservation.decodeUint256_eq_some_iff]
    by_cases hlength : result.raw.returndata.length = 32
    · simp [hlength, eq_comm]
    · simp [hlength]
  · simp [hsuccess, UIntObservation.failed]

/-! ## The calls of an accepted answer -/

theorem duplicateKey_eq_none_iff {seen keys : List String} :
    duplicateKey seen keys = none ↔ (∀ key ∈ keys, key ∉ seen) ∧ keys.Nodup := by
  induction keys generalizing seen with
  | nil => simp [duplicateKey]
  | cons key keys ih =>
    rw [duplicateKey]
    by_cases hseen : key ∈ seen
    · simp [hseen]
    · rw [if_neg hseen, ih, List.nodup_cons, List.forall_mem_cons]
      constructor
      · rintro ⟨hfresh, hnodup⟩
        refine ⟨⟨hseen, fun other hother hmem => hfresh other hother (.tail _ hmem)⟩, ?_, hnodup⟩
        exact fun hmem => hfresh key hmem (.head _)
      · rintro ⟨⟨-, hfresh⟩, hnotin, hnodup⟩
        refine ⟨fun other hother hmem => ?_, hnodup⟩
        rcases List.mem_cons.mp hmem with rfl | hmem
        · exact hnotin hother
        · exact hfresh other hother hmem

section Decoded

variable {specs : List UIntCallSpec} {anchor : BlockRef} {batches : List VerifiedBatchResult}
  {decoded : DecodedExecution}

/-- An answer decodes exactly when it is accepted. -/
theorem decodeBatches_eq_ok_iff :
    decodeBatches specs anchor batches = .ok decoded ↔
      Accepted (specs.map (·.call.key)) anchor batches ∧
        decoded = ⟨(numbered 0 batches).filterMap (decodeResult specs), batchEvidence 0 batches⟩ := by
  unfold decodeBatches
  simp only [except_bind_eq_ok_iff, acceptRound_eq_ok_iff, except_pure_eq_ok_iff]
  constructor
  · rintro ⟨results, ⟨haccepted, rfl⟩, rfl⟩
    exact ⟨haccepted, rfl⟩
  · rintro ⟨haccepted, rfl⟩
    exact ⟨_, ⟨haccepted, rfl⟩, rfl⟩

variable (hnodup : (specs.map (·.call.key)).Nodup)
include hnodup

theorem decodeResult_eq_some_iff {result : NumberedResult} {call : DecodedUIntCall} :
    decodeResult specs result = some call ↔
      ∃ spec ∈ specs, spec.call.key = result.raw.key ∧ call = decodeRaw spec result := by
  unfold decodeResult
  simp only [Option.map_eq_some_iff, find?_eq_some_iff_of_nodup hnodup]
  constructor
  · rintro ⟨spec, ⟨hspec, hkey⟩, rfl⟩
    exact ⟨spec, hspec, hkey, rfl⟩
  · rintro ⟨spec, hspec, hkey, rfl⟩
    exact ⟨spec, ⟨hspec, hkey⟩, rfl⟩

/-- Every result of an accepted answer decodes to a call with its key. -/
theorem keys_decoded (haccepted : Accepted (specs.map (·.call.key)) anchor batches) :
    ((numbered 0 batches).filterMap (decodeResult specs)).map (fun call => call.spec.call.key) =
      (rawResults batches).map RawCallResult.key := by
  have hexpected : ∀ result ∈ numbered 0 batches, result.raw.key ∈ specs.map (·.call.key) := by
    intro result hresult
    rw [← haccepted.keys, ← keys_numbered 0]
    exact List.mem_map_of_mem hresult
  rw [← keys_numbered 0]
  generalize numbered 0 batches = results at hexpected
  induction results with
  | nil => rfl
  | cons result results ih =>
    obtain ⟨hkey, hrest⟩ := List.forall_mem_cons.mp hexpected
    obtain ⟨spec, hspec, hkey⟩ := List.mem_map.mp hkey
    have hdecode : decodeResult specs result = some (decodeRaw spec result) :=
      (decodeResult_eq_some_iff hnodup).mpr ⟨spec, hspec, hkey, rfl⟩
    rw [List.filterMap_cons, hdecode, List.map_cons, List.map_cons, ih hrest]
    exact congrArg (· :: _) hkey

variable (h : decodeBatches specs anchor batches = .ok decoded)
include h

theorem nodup_decoded : (decoded.calls.map fun call => call.spec.call.key).Nodup := by
  obtain ⟨haccepted, rfl⟩ := decodeBatches_eq_ok_iff.mp h
  show (((numbered 0 batches).filterMap (decodeResult specs)).map _).Nodup
  rw [keys_decoded hnodup haccepted]
  exact haccepted.nodup

/-- The call of a key is the decoded result that carries it. -/
theorem call_eq_ok_iff {spec : UIntCallSpec} (hspec : spec ∈ specs) {call : DecodedUIntCall} :
    decoded.call spec.call.key = .ok call ↔
      ∃ result ∈ numbered 0 batches, result.raw.key = spec.call.key ∧ call = decodeRaw spec result := by
  have hfind : decoded.calls.find? (fun call => decide (call.spec.call.key = spec.call.key)) =
      some call ↔ _ := find?_eq_some_iff_of_nodup (nodup_decoded hnodup h)
  have hcall : decoded.call spec.call.key = .ok call ↔
      call ∈ decoded.calls ∧ call.spec.call.key = spec.call.key := by
    rw [← hfind, DecodedExecution.call]
    cases decoded.calls.find? fun call => call.spec.call.key = spec.call.key with
    | none => simp
    | some other => simp
  rw [hcall]
  obtain ⟨-, rfl⟩ := decodeBatches_eq_ok_iff.mp h
  simp only [List.mem_filterMap, decodeResult_eq_some_iff hnodup]
  constructor
  · rintro ⟨⟨result, hresult, other, hother, hkey, rfl⟩, heq⟩
    have hsame : other = spec := List.inj_on_of_nodup_map hnodup hother hspec heq
    subst hsame
    exact ⟨result, hresult, hkey.symm, rfl⟩
  · rintro ⟨result, hresult, hkey, rfl⟩
    exact ⟨⟨result, hresult, spec, hspec, hkey.symm, rfl⟩, rfl⟩

/-- Every call of the request has been answered, with the value that its key returned. -/
theorem exists_call {spec : UIntCallSpec} (hspec : spec ∈ specs) :
    ∃ call, decoded.call spec.call.key = .ok call ∧ call.spec = spec ∧
      call.observation.value = returnOf batches spec.call.key := by
  obtain ⟨haccepted, -⟩ := decodeBatches_eq_ok_iff.mp h
  have hkey : spec.call.key ∈ (rawResults batches).map RawCallResult.key :=
    (haccepted.keys _).mpr (List.mem_map_of_mem hspec)
  rw [← keys_numbered 0] at hkey
  obtain ⟨result, hresult, hkey⟩ := List.mem_map.mp hkey
  refine ⟨decodeRaw spec result, (call_eq_ok_iff hnodup h hspec).mpr ⟨result, hresult, hkey, rfl⟩,
    rfl, ?_⟩
  have hraw : result.raw ∈ rawResults batches := by
    rw [← raw_numbered 0]
    exact List.mem_map_of_mem hresult
  have hfind : (rawResults batches).find? (fun raw => raw.key = spec.call.key) = some result.raw :=
    (find?_eq_some_iff_of_nodup haccepted.nodup).mpr ⟨hraw, hkey⟩
  rw [value_decodeRaw, returnOf, hfind]
  rfl

/-! ## Values and errors -/

/-- The subjects whose calls returned a value keep it; the others have an error of their call. -/
theorem exists_splitCalls {α : Type} {subjects : List (α × UIntCallSpec)}
    (hsubjects : ∀ x ∈ subjects, x.2 ∈ specs) :
    ∃ values errors, splitCalls decoded subjects = .ok (values, errors) ∧
      values.map (fun x => (x.1, x.2.1)) =
        subjects.filterMap (fun x => (returnOf batches x.2.call.key).map fun value => (x.1, value)) ∧
      errors.map (fun e => (e.subjectAddress, e.callKind)) =
        (subjects.filter fun x => returnOf batches x.2.call.key = none).map fun x =>
          (x.2.subjectAddress, x.2.callKind) := by
  induction subjects with
  | nil => exact ⟨[], [], rfl, rfl, rfl⟩
  | cons x rest ih =>
    obtain ⟨hspec, hrest⟩ := List.forall_mem_cons.mp hsubjects
    obtain ⟨values, errors, hsplit, hvalues, herrors⟩ := ih hrest
    obtain ⟨call, hcall, hsame, hvalue⟩ := exists_call hnodup h hspec
    rw [splitCalls, hcall, except_ok_bind, hsplit, except_ok_bind, hvalue]
    cases hreturn : returnOf batches x.2.call.key with
    | some value =>
      refine ⟨(x.1, value, call.batchSequence) :: values, errors, rfl, ?_, ?_⟩
      · simp [hreturn, hvalues]
      · simp [hreturn, herrors]
    | none =>
      refine ⟨values, call.asError :: errors, rfl, ?_, ?_⟩
      · simp [hreturn, hvalues]
      · simp [hreturn, herrors, DecodedUIntCall.asError, hsame]

end Decoded

/-! ## Forgetting the batches -/

def DecodedUIntCall.unnumbered (call : DecodedUIntCall) : DecodedUIntCall :=
  { call with batchSequence := 0 }

def CollectionError.unnumbered (e : CollectionError) : CollectionError :=
  { e with batchSequence := 0 }

/-- The decoded calls without the batches they came in. -/
def DecodedExecution.unnumbered (decoded : DecodedExecution) : DecodedExecution :=
  ⟨decoded.calls.map DecodedUIntCall.unnumbered, []⟩

/-- A subject with its value, without the batch. -/
def unnumberedValue {α : Type} (x : α × Nat × Nat) : α × Nat × Nat := (x.1, x.2.1, 0)

theorem call_unnumbered (decoded : DecodedExecution) (key : String) :
    decoded.unnumbered.call key = (decoded.call key).map DecodedUIntCall.unnumbered := by
  have hfind : decoded.unnumbered.calls.find? (fun call => decide (call.spec.call.key = key)) =
      (decoded.calls.find? fun call => decide (call.spec.call.key = key)).map
        DecodedUIntCall.unnumbered := by
    show (decoded.calls.map _).find? _ = _
    rw [List.find?_map]
    rfl
  unfold DecodedExecution.call
  rw [hfind]
  cases decoded.calls.find? fun call => decide (call.spec.call.key = key) with
  | none => rfl
  | some call => rfl

theorem completenessCheck_unnumbered (expectedCalls : Nat) (decoded : DecodedExecution) :
    completenessCheck expectedCalls decoded.unnumbered = completenessCheck expectedCalls decoded := by
  have hcount : decoded.unnumbered.calls.countP (fun call => call.observation.ok) =
      decoded.calls.countP fun call => call.observation.ok := by
    show (decoded.calls.map _).countP _ = _
    rw [List.countP_map]
    rfl
  unfold completenessCheck
  rw [hcount]

theorem splitCalls_unnumbered {α : Type} (decoded : DecodedExecution)
    (subjects : List (α × UIntCallSpec)) :
    splitCalls decoded.unnumbered subjects =
      (splitCalls decoded subjects).map fun x =>
        (x.1.map unnumberedValue, x.2.map CollectionError.unnumbered) := by
  induction subjects with
  | nil => rfl
  | cons x rest ih =>
    rw [splitCalls, splitCalls, call_unnumbered, ih]
    cases decoded.call x.2.call.key with
    | error fault => rfl
    | ok call =>
      cases splitCalls decoded rest with
      | error fault => rfl
      | ok split =>
        obtain ⟨values, errors⟩ := split
        have hvalue : call.unnumbered.observation.value = call.observation.value := rfl
        cases hcase : call.observation.value with
        | none =>
          rw [hcase] at hvalue
          simp only [Except.map, except_ok_bind, hvalue, hcase]
          rfl
        | some value =>
          rw [hcase] at hvalue
          simp only [Except.map, except_ok_bind, hvalue, hcase]
          rfl

/-- Two executions that no key and no count tells apart. -/
structure SameCalls (decoded₁ decoded₂ : DecodedExecution) : Prop where
  call : ∀ key, decoded₁.call key = decoded₂.call key
  complete : ∀ expectedCalls, completenessCheck expectedCalls decoded₁ =
    completenessCheck expectedCalls decoded₂

theorem SameCalls.splitCalls {decoded₁ decoded₂ : DecodedExecution}
    (h : SameCalls decoded₁ decoded₂) {α : Type} (subjects : List (α × UIntCallSpec)) :
    splitCalls decoded₁ subjects = splitCalls decoded₂ subjects := by
  induction subjects with
  | nil => rfl
  | cons x rest ih => rw [RpcStateIndexer.splitCalls, RpcStateIndexer.splitCalls, h.call, ih]

section TwoRuns

variable {specs : List UIntCallSpec} {anchor : BlockRef} {batches₁ batches₂ : List VerifiedBatchResult}
  {decoded₁ decoded₂ : DecodedExecution}

/-- Without the batches, the calls of an answer are those of its results. -/
theorem unnumbered_decoded (h : decodeBatches specs anchor batches₁ = .ok decoded₁) :
    decoded₁.unnumbered.calls =
      (rawResults batches₁).filterMap fun raw => decodeResult specs ⟨raw, 0⟩ := by
  obtain ⟨-, rfl⟩ := decodeBatches_eq_ok_iff.mp h
  rw [← raw_numbered 0, List.filterMap_map]
  show ((numbered 0 batches₁).filterMap (decodeResult specs)).map _ = _
  rw [List.map_filterMap]
  congr 1
  funext result
  unfold decodeResult
  rw [Option.map_map]
  rfl

/-- Answers with the same results decode to the same calls, whatever the batches are. -/
theorem sameCalls_of_results (hnodup : (specs.map (·.call.key)).Nodup)
    (h₁ : decodeBatches specs anchor batches₁ = .ok decoded₁)
    (h₂ : decodeBatches specs anchor batches₂ = .ok decoded₂)
    (hsame : ∀ raw, raw ∈ rawResults batches₁ ↔ raw ∈ rawResults batches₂) :
    SameCalls decoded₁.unnumbered decoded₂.unnumbered := by
  obtain ⟨haccepted₁, -⟩ := decodeBatches_eq_ok_iff.mp h₁
  obtain ⟨haccepted₂, -⟩ := decodeBatches_eq_ok_iff.mp h₂
  have hraw : (rawResults batches₁).Perm (rawResults batches₂) :=
    (List.perm_ext_iff_of_nodup haccepted₁.nodup.of_map haccepted₂.nodup.of_map).mpr hsame
  have hperm : decoded₁.unnumbered.calls.Perm decoded₂.unnumbered.calls := by
    rw [unnumbered_decoded h₁, unnumbered_decoded h₂]
    exact hraw.filterMap _
  have hkeys : (decoded₁.unnumbered.calls.map fun call => call.spec.call.key).Nodup := by
    show ((decoded₁.calls.map _).map _).Nodup
    rw [List.map_map]
    exact nodup_decoded hnodup h₁
  constructor
  · intro key
    have hfind : decoded₁.unnumbered.calls.find? (fun call => decide (call.spec.call.key = key)) =
        decoded₂.unnumbered.calls.find? fun call => decide (call.spec.call.key = key) := by
      apply Option.ext
      intro call
      have hkeys₂ := ((hperm.map fun call : DecodedUIntCall => call.spec.call.key).nodup_iff).mp hkeys
      rw [find?_eq_some_iff_of_nodup hkeys, find?_eq_some_iff_of_nodup hkeys₂, hperm.mem_iff]
    unfold DecodedExecution.call
    rw [hfind]
  · intro expectedCalls
    unfold completenessCheck
    rw [hperm.countP_eq]

end TwoRuns

end RpcStateIndexer
