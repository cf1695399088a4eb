import RpcStateIndexer.Census.Persist
import RpcStateIndexer.Census.Views

/-!
# The publication gate

What holds of an attempt's rows at every moment of the worker's call, whoever else writes to the
store: there is no publication, or there is one, its verified state is stored, and everything the gate
checks was found in order.
-/

namespace RpcStateIndexer

open Reasoning Program CensusRunner

/-! ## Checks that pass -/

theorem failedNames_eq_nil_iff {checks : List GateCheck} :
    failedNames checks = [] ↔ ∀ check ∈ checks, check.passed = true := by
  simp [failedNames, List.filter_eq_nil_iff]

theorem passedNames_of_all {checks : List GateCheck} (h : ∀ check ∈ checks, check.passed = true) :
    passedNames checks = checks.map GateCheck.passName := by
  rw [passedNames, List.filter_eq_self.mpr h]

/-- The names of every check of a result, in the order they are made. -/
def checkNames (result : CollectionResult) : List String :=
  "historical_code_verified" :: "zero_terminal_errors" :: "all_batches_verified" ::
    result.outcome.integrityChecks.map IntegrityResult.check ++ ["observation_readback_digest"] ++
    match result with
    | .token _ => ["universe_readback_digest"]
    | _ => []

theorem passName_gateChecks (outcome : CollectionOutcome) (count : Nat) (same : Bool) :
    (gateChecks outcome count same).map GateCheck.passName =
      "zero_terminal_errors" :: "all_batches_verified" ::
        outcome.integrityChecks.map IntegrityResult.check ++ ["observation_readback_digest"] := by
  simp [gateChecks, Function.comp_def]

/-! ## Reads that were made -/

/-- Rows of the digest were read for the observations of a result; a consistent read answered what the
attempt has stored. -/
def ObservationEvidence (scope : AttemptScope) (X : CensusStore) (result : CollectionResult)
    (digest : String) (log : List (Sigma CensusAns)) : Prop :=
  match result with
  | .token _ => ∃ c balances scalars,
      ⟨.select .balanceRows scope c, .ok balances⟩ ∈ log ∧
      ⟨.select .scalarRows scope c, .ok scalars⟩ ∈ log ∧
      tokenDigestOf balances scalars = .ok digest ∧
      (c = true → balances = X.balanceRows scope ∧ scalars = X.scalarRows scope)
  | .pool _ => ∃ c rows,
      ⟨.select .poolBalanceRows scope c, .ok rows⟩ ∈ log ∧ poolDigestOf rows = .ok digest ∧
      (c = true → rows = X.poolBalanceRows scope)
  | .poolCl _ => ∃ c rows ticks,
      ⟨.select .clStateRows scope c, .ok rows⟩ ∈ log ∧
      ⟨.select .tickRows scope c, .ok ticks⟩ ∈ log ∧ clDigestOf scope rows ticks = .ok digest ∧
      (c = true → rows = X.clStateRows scope ∧ ticks = X.tickRows scope)

/-- The same for the frozen universe. -/
def UniverseEvidence (scope : AttemptScope) (X : CensusStore) (digest : String)
    (log : List (Sigma CensusAns)) : Prop :=
  ∃ c rows, ⟨.select .universeRows scope c, .ok rows⟩ ∈ log ∧ universeDigestOf rows = .ok digest ∧
    (c = true → rows = X.universeRows scope)

theorem ObservationEvidence.mono {scope : AttemptScope} {X : CensusStore}
    {result : CollectionResult} {digest : String} {log log' : List (Sigma CensusAns)}
    (h : ObservationEvidence scope X result digest log) (hlog : ∀ e ∈ log, e ∈ log') :
    ObservationEvidence scope X result digest log' := by
  cases result with
  | token r =>
    obtain ⟨c, balances, scalars, h₁, h₂, hrest⟩ := h
    exact ⟨c, balances, scalars, hlog _ h₁, hlog _ h₂, hrest⟩
  | pool r =>
    obtain ⟨c, rows, h₁, hrest⟩ := h
    exact ⟨c, rows, hlog _ h₁, hrest⟩
  | poolCl r =>
    obtain ⟨c, rows, ticks, h₁, h₂, hrest⟩ := h
    exact ⟨c, rows, ticks, hlog _ h₁, hlog _ h₂, hrest⟩

theorem UniverseEvidence.mono {scope : AttemptScope} {X : CensusStore} {digest : String}
    {log log' : List (Sigma CensusAns)} (h : UniverseEvidence scope X digest log)
    (hlog : ∀ e ∈ log, e ∈ log') : UniverseEvidence scope X digest log' := by
  obtain ⟨c, rows, h₁, hrest⟩ := h
  exact ⟨c, rows, hlog _ h₁, hrest⟩

/-! ## The gate -/

/-- What an attempt persists, by the kind of its result. -/
def tablesOf (scope : AttemptScope) (frozen : FrozenUniverse) :
    CollectionResult → Except CensusException CensusStore
  | .token r => tokenTables scope frozen r
  | .pool r => poolTables scope r
  | .poolCl r => poolClTables scope r

/-- A publication that passed the gate: the attempt's rows are what it persisted and the publication,
the verified state it matches is among them, and every check was made and passed. -/
structure Gated (base : AttemptBase) (frozen : FrozenUniverse) (result : CollectionResult)
    (tables : CensusStore) (w : AttemptWorld) (p : PublicationRow) : Prop where
  persisted : tablesOf base.scope frozen result = .ok tables
  rows : (w.store.ofAttempt base.attemptId).observed = tables.write (.publication p)
  verifiedState : ∃ t ∈ (w.store.ofAttempt base.attemptId).attempts,
    t.toAttemptBase = base ∧ AttemptMatches p t
  outcome : result.outcome.verified = true
  checks : p.checksPassed = checkNames result
  digest : result.resultDigest = .ok p.resultDigest
  readback : ObservationEvidence base.scope tables result p.resultDigest w.log
  frozenReadback : ∀ r, result = .token r →
    UniverseEvidence base.scope tables frozen.universeHash w.log

/-- At every moment: only the attempt's own rows were touched, and it has no publication or one that
passed the gate. -/
def GateInvariant (base : AttemptBase) (frozen : FrozenUniverse) (result : CollectionResult)
    (w : AttemptWorld) : Prop :=
  (∀ e ∈ w.log, e.1.Owned base.attemptId) ∧
    ((w.store.ofAttempt base.attemptId).publications = [] ∨
      ∃ tables p, Gated base frozen result tables w p)

theorem At.gateInvariant {base : AttemptBase} {frozen : FrozenUniverse} {result : CollectionResult}
    {X : CensusStore} {states : List AttemptRow} {log : List (Sigma CensusAns)} {w : AttemptWorld}
    (h : At base.attemptId X states log w) (hX : X.publications = []) :
    GateInvariant base frozen result w := by
  refine ⟨h.owned, .inl ?_⟩
  rw [← hX, ← h.rows]
  rfl

/-! ## Persisting -/

section Worker

variable {id : Uuid} {states : List AttemptRow} {log : List (Sigma CensusAns)} {w : AttemptWorld}
  {C : AttemptWorld → Prop}

theorem returns_persistUniverse {scope : AttemptScope} (hid : scope.attemptId = id)
    (frozen : FrozenUniverse) (h : At id {} states log w)
    (hC : ∀ X w', X.publications = [] → At id X states log w' → C w') :
    Returns (censusEnv id) C (fun _ w' => ∃ members, universeMemberRows scope frozen = .ok members ∧
      At id (({} : CensusStore).write (.universeMembers members)) states log w')
      (persistUniverse scope frozen) w := by
  subst hid
  refine Returns.ofExcept_bind (hC _ _ rfl h) fun members hmembers => ?_
  exact (returns_insertUnlessEmpty .universeMembers (universeMemberRows_scope hmembers)
    (fun X w' hX => hC X w' hX) h).mono fun _ w' hw => ⟨members, hmembers, hw⟩

theorem returns_persistTokenResult {scope : AttemptScope} (hid : scope.attemptId = id)
    {frozen : FrozenUniverse} {members : List UniverseMemberRow} (r : TokenCollectionResult)
    (hmembers : universeMemberRows scope frozen = .ok members)
    (h₁ : At id (({} : CensusStore).write (.universeMembers members)) states log w)
    (hC : ∀ X w', X.publications = [] → At id X states log w' → C w') :
    Returns (censusEnv id) C (fun _ w' => ∃ tables, tokenTables scope frozen r = .ok tables ∧
      At id tables states log w') (persistTokenResult scope r) w := by
  subst hid
  refine Returns.ofExcept_bind (hC _ _ rfl h₁) fun balances hbalances => ?_
  refine Returns.bind (returns_insertChunked .tokenBalances
    (fun row hrow => congrArg AttemptScope.attemptId (mapM_storedRow_scope hbalances row hrow))
    (fun X w' hX => hC X w' hX) h₁) ?_
  intro _ w₂ h₂
  refine Returns.ofExcept_bind (hC _ _ rfl h₂) fun scalars hscalars => ?_
  have howned : ∀ group ∈ scalarGroups r scalars, ∀ row ∈ group,
      row.scope.attemptId = scope.attemptId := by
    intro group hgroup row hrow
    obtain ⟨sequence, -, rfl⟩ := List.mem_map.mp hgroup
    rw [mapM_storedRow_scope hscalars row (List.mem_of_mem_filter hrow)]
  refine Returns.bind (returns_insertGroups .tokenScalars howned (fun X w' hX => hC X w' hX) h₂) ?_
  intro _ w₃ h₃
  refine (returns_insertUnlessEmpty .terminalErrors (errorRows_scope scope .token r.errors)
    (fun X w' hX => hC X w' hX) h₃).mono ?_
  intro _ w' hw
  refine ⟨_, ?_, hw⟩
  simp only [tokenTables, hmembers, hbalances, hscalars, except_ok_bind]
  rfl

theorem returns_persistPool {scope : AttemptScope} (hid : scope.attemptId = id)
    (r : PoolCollectionResult) (h : At id {} states log w)
    (hC : ∀ X w', X.publications = [] → At id X states log w' → C w') :
    Returns (censusEnv id) C (fun _ w' => ∃ tables, poolTables scope r = .ok tables ∧
      At id tables states log w') (persistPoolResult scope r) w := by
  subst hid
  refine Returns.ofExcept_bind (hC _ _ rfl h) fun balances hbalances => ?_
  refine Returns.bind (returns_insertChunked .poolBalances
    (fun row hrow => congrArg AttemptScope.attemptId (mapM_storedRow_scope hbalances row hrow))
    (fun X w' hX => hC X w' hX) h) ?_
  intro _ w₁ h₁
  refine (returns_insertUnlessEmpty .terminalErrors (errorRows_scope scope .pool r.errors)
    (fun X w' hX => hC X w' hX) h₁).mono ?_
  intro _ w' hw
  refine ⟨_, ?_, hw⟩
  simp only [poolTables, hbalances, except_ok_bind]
  rfl

theorem returns_persistPoolCl {scope : AttemptScope} (hid : scope.attemptId = id)
    (r : PoolClCollectionResult) (h : At id {} states log w)
    (hC : ∀ X w', X.publications = [] → At id X states log w' → C w') :
    Returns (censusEnv id) C (fun _ w' => ∃ tables, poolClTables scope r = .ok tables ∧
      At id tables states log w') (persistPoolClResult scope r) w := by
  subst hid
  refine Returns.ofExcept_bind (hC _ _ rfl h) fun state hstate => ?_
  have howned : ∀ row ∈ [state], row.scope.attemptId = scope.attemptId := by
    intro row hrow
    rw [List.mem_singleton.mp hrow, (storedRow_scope hstate).1]
  refine Returns.bind (returns_insert h (ObservationTable.poolClState.owned howned)
    (ObservationTable.poolClState.not_state _) ?_) ?_
  · rintro w' (hw | hw)
    · exact hC _ _ rfl hw
    · exact hC _ _ rfl hw
  intro _ w₁ h₁
  refine Returns.ofExcept_bind (hC _ _ rfl h₁) fun ticks hticks => ?_
  refine Returns.bind (returns_insertChunked .poolTicks
    (fun row hrow => congrArg AttemptScope.attemptId (mapM_storedRow_scope hticks row hrow))
    (fun X w' hX => hC X w' hX) h₁) ?_
  intro _ w₂ h₂
  refine (returns_insertUnlessEmpty .terminalErrors (errorRows_scope scope .pool r.errors)
    (fun X w' hX => hC X w' hX) h₂).mono ?_
  intro _ w' hw
  refine ⟨_, ?_, hw⟩
  simp only [poolClTables, hstate, hticks, except_ok_bind]
  rfl

/-! ## Reading back -/

/-- A read-back leaves the evidence of the read whose digest it returns. -/
theorem returns_verifiedReadback {X : CensusStore} {E : String → List (Sigma CensusAns) → Prop}
    {read : Bool → CensusProgram String} {expected : String}
    (hread : ∀ c log w, At id X states log w → Returns (censusEnv id) C (fun digest w' =>
      ∃ es, E digest es ∧ At id X states (es ++ log) w') (read c) w)
    (h : At id X states log w) :
    Returns (censusEnv id) C (fun digest w' => ∃ es, E digest es ∧ At id X states (es ++ log) w')
      (verifiedReadback read expected) w := by
  refine Returns.bind (hread false log w h) ?_
  rintro digest w₁ ⟨es, hes, h₁⟩
  by_cases heq : digest = expected
  · rw [if_pos heq]
    exact Returns.ret ⟨es, hes, h₁⟩
  · rw [if_neg heq]
    refine (hread true _ w₁ h₁).mono ?_
    rintro digest' w' ⟨es', hes', hw⟩
    refine ⟨es', hes', hw.forget (fun _ h => h) fun e he => ?_⟩
    rcases List.mem_append.mp he with he | he
    · exact List.mem_append_left _ he
    · exact List.mem_append_right _ (List.mem_append_right _ he)

section Readback

variable {X : CensusStore} (hC : ∀ log w', At id X states log w' → C w')
include hC

theorem returns_readbackUniverse {scope : AttemptScope} (hid : scope.attemptId = id) (c : Bool)
    (log : List (Sigma CensusAns)) (w : AttemptWorld) (h : At id X states log w) :
    Returns (censusEnv id) C (fun digest w' => ∃ es, UniverseEvidence scope X digest es ∧
      At id X states (es ++ log) w') (readbackUniverseDigest scope c) w := by
  refine Returns.bind (returns_query h hid fun w' => hC log w') ?_
  rintro rows w₁ ⟨h₁, hrows⟩
  refine Returns.ofExcept (hC _ _ h₁) ?_
  intro digest hdigest
  exact ⟨[_], ⟨c, rows, List.mem_singleton.mpr rfl, mapError_eq_ok_iff.mp hdigest, hrows⟩, h₁⟩

theorem returns_readbackToken {scope : AttemptScope} (hid : scope.attemptId = id)
    (r : TokenCollectionResult) (c : Bool) (log : List (Sigma CensusAns)) (w : AttemptWorld)
    (h : At id X states log w) :
    Returns (censusEnv id) C (fun digest w' => ∃ es, ObservationEvidence scope X (.token r) digest es ∧
      At id X states (es ++ log) w') (readbackTokenDigest scope c) w := by
  refine Returns.bind (returns_query h hid fun w' => hC log w') ?_
  rintro balances w₁ ⟨h₁, hbalances⟩
  refine Returns.bind (returns_query h₁ hid fun w' => hC _ w') ?_
  rintro scalars w₂ ⟨h₂, hscalars⟩
  refine Returns.ofExcept (hC _ _ h₂) ?_
  intro digest hdigest
  refine ⟨[_, _], ⟨c, balances, scalars, ?_, ?_, mapError_eq_ok_iff.mp hdigest, ?_⟩, h₂⟩
  · exact List.mem_cons_of_mem _ (List.mem_singleton.mpr rfl)
  · exact List.mem_cons_self
  · exact fun hc => ⟨hbalances hc, hscalars hc⟩

theorem returns_readbackPool {scope : AttemptScope} (hid : scope.attemptId = id)
    (r : PoolCollectionResult) (c : Bool) (log : List (Sigma CensusAns)) (w : AttemptWorld)
    (h : At id X states log w) :
    Returns (censusEnv id) C (fun digest w' => ∃ es, ObservationEvidence scope X (.pool r) digest es ∧
      At id X states (es ++ log) w') (readbackPoolDigest scope c) w := by
  refine Returns.bind (returns_query h hid fun w' => hC log w') ?_
  rintro rows w₁ ⟨h₁, hrows⟩
  refine Returns.ofExcept (hC _ _ h₁) ?_
  intro digest hdigest
  exact ⟨[_], ⟨c, rows, List.mem_singleton.mpr rfl, mapError_eq_ok_iff.mp hdigest, hrows⟩, h₁⟩

theorem returns_readbackCl {scope : AttemptScope} (hid : scope.attemptId = id)
    (r : PoolClCollectionResult) (c : Bool) (log : List (Sigma CensusAns)) (w : AttemptWorld)
    (h : At id X states log w) :
    Returns (censusEnv id) C (fun digest w' => ∃ es, ObservationEvidence scope X (.poolCl r) digest es ∧
      At id X states (es ++ log) w') (readbackClDigest scope c) w := by
  refine Returns.bind (returns_query h hid fun w' => hC log w') ?_
  rintro rows w₁ ⟨h₁, hrows⟩
  -- Without a state row the ticks are not read.
  cases rows with
  | nil => exact Returns.raise (hC _ _ h₁)
  | cons state rest =>
    refine Returns.bind (returns_query h₁ hid fun w' => hC _ w') ?_
    rintro ticks w₂ ⟨h₂, hticks⟩
    refine Returns.ofExcept (hC _ _ h₂) ?_
    intro digest hdigest
    refine ⟨[_, _], ⟨c, state :: rest, ticks, ?_, ?_, mapError_eq_ok_iff.mp hdigest, ?_⟩, h₂⟩
    · exact List.mem_cons_of_mem _ (List.mem_singleton.mpr rfl)
    · exact List.mem_cons_self
    · exact fun hc => ⟨hrows hc, hticks hc⟩

theorem returns_terminalErrorCount {scope : AttemptScope} (hid : scope.attemptId = id)
    (expected : Nat) (h : At id X states log w) :
    Returns (censusEnv id) C (fun _ w' => At id X states log w')
      (terminalErrorCount scope expected) w := by
  refine Returns.bind (returns_query h hid fun w' => hC log w') ?_
  rintro count w₁ ⟨h₁, -⟩
  have h₁ : At id X states log w₁ := h₁.forget (fun _ h => h) fun _ => List.mem_cons_of_mem _
  by_cases heq : count = expected
  · rw [if_pos heq]
    exact Returns.ret h₁
  · rw [if_neg heq]
    refine (returns_query h₁ hid fun w' => hC log w').mono ?_
    rintro count' w' ⟨hw, -⟩
    exact hw.forget (fun _ h => h) fun _ => List.mem_cons_of_mem _

end Readback

/-! ## The checks -/

/-- The end of `publicationChecks`: the checks of the names `names` were made. -/
theorem returns_checksPassed (outcome : CollectionOutcome)
    {checks : List GateCheck} {P : AttemptWorld → Prop} (hC : P w → C w)
    (hP : P w) :
    Returns (censusEnv id) C (fun names w' => names = "historical_code_verified" ::
        checks.map GateCheck.passName ∧ (∀ check ∈ checks, check.passed = true) ∧
          outcome.verified = true ∧ P w')
      (do
        if failedNames checks ≠ [] then throw (.blocked (failedNames checks))
        if !outcome.verified then throw (.blocked ["collector_not_verified"])
        return "historical_code_verified" :: passedNames checks : CensusProgram (List String)) w := by
  by_cases hfailed : failedNames checks = []
  · cases hverified : outcome.verified with
    | false =>
      simp only [hfailed, ne_eq, not_true_eq_false, if_false, Bool.not_false, if_true]
      exact Returns.raise (hC hP)
    | true =>
      simp only [hfailed, ne_eq, not_true_eq_false, if_false, Bool.not_true, Bool.false_eq_true]
      have hall := failedNames_eq_nil_iff.mp hfailed
      refine Returns.ret ⟨?_, hall, trivial, hP⟩
      rw [passedNames_of_all hall]
  · simp only [ne_eq, hfailed, not_false_eq_true, if_true]
    exact Returns.raise (hC hP)

/-- What `publicationChecks` returns are the names of all checks of the result; each was passed. -/
theorem returns_publicationChecks {X : CensusStore} {scope : AttemptScope}
    (frozen : FrozenUniverse) (result : CollectionResult) {resultDigest readback : String}
    (hC : ∀ log w', At id X states log w' → C w') (hid : scope.attemptId = id)
    (h : At id X states log w) :
    Returns (censusEnv id) C (fun names w' => names = checkNames result ∧
        result.outcome.verified = true ∧ readback = resultDigest ∧
        ∃ es, (∀ r, result = .token r → UniverseEvidence scope X frozen.universeHash es) ∧
          At id X states (es ++ log) w')
      (publicationChecks scope frozen result resultDigest readback) w := by
  refine Returns.bind (returns_terminalErrorCount hC hid _ h) ?_
  intro count w₁ h₁
  have hsame : ∀ {checks : List GateCheck},
      (∀ check ∈ gateChecks result.outcome count (readback = resultDigest), check ∈ checks) →
      (∀ check ∈ checks, check.passed = true) → readback = resultDigest := by
    intro checks hsub hall
    have hpassed := hall ⟨readback = resultDigest, "observation_readback_digest",
      "observation_readback_digest"⟩ (hsub _ (by simp [gateChecks]))
    exact of_decide_eq_true hpassed
  cases result with
  | token r =>
    show Returns _ _ _ (verifiedReadback (readbackUniverseDigest scope) frozen.universeHash >>=
      fun digest => _) _
    refine Returns.bind (returns_verifiedReadback (E := UniverseEvidence scope X)
      (returns_readbackUniverse hC hid) h₁) ?_
    rintro digest w₂ ⟨es, hes, h₂⟩
    refine (returns_checksPassed r.toCollectionOutcome
      (P := fun w' => At id X states (es ++ log) w') (hC _ _) h₂).mono ?_
    rintro names w' ⟨rfl, hall, hverified, hw⟩
    refine ⟨?_, hverified, hsame (fun check hcheck => List.mem_append_left _ hcheck) hall, es,
      ?_, hw⟩
    · rw [List.map_append, passName_gateChecks]
      rfl
    · rintro r' -
      have hpassed := hall (universeCheck (digest = frozen.universeHash)) (by simp)
      have hdigest : digest = frozen.universeHash := of_decide_eq_true hpassed
      rwa [← hdigest]
  | pool r =>
    refine (returns_checksPassed r.toCollectionOutcome
      (P := fun w' => At id X states log w') (hC _ _) h₁).mono ?_
    rintro names w' ⟨rfl, hall, hverified, hw⟩
    refine ⟨?_, hverified, hsame (fun _ hcheck => hcheck) hall, [], nofun, hw⟩
    rw [passName_gateChecks]
    simp [checkNames, CollectionResult.outcome]
  | poolCl r =>
    refine (returns_checksPassed r.toCollectionOutcome
      (P := fun w' => At id X states log w') (hC _ _) h₁).mono ?_
    rintro names w' ⟨rfl, hall, hverified, hw⟩
    refine ⟨?_, hverified, hsame (fun _ hcheck => hcheck) hall, [], nofun, hw⟩
    rw [passName_gateChecks]
    simp [checkNames, CollectionResult.outcome]

end Worker

/-! ## Publishing -/

/-- The two rows agree on every condition of the eligibility join. -/
theorem attemptMatches_publicationRow (runner : CensusRunner) (id : Uuid) (job : JobConfig)
    {target : PublishedTarget} (snapshotDate : Nat) (anchor : BlockRef) (configHash : String)
    {frozen : FrozenUniverse} {result : CollectionResult} (hsize : target.universeSize = frozen.size)
    (hverified : result.outcome.verified = true) (digest : String) (checks : List String)
    (publicationId : Uuid) (time : Nat) :
    AttemptMatches
      (runner.publicationRow (runner.attemptBase id job target.targetKind target.targetAddress
        snapshotDate anchor configHash frozen) id job target snapshotDate frozen result digest checks
        publicationId time)
      (verifiedState (runner.attemptBase id job target.targetKind target.targetAddress snapshotDate
        anchor configHash frozen) result digest) := by
  obtain ⟨herrors, hbatches, -⟩ := CollectionOutcome.verified_iff.mp hverified
  have hcount : verifiedBatches result.outcome.batches = result.outcome.batches.length :=
    List.countP_eq_length.mpr hbatches
  constructor
  case universeSize => exact hsize
  case batchesVerified => exact hcount.symm
  case observationsFailed => simp [verifiedState, herrors]
  all_goals rfl

section Publish

variable {runner : CensusRunner} {id : Uuid} {job : JobConfig} {snapshotDate : Nat}
  {anchor : BlockRef} {configHash : String} {frozen : FrozenUniverse} {log : List (Sigma CensusAns)}
  {states : List AttemptRow} {w : AttemptWorld}

/-- The last two inserts, once everything they depend on was found in order. -/
theorem returns_appendVerified (target : PublishedTarget) {result : CollectionResult}
    {tables : CensusStore} {digest : String} {base : AttemptBase}
    (hbase : base = runner.attemptBase id job target.targetKind target.targetAddress snapshotDate
      anchor configHash frozen)
    (hsize : target.universeSize = frozen.size) (htables : tablesOf base.scope frozen result = .ok tables)
    (hpublications : tables.publications = []) (hverified : result.outcome.verified = true)
    (hdigest : result.resultDigest = .ok digest)
    (hreadback : ObservationEvidence base.scope tables result digest log)
    (hfrozen : ∀ r, result = .token r → UniverseEvidence base.scope tables frozen.universeHash log)
    (h : At id tables states log w) :
    Returns (censusEnv id) (GateInvariant base frozen result)
      (fun _ w' => GateInvariant base frozen result w')
      (runner.appendVerified base id job target snapshotDate frozen result digest
        (checkNames result)) w := by
  have hid : base.attemptId = id := by rw [hbase]; rfl
  have hC : ∀ {states log} w', At id tables states log w' → GateInvariant base frozen result w' := by
    intro states log w' hw
    exact At.gateInvariant (hid ▸ hw) hpublications
  refine Returns.bind (returns_now h hC) ?_
  intro finished w₁ h₁
  refine Returns.bind (returns_insertState h₁ hid hC) ?_
  intro _ w₂ h₂
  refine Returns.bind (returns_uuid4 h₂ hC) ?_
  intro publicationId w₃ h₃
  have hmatch := attemptMatches_publicationRow runner id job snapshotDate anchor configHash hsize
    hverified digest (checkNames result) publicationId finished
  rw [← hbase] at hmatch
  -- Whether the insert is acknowledged or not, the verified state is already stored.
  have hgated : ∀ p w', p.checksPassed = checkNames result → p.resultDigest = digest →
      AttemptMatches p (verifiedState base result digest) →
      At id (tables.write (.publication p)) (verifiedState base result digest :: states) log w' →
      GateInvariant base frozen result w' := by
    rintro p w' hchecks rfl hmatch hw
    refine ⟨fun e he => hid ▸ hw.owned e he, .inr ⟨tables, p, ?_⟩⟩
    exact ⟨htables, hid ▸ hw.rows, ⟨_, hid ▸ hw.states_mem _ List.mem_cons_self, rfl, hmatch⟩,
      hverified, hchecks, hdigest, hreadback.mono hw.logged,
      fun r hr => (hfrozen r hr).mono hw.logged⟩
  refine (returns_insert (x := .publication _) h₃ (show _ = id from rfl) (fun _ => nofun) ?_).mono
    fun _ w' hw => hgated _ w' rfl rfl hmatch hw
  rintro w' (hw | hw)
  · exact hC w' hw
  · exact hgated _ w' rfl rfl hmatch hw

theorem returns_publishToken {token : TokenConfig} {r : TokenCollectionResult}
    {tables : CensusStore} {base : AttemptBase}
    (hbase : base = runner.attemptBase id job .token token.address snapshotDate anchor configHash
      frozen)
    (htables : tablesOf base.scope frozen (.token r) = .ok tables)
    (hpublications : tables.publications = []) (h : At id tables states log w) :
    Returns (censusEnv id) (GateInvariant base frozen (.token r))
      (fun _ w' => GateInvariant base frozen (.token r) w')
      (runner.publishToken base id job token snapshotDate frozen r) w := by
  have hid : base.attemptId = id := by rw [hbase]; rfl
  have hscope : base.scope.attemptId = id := hid
  have hC : ∀ log w', At id tables states log w' → GateInvariant base frozen (.token r) w' := by
    intro log w' hw
    exact At.gateInvariant (hid ▸ hw) hpublications
  refine Returns.ofExcept_bind (hC _ _ h) fun digest hdigest => ?_
  have hdigest := mapError_eq_ok_iff.mp hdigest
  refine Returns.bind (returns_verifiedReadback (E := ObservationEvidence base.scope tables (.token r))
    (returns_readbackToken hC hscope r) h) ?_
  rintro readback w₁ ⟨es, hes, h₁⟩
  refine Returns.bind (returns_publicationChecks frozen (.token r) hC hscope
    h₁) ?_
  rintro checks w₂ ⟨rfl, hverified, rfl, es', hes', h₂⟩
  refine Returns.ofExcept_bind (hC _ _ h₂) fun supply _ => ?_
  refine returns_appendVerified ⟨.token, token.address, frozen.size, supply.1, supply.2⟩
    hbase rfl htables hpublications hverified hdigest (hes.mono ?_) (fun r' hr => (hes' r' hr).mono ?_) h₂
  · intro e he
    exact List.mem_append_right _ (List.mem_append_left _ he)
  · intro e he
    exact List.mem_append_left _ he

/-- The pool publications differ in the tables they read back. -/
theorem returns_publishPoolResult {pool : PoolConfig} {result : CollectionResult}
    {read : Bool → CensusProgram String} {tables : CensusStore} {base : AttemptBase}
    (hbase : base = runner.attemptBase id job .pool pool.address snapshotDate anchor configHash
      frozen)
    (hfrozen : frozen.size = 0) (hresult : ∀ r, result ≠ .token r)
    (htables : tablesOf base.scope frozen result = .ok tables)
    (hpublications : tables.publications = [])
    (hread : (∀ log w', At id tables states log w' → GateInvariant base frozen result w') →
      ∀ c log w, At id tables states log w → Returns (censusEnv id) (GateInvariant base frozen result)
        (fun digest w' => ∃ es, ObservationEvidence base.scope tables result digest es ∧
          At id tables states (es ++ log) w') (read c) w)
    (h : At id tables states log w) :
    Returns (censusEnv id) (GateInvariant base frozen result)
      (fun _ w' => GateInvariant base frozen result w')
      (runner.publishPoolResult base id job pool snapshotDate frozen result read) w := by
  have hid : base.attemptId = id := by rw [hbase]; rfl
  have hscope : base.scope.attemptId = id := hid
  have hC : ∀ log w', At id tables states log w' → GateInvariant base frozen result w' := by
    intro log w' hw
    exact At.gateInvariant (hid ▸ hw) hpublications
  refine Returns.ofExcept_bind (hC _ _ h) fun digest hdigest => ?_
  have hdigest := mapError_eq_ok_iff.mp hdigest
  refine Returns.bind (returns_verifiedReadback (E := ObservationEvidence base.scope tables result)
    (hread hC) h) ?_
  rintro readback w₁ ⟨es, hes, h₁⟩
  refine Returns.bind (returns_publicationChecks frozen result hC hscope
    h₁) ?_
  rintro checks w₂ ⟨rfl, hverified, rfl, es', -, h₂⟩
  refine returns_appendVerified ⟨.pool, pool.address, 0, none, none⟩ hbase hfrozen.symm
    htables hpublications hverified hdigest (hes.mono ?_) (fun r hr => absurd hr (hresult r)) h₂
  intro e he
  exact List.mem_append_right _ (List.mem_append_left _ he)

/-! ## The worker's call -/

theorem tokenTables_publications {scope : AttemptScope} {r : TokenCollectionResult}
    {tables : CensusStore} (h : tokenTables scope frozen r = .ok tables) :
    tables.publications = [] := by
  simp only [tokenTables, except_bind_eq_ok_iff, except_pure_eq_ok_iff] at h
  obtain ⟨members, -, balances, -, scalars, -, rfl⟩ := h
  rfl

theorem poolTables_publications {scope : AttemptScope} {r : PoolCollectionResult}
    {tables : CensusStore} (h : poolTables scope r = .ok tables) : tables.publications = [] := by
  simp only [poolTables, except_bind_eq_ok_iff, except_pure_eq_ok_iff] at h
  obtain ⟨balances, -, rfl⟩ := h
  rfl

theorem poolClTables_publications {scope : AttemptScope} {r : PoolClCollectionResult}
    {tables : CensusStore} (h : poolClTables scope r = .ok tables) : tables.publications = [] := by
  simp only [poolClTables, except_bind_eq_ok_iff, except_pure_eq_ok_iff] at h
  obtain ⟨state, -, ticks, -, rfl⟩ := h
  rfl

/-- The worker keeps the gate at each of its operations, from an attempt without observations. -/
theorem returns_persistAndPublishToken (token : TokenConfig) (r : TokenCollectionResult)
    (h : At id {} states log w) :
    Returns (censusEnv id)
      (GateInvariant (runner.attemptBase id job .token token.address snapshotDate anchor configHash
        frozen) frozen (.token r))
      (fun _ w' => GateInvariant (runner.attemptBase id job .token token.address snapshotDate anchor
        configHash frozen) frozen (.token r) w')
      (runner.persistAndPublishToken (runner.attemptBase id job .token token.address snapshotDate
        anchor configHash frozen) id job token snapshotDate frozen r) w := by
  have hscope : (runner.scopeOf job token.address snapshotDate id).attemptId = id := rfl
  refine Returns.bind (returns_persistUniverse hscope frozen h ?_) ?_
  · intro X w' hX hw
    exact At.gateInvariant hw hX
  rintro - w₁ ⟨members, hmembers, h₁⟩
  refine Returns.bind (returns_persistTokenResult hscope r hmembers h₁ ?_) ?_
  · intro X w' hX hw
    exact At.gateInvariant hw hX
  rintro - w₂ ⟨tables, htables, h₂⟩
  exact returns_publishToken rfl htables (tokenTables_publications htables) h₂

theorem returns_persistAndPublishPool (pool : PoolConfig) (r : PoolCollectionResult)
    (hfrozen : frozen.size = 0) (h : At id {} states log w) :
    Returns (censusEnv id)
      (GateInvariant (runner.attemptBase id job .pool pool.address snapshotDate anchor configHash
        frozen) frozen (.pool r))
      (fun _ w' => GateInvariant (runner.attemptBase id job .pool pool.address snapshotDate anchor
        configHash frozen) frozen (.pool r) w')
      (runner.persistAndPublishPool (runner.attemptBase id job .pool pool.address snapshotDate
        anchor configHash frozen) id job pool snapshotDate frozen r) w := by
  have hscope : (runner.scopeOf job pool.address snapshotDate id).attemptId = id := rfl
  refine Returns.bind (returns_persistPool hscope r h ?_) ?_
  · intro X w' hX hw
    exact At.gateInvariant hw hX
  rintro - w₁ ⟨tables, htables, h₁⟩
  exact returns_publishPoolResult rfl hfrozen (fun _ => nofun) htables
    (poolTables_publications htables) (fun hC => returns_readbackPool hC rfl r) h₁

theorem returns_persistAndPublishPoolCl (pool : PoolConfig) (r : PoolClCollectionResult)
    (hfrozen : frozen.size = 0) (h : At id {} states log w) :
    Returns (censusEnv id)
      (GateInvariant (runner.attemptBase id job .pool pool.address snapshotDate anchor configHash
        frozen) frozen (.poolCl r))
      (fun _ w' => GateInvariant (runner.attemptBase id job .pool pool.address snapshotDate anchor
        configHash frozen) frozen (.poolCl r) w')
      (runner.persistAndPublishPoolCl (runner.attemptBase id job .pool pool.address snapshotDate
        anchor configHash frozen) id job pool snapshotDate frozen r) w := by
  have hscope : (runner.scopeOf job pool.address snapshotDate id).attemptId = id := rfl
  refine Returns.bind (returns_persistPoolCl hscope r h ?_) ?_
  · intro X w' hX hw
    exact At.gateInvariant hw hX
  rintro - w₁ ⟨tables, htables, h₁⟩
  exact returns_publishPoolResult rfl hfrozen (fun _ => nofun) htables
    (poolClTables_publications htables) (fun hC => returns_readbackCl hC rfl r) h₁

end Publish

end RpcStateIndexer
