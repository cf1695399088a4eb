import RpcStateIndexer.Census.Store
import Mathlib.Data.List.MinMax
import Mathlib.Data.Prod.Lex

/-!
# The consumer views

A view that groups by a key is a function of the key here, and a join with it a lookup: the grouped
side has at most one row for a key.
-/

namespace RpcStateIndexer

open Reasoning

/-- The columns two resolutions of one date must agree on. -/
structure Resolution where
  blockNumber : Nat
  blockHash : String
  parentHash : String
  blockTimestamp : Nat
  nextBlockNumber : Nat
  nextBlockHash : String
  nextBlockTimestamp : Nat
  deriving DecidableEq

def DayAnchorRow.resolution (a : DayAnchorRow) : Resolution where
  blockNumber := a.blockNumber
  blockHash := a.blockHash
  parentHash := a.parentHash
  blockTimestamp := a.blockTimestamp
  nextBlockNumber := a.nextBlockNumber
  nextBlockHash := a.nextBlockHash
  nextBlockTimestamp := a.nextBlockTimestamp

/-- The columns two publications of one key must agree on. -/
def PublicationRow.signature (p : PublicationRow) : String × String × String × String :=
  (p.anchorHash, p.configHash, p.universeHash, p.resultDigest)

/-- The attempt-side conditions of `v_publications_eligible`. -/
structure AttemptMatches (p : PublicationRow) (t : AttemptRow) : Prop where
  target : p.target = t.target
  attemptId : p.attemptId = t.attemptId
  status : t.status = .verified
  integrityMode : p.integrityMode = t.integrityMode
  configHash : p.configHash = t.configHash
  anchorBlock : p.anchorBlock = t.anchorBlock
  anchorHash : p.anchorHash = t.anchorHash
  universeHash : p.universeHash = t.universeHash
  universeSize : p.universeSize = t.universeSize
  resultDigest : some p.resultDigest = t.resultDigest
  batchesTotal : p.batchesTotal = t.batchesTotal
  batchesVerified : t.batchesTotal = t.batchesVerified
  observationsTotal : p.observationsTotal = t.observationsOk
  observationsFailed : t.observationsFailed = 0

theorem attemptMatches_iff {p : PublicationRow} {t : AttemptRow} : AttemptMatches p t ↔
    p.target = t.target ∧ p.attemptId = t.attemptId ∧ t.status = .verified ∧
      p.integrityMode = t.integrityMode ∧ p.configHash = t.configHash ∧
      p.anchorBlock = t.anchorBlock ∧ p.anchorHash = t.anchorHash ∧
      p.universeHash = t.universeHash ∧ p.universeSize = t.universeSize ∧
      some p.resultDigest = t.resultDigest ∧ p.batchesTotal = t.batchesTotal ∧
      t.batchesTotal = t.batchesVerified ∧ p.observationsTotal = t.observationsOk ∧
      t.observationsFailed = 0 := by
  constructor
  · rintro ⟨h₁, h₂, h₃, h₄, h₅, h₆, h₇, h₈, h₉, h₁₀, h₁₁, h₁₂, h₁₃, h₁₄⟩
    exact ⟨h₁, h₂, h₃, h₄, h₅, h₆, h₇, h₈, h₉, h₁₀, h₁₁, h₁₂, h₁₃, h₁₄⟩
  · rintro ⟨h₁, h₂, h₃, h₄, h₅, h₆, h₇, h₈, h₉, h₁₀, h₁₁, h₁₂, h₁₃, h₁₄⟩
    exact ⟨h₁, h₂, h₃, h₄, h₅, h₆, h₇, h₈, h₉, h₁₀, h₁₁, h₁₂, h₁₃, h₁₄⟩

instance (p : PublicationRow) (t : AttemptRow) : Decidable (AttemptMatches p t) :=
  decidable_of_iff _ attemptMatches_iff.symm

/-- A row of `v_publication_status`, with the publication that its `argMax` columns select. -/
structure PublicationStatus where
  publicationRows : Nat
  signatureCount : Nat
  selected : PublicationRow
  deriving DecidableEq

namespace CensusStore

/-- `v_config_registry_current` -/
def currentConfig (s : CensusStore) (key : Nat × String × TargetKind × String) :
    Option ConfigRegistryRow :=
  ((s.configRegistry.filter fun c => c.key = key).argmax fun c =>
    toLex (c.insertVersion, c.configHash)).filter fun c => c.enabled

/-- The rows `v_day_anchor_status` groups for a date. -/
def resolutionsOf (s : CensusStore) (chainId snapshotDate : Nat) : List DayAnchorRow :=
  s.dayAnchors.filter fun a => a.chainId = chainId && a.snapshotDate = snapshotDate

/-- `v_day_anchors_canonical`: one distinct resolution, and every row of it finalized. -/
def canonicalAnchor (s : CensusStore) (chainId snapshotDate : Nat) : Option DayAnchorRow :=
  let rows := s.resolutionsOf chainId snapshotDate
  if (rows.map DayAnchorRow.resolution).dedup.length = 1 ∧
      rows.all (fun a => a.finalizedAtResolution) = true then
    rows.argmax fun a => toLex (a.resolvedAt, a.resolutionId)
  else none

/-- `v_census_attempts_current` -/
def attemptsCurrent (s : CensusStore) : List AttemptRow := final AttemptRow.key s.attempts

/-- `v_census_errors_current` -/
def errorsCurrent (s : CensusStore) : List ErrorRow := final ErrorRow.key s.errors

/-- What `v_publications_eligible` joins a publication with. -/
structure Eligible (s : CensusStore) (p : PublicationRow) : Prop where
  config : ∃ c ∈ s.currentConfig (p.chainId, p.jobName, p.targetKind, p.targetAddress),
    p.configHash = c.configHash
  anchor : ∃ a ∈ s.canonicalAnchor p.chainId p.snapshotDate,
    p.anchorBlock = a.blockNumber ∧ p.anchorHash = a.blockHash
  attempt : ∃ t ∈ s.attemptsCurrent, AttemptMatches p t
  errors : ∀ e ∈ s.errorsCurrent, e.scope.attemptId ≠ p.attemptId

theorem eligible_iff {s : CensusStore} {p : PublicationRow} : s.Eligible p ↔
    (∃ c ∈ s.currentConfig (p.chainId, p.jobName, p.targetKind, p.targetAddress),
      p.configHash = c.configHash) ∧
    (∃ a ∈ s.canonicalAnchor p.chainId p.snapshotDate,
      p.anchorBlock = a.blockNumber ∧ p.anchorHash = a.blockHash) ∧
    (∃ t ∈ s.attemptsCurrent, AttemptMatches p t) ∧
    ∀ e ∈ s.errorsCurrent, e.scope.attemptId ≠ p.attemptId := by
  constructor
  · rintro ⟨hconfig, hanchor, hattempt, herrors⟩
    exact ⟨hconfig, hanchor, hattempt, herrors⟩
  · rintro ⟨hconfig, hanchor, hattempt, herrors⟩
    exact ⟨hconfig, hanchor, hattempt, herrors⟩

instance (s : CensusStore) (p : PublicationRow) : Decidable (s.Eligible p) :=
  decidable_of_iff _ eligible_iff.symm

/-- `v_publications_eligible` -/
def publicationsEligible (s : CensusStore) : List PublicationRow :=
  s.publications.filter fun p => s.Eligible p

/-- `v_publication_status` -/
def publicationStatus (s : CensusStore) (key : TargetKey) : Option PublicationStatus :=
  let rows := s.publicationsEligible.filter fun p => p.target = key
  (rows.argmax fun p => toLex (p.publishedAt, p.publicationId)).map fun selected =>
    { publicationRows := rows.length
      signatureCount := (rows.map PublicationRow.signature).dedup.length
      selected }

/-- `v_publications_current` -/
def publicationsCurrent (s : CensusStore) (key : TargetKey) : Option PublicationRow :=
  ((s.publicationStatus key).filter fun status => status.signatureCount = 1).map
    PublicationStatus.selected

/-- An attempt's scope as a key of the publication views. -/
def targetOf (targetKind : TargetKind) (scope : AttemptScope) : TargetKey :=
  ⟨scope.chainId, scope.jobName, targetKind, scope.targetAddress, scope.snapshotDate⟩

/-- Observations joined with the current publication of their key, on the attempt. -/
def published {α κ : Type} [DecidableEq κ] (s : CensusStore) (targetKind : TargetKind)
    (column : α → κ) (rows : List (Stored α)) : List (Stored α × PublicationRow) :=
  (finalOf column rows).filterMap fun r =>
    ((s.publicationsCurrent (targetOf targetKind r.scope)).filter fun p =>
      r.scope.attemptId = p.attemptId).map fun p => (r, p)

/-- `v_token_balances_published` -/
def tokenBalancesPublished (s : CensusStore) : List (Stored BalanceRow × PublicationRow) :=
  s.published .token BalanceRow.holderAddress s.tokenBalances

/-- `v_token_scalars_published` -/
def tokenScalarsPublished (s : CensusStore) : List (Stored ScalarRow × PublicationRow) :=
  s.published .token ScalarRow.scalarName s.tokenScalars

/-- `v_pool_token_balances_published` -/
def poolBalancesPublished (s : CensusStore) : List (Stored PoolBalanceRow × PublicationRow) :=
  s.published .pool PoolBalanceRow.tokenAddress s.poolBalances

/-- `v_pool_cl_state_published` -/
def poolClStatePublished (s : CensusStore) : List (Stored PoolClStateRow × PublicationRow) :=
  s.published .pool PoolClStateRow.column s.poolClState

/-- `v_pool_tick_liquidity_published` -/
def poolTicksPublished (s : CensusStore) : List (Stored PoolTickRow × PublicationRow) :=
  s.published .pool PoolTickRow.tick s.poolTicks

/-! ## What a row of a view says -/

/-- The current publication of a key is eligible, and every eligible one has its signature. -/
theorem mem_publicationsCurrent {s : CensusStore} {key : TargetKey} {p : PublicationRow}
    (h : s.publicationsCurrent key = some p) :
    p ∈ s.publications ∧ s.Eligible p ∧ p.target = key ∧
      ∀ q ∈ s.publications, s.Eligible q → q.target = key → q.signature = p.signature := by
  simp only [publicationsCurrent, Option.map_eq_some_iff, Option.filter_eq_some_iff,
    decide_eq_true_eq] at h
  obtain ⟨status, ⟨hstatus, hcount⟩, rfl⟩ := h
  simp only [publicationStatus, Option.map_eq_some_iff] at hstatus
  obtain ⟨selected, hselected, rfl⟩ := hstatus
  have hmem := List.argmax_mem hselected
  simp only [List.mem_filter, publicationsEligible, decide_eq_true_eq] at hmem
  refine ⟨hmem.1.1, hmem.1.2, hmem.2, ?_⟩
  intro q hq hqe hqt
  -- One distinct signature: both rows carry the only member of the list.
  obtain ⟨sig, hsig⟩ := List.length_eq_one_iff.mp hcount
  have honly : ∀ r ∈ s.publicationsEligible.filter fun p => p.target = key,
      r.signature = sig := by
    intro r hr
    have hr' := List.mem_dedup.mpr (List.mem_map_of_mem (f := PublicationRow.signature) hr)
    rw [hsig] at hr'
    exact List.mem_singleton.mp hr'
  rw [honly _ (List.argmax_mem hselected), honly q (by simp [publicationsEligible, hq, hqe, hqt])]

theorem mem_published {α κ : Type} [DecidableEq κ] {s : CensusStore} {targetKind : TargetKind}
    {column : α → κ} {rows : List (Stored α)} {r : Stored α} {p : PublicationRow} :
    (r, p) ∈ s.published targetKind column rows ↔
      r ∈ finalOf column rows ∧
        s.publicationsCurrent (targetOf targetKind r.scope) = some p ∧
          r.scope.attemptId = p.attemptId := by
  simp only [published, List.mem_filterMap, Option.map_eq_some_iff, Option.filter_eq_some_iff,
    decide_eq_true_eq, Prod.mk.injEq]
  constructor
  · rintro ⟨r', hr', p', ⟨hp', hid⟩, rfl, rfl⟩
    exact ⟨hr', hp', hid⟩
  · rintro ⟨hr, hp, hid⟩
    exact ⟨r, hr, p, ⟨hp, hid⟩, rfl, rfl⟩

end CensusStore

end RpcStateIndexer
