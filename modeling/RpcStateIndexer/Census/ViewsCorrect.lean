import RpcStateIndexer.Census.Publication

/-!
# The consumer views are sound

For one target and date a published view holds the rows of one attempt, all of them and nothing else,
and that attempt passed the gate and is still eligible.
-/

namespace RpcStateIndexer

open Reasoning Program CensusRunner CensusStore

/-! ## The scope of persisted rows -/

/-- Every observation that is persisted carries the whole scope of the attempt. -/
structure ScopedRows (scope : AttemptScope) (s : CensusStore) : Prop where
  tokenBalances : ∀ r ∈ s.tokenBalances, r.scope = scope
  tokenScalars : ∀ r ∈ s.tokenScalars, r.scope = scope
  poolBalances : ∀ r ∈ s.poolBalances, r.scope = scope
  poolClState : ∀ r ∈ s.poolClState, r.scope = scope
  poolTicks : ∀ r ∈ s.poolTicks, r.scope = scope

theorem tablesOf_scopedRows {scope : AttemptScope} {frozen : FrozenUniverse}
    {result : CollectionResult} {tables : CensusStore}
    (h : tablesOf scope frozen result = .ok tables) : ScopedRows scope tables := by
  have hnil : ∀ {α : Type}, ∀ r ∈ ([] : List (Stored α)), r.scope = scope := nofun
  cases result with
  | token r =>
    simp only [tablesOf, tokenTables, except_bind_eq_ok_iff, except_pure_eq_ok_iff] at h
    obtain ⟨members, -, balances, hbalances, scalars, hscalars, rfl⟩ := h
    refine ⟨mapM_storedRow_scope hbalances, ?_, hnil, hnil, hnil⟩
    intro row hrow
    obtain ⟨group, hgroup, hmem⟩ := List.mem_flatten.mp hrow
    obtain ⟨sequence, -, rfl⟩ := List.mem_map.mp hgroup
    exact mapM_storedRow_scope hscalars row (List.mem_of_mem_filter hmem)
  | pool r =>
    simp only [tablesOf, poolTables, except_bind_eq_ok_iff, except_pure_eq_ok_iff] at h
    obtain ⟨balances, hbalances, rfl⟩ := h
    exact ⟨hnil, hnil, mapM_storedRow_scope hbalances, hnil, hnil⟩
  | poolCl r =>
    simp only [tablesOf, poolClTables, except_bind_eq_ok_iff, except_pure_eq_ok_iff] at h
    obtain ⟨state, hstate, ticks, hticks, rfl⟩ := h
    refine ⟨hnil, hnil, hnil, ?_, mapM_storedRow_scope hticks⟩
    intro row hrow
    rw [List.mem_singleton.mp hrow, (storedRow_scope hstate).1]

/-! ## What the rows of one key come from -/

/-- The attempt behind a row of the views: everything a consumer relies on. -/
structure ConsumedAttempt (w : CensusWorld) (key : TargetKey) (a : Attempt)
    (c : Collected a.plan.job a.plan.target) (p : PublicationRow) : Prop where
  collected : a.collected = some c
  target : a.plan.base.target = key
  published : p ∈ w.store.publications ∧ p.attemptId = a.plan.attemptId
  latest : ∃ t ∈ w.store.attemptsCurrent, t.attemptId = a.plan.attemptId ∧ t.status = .verified ∧
    AttemptMatches p t
  config : ∃ registered ∈ w.store.currentConfig
      (key.chainId, key.jobName, key.targetKind, key.targetAddress),
    a.plan.base.configHash = registered.configHash
  anchor : ∃ anchor ∈ w.store.canonicalAnchor key.chainId key.snapshotDate,
    a.plan.base.anchorBlock = anchor.blockNumber ∧ a.plan.base.anchorHash = anchor.blockHash
  errors : ∀ e ∈ w.store.errors, e.scope.attemptId ≠ a.plan.attemptId
  gated : ∃ tables, Gated a.plan.base a.plan.frozen c.result tables ⟨w.store, a.log⟩ p

/-- For each key a view is empty, or it holds exactly the rows of one attempt. -/
def ViewSound {α κ : Type} [DecidableEq κ] (w : CensusWorld) (targetKind : TargetKind)
    (column : α → κ) (table : CensusStore → List (Stored α))
    (view : List (Stored α × PublicationRow)) : Prop :=
  ∀ key : TargetKey, (∀ r p, (r, p) ∈ view → targetOf targetKind r.scope ≠ key) ∨
    ∃ a ∈ w.attempts, ∃ c p, ConsumedAttempt w key a c p ∧
      ∀ r q, (r, q) ∈ view ∧ targetOf targetKind r.scope = key ↔
        q = p ∧ r ∈ finalOf column (table (w.store.ofAttempt a.plan.attemptId))

/-- The five consumer views. -/
structure ViewsSound (w : CensusWorld) : Prop where
  tokenBalances : ViewSound w .token BalanceRow.holderAddress CensusStore.tokenBalances
    w.store.tokenBalancesPublished
  tokenScalars : ViewSound w .token ScalarRow.scalarName CensusStore.tokenScalars
    w.store.tokenScalarsPublished
  poolBalances : ViewSound w .pool PoolBalanceRow.tokenAddress CensusStore.poolBalances
    w.store.poolBalancesPublished
  poolClState : ViewSound w .pool PoolClStateRow.column CensusStore.poolClState
    w.store.poolClStatePublished
  poolTicks : ViewSound w .pool PoolTickRow.tick CensusStore.poolTicks w.store.poolTicksPublished

/-! ## Soundness -/

section Sound

variable {w₀ w : CensusWorld} (init : w₀.Initial) (empty : w₀.store = {})
  (reach : Relation.ReflTransGen CensusStep w₀ w)
include init empty reach

/-- A current publication belongs to an attempt that passed the gate. -/
theorem exists_consumedAttempt {key : TargetKey} {p : PublicationRow}
    (h : w.store.publicationsCurrent key = some p) :
    ∃ a ∈ w.attempts, ∃ c, ConsumedAttempt w key a c p := by
  have hw := (WorldInvariant.initial init).reachable reach
  obtain ⟨hp, heligible, rfl, -⟩ := CensusStore.mem_publicationsCurrent h
  have hmem : p ∈ (w.store.ofAttempt p.attemptId).publications :=
    List.mem_filter.mpr ⟨hp, by simp⟩
  -- Without an attempt of its own the publication would have been there from the start.
  have hattempt : ∃ a ∈ w.attempts, a.plan.attemptId = p.attemptId := by
    by_contra hnone
    have hforeign := hw.foreign p.attemptId fun a ha heq => hnone ⟨a, ha, heq⟩
    rw [empty] at hforeign
    rw [hforeign] at hmem
    exact List.not_mem_nil hmem
  obtain ⟨a, ha, hid⟩ := hattempt
  rw [← hid] at hmem
  obtain ⟨c, tables, q, hc, hgated⟩ := (hw.attempts a ha).gated (List.ne_nil_of_mem hmem)
  obtain rfl : p = q := List.mem_singleton.mp (hgated.publications ▸ hmem)
  obtain ⟨t, ht, hbase, hmatch⟩ := hgated.verifiedState
  obtain ⟨registered, hregistered, hhash⟩ := heligible.config
  obtain ⟨anchor, hanchor, hblock, hblockHash⟩ := heligible.anchor
  obtain ⟨latest, hlatest, hlatestMatch⟩ := heligible.attempt
  refine ⟨a, ha, c, hc, hgated.target.symm, ⟨hp, hid.symm⟩, ?_, ?_, ?_, hgated.errors, tables, hgated⟩
  · exact ⟨latest, hlatest, hlatestMatch.attemptId ▸ hid.symm, hlatestMatch.status, hlatestMatch⟩
  · exact ⟨registered, hregistered, by rw [← hbase, ← hmatch.configHash, hhash]⟩
  · refine ⟨anchor, hanchor, ?_, ?_⟩
    · rw [← hbase, ← hmatch.anchorBlock, hblock]
    · rw [← hbase, ← hmatch.anchorHash, hblockHash]

theorem viewSound {α κ : Type} [DecidableEq κ] (targetKind : TargetKind) (column : α → κ)
    (table : CensusStore → List (Stored α))
    (hfilter : ∀ s id, table (s.ofAttempt id) = (table s).filter fun r => r.scope.attemptId = id)
    (hwrite : ∀ (s : CensusStore) (p : PublicationRow), table (s.write (.publication p)) = table s)
    (hobserved : ∀ s : CensusStore, table s.observed = table s)
    (hscope : ∀ scope s, ScopedRows scope s → ∀ r ∈ table s, r.scope = scope) :
    ViewSound w targetKind column table
      (w.store.published targetKind column (table w.store)) := by
  intro key
  cases hcurrent : w.store.publicationsCurrent key with
  | none =>
    refine .inl fun r p hr hkey => ?_
    rw [CensusStore.mem_published, hkey, hcurrent] at hr
    exact absurd hr.2.1 nofun
  | some p =>
    by_cases hkind : key.targetKind = targetKind
    · obtain ⟨a, ha, c, hconsumed⟩ := exists_consumedAttempt init empty reach hcurrent
      refine .inr ⟨a, ha, c, p, hconsumed, fun r q => ?_⟩
      have hfinal : r ∈ finalOf column (table (w.store.ofAttempt a.plan.attemptId)) ↔
          r ∈ finalOf column (table w.store) ∧ r.scope.attemptId = a.plan.attemptId := by
        rw [hfilter, finalOf, ← filter_final, List.mem_filter, decide_eq_true_eq]
        · rfl
        · intro x y hxy
          simp only [Stored.key, Prod.mk.injEq] at hxy
          rw [hxy.1]
      rw [CensusStore.mem_published, hfinal]
      constructor
      · rintro ⟨⟨hr, hq, hattempt⟩, hkey⟩
        rw [hkey, hcurrent] at hq
        obtain rfl := Option.some.inj hq
        exact ⟨rfl, hr, hattempt.trans hconsumed.published.2⟩
      · rintro ⟨rfl, hr, hattempt⟩
        -- The row was persisted by the attempt, so it carries the attempt's scope.
        have hrow : r.scope = a.plan.base.scope := by
          obtain ⟨tables, hgated⟩ := hconsumed.gated
          refine hscope _ tables (tablesOf_scopedRows hgated.persisted) r ?_
          rw [← hwrite tables q, ← hgated.rows, hobserved, hfilter]
          exact List.mem_filter.mpr ⟨mem_of_mem_final hr, decide_eq_true hattempt⟩
        have hkey : targetOf targetKind r.scope = key := by
          rw [hrow, ← hconsumed.target, ← hkind, ← hconsumed.target]
          rfl
        exact ⟨⟨hr, by rw [hkey, hcurrent], hattempt.trans hconsumed.published.2.symm⟩, hkey⟩
    · refine .inl fun r q _ hkey => hkind ?_
      rw [← hkey]
      rfl

theorem views_sound : ViewsSound w where
  tokenBalances := viewSound init empty reach _ _ _ (fun _ _ => rfl) (fun _ _ => rfl) (fun _ => rfl)
    fun _ _ h => h.tokenBalances
  tokenScalars := viewSound init empty reach _ _ _ (fun _ _ => rfl) (fun _ _ => rfl) (fun _ => rfl)
    fun _ _ h => h.tokenScalars
  poolBalances := viewSound init empty reach _ _ _ (fun _ _ => rfl) (fun _ _ => rfl) (fun _ => rfl)
    fun _ _ h => h.poolBalances
  poolClState := viewSound init empty reach _ _ _ (fun _ _ => rfl) (fun _ _ => rfl) (fun _ => rfl)
    fun _ _ h => h.poolClState
  poolTicks := viewSound init empty reach _ _ _ (fun _ _ => rfl) (fun _ _ => rfl) (fun _ => rfl)
    fun _ _ h => h.poolTicks

end Sound

/-- The sample pool: both balances are published, from a store that was empty at first. -/
theorem views_sound_sample :
    (sampleWorld 7).store.poolBalancesPublished.length = 2 ∧ ViewsSound (sampleWorld 7) := by
  have hreach : Relation.ReflTransGen CensusStep ⟨{}, [], []⟩ ⟨sampleCensusStore, [], []⟩ := by
    refine .head (.registerConfigs sampleCensusStore.configRegistry) (.single ?_)
    exact .insertAnchor ⟨100, 0, "resolution", 10, sampleAnchor.blockHash, sampleAnchor.parentHash,
      100, 11, hexText (List.replicate 64 '3'), 105, true, 0⟩
  refine ⟨?_, views_sound ⟨rfl, fun _ _ => rfl⟩ rfl (hreach.trans (sampleWorld_reaches 7))⟩
  rw [sampleWorld, solo_store, sampleWorker_store]
  decide +kernel

end RpcStateIndexer
