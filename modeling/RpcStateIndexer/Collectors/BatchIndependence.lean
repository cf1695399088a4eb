import RpcStateIndexer.Census.Publication
import RpcStateIndexer.Collectors.Materialization

/-!
# Batch independence

The contents of a result are what it says apart from the batches it came in.  A collection of values
commutes with forgetting the batches, so its contents depend on the results by key only.
-/

namespace RpcStateIndexer

open Reasoning Program

/-! ## Contents -/

def BalanceRow.unnumbered (row : BalanceRow) : BalanceRow := { row with batchSequence := 0 }

def ScalarRow.unnumbered (row : ScalarRow) : ScalarRow := { row with batchSequence := 0 }

def PoolBalanceRow.unnumbered (row : PoolBalanceRow) : PoolBalanceRow := { row with batchSequence := 0 }

def CollectionOutcome.contents (outcome : CollectionOutcome) : CollectionOutcome :=
  { outcome with
    errors := outcome.errors.map CollectionError.unnumbered
    batches := [] }

def TokenCollectionResult.contents (r : TokenCollectionResult) : TokenCollectionResult where
  toCollectionOutcome := r.toCollectionOutcome.contents
  tokenAddress := r.tokenAddress
  universeHash := r.universeHash
  balances := r.balances.map BalanceRow.unnumbered
  scalars := r.scalars.map ScalarRow.unnumbered

def PoolCollectionResult.contents (r : PoolCollectionResult) : PoolCollectionResult where
  toCollectionOutcome := r.toCollectionOutcome.contents
  poolAddress := r.poolAddress
  balances := r.balances.map PoolBalanceRow.unnumbered

def PoolClCollectionResult.contents (r : PoolClCollectionResult) : PoolClCollectionResult where
  toCollectionOutcome := r.toCollectionOutcome.contents
  poolAddress := r.poolAddress
  state := { r.state with batchSequence := 0 }
  ticks := r.ticks.map fun row => { row with batchSequence := 0 }

/-- The balances, scalars, errors and checks of a result, without the batches. -/
def CollectionResult.contents : CollectionResult → CollectionResult
  | .token r => .token r.contents
  | .pool r => .pool r.contents
  | .poolCl r => .poolCl r.contents

theorem outcome_contents (r : CollectionResult) : r.contents.outcome = r.outcome.contents := by
  cases r <;> rfl

/-- A digest covers contents only. -/
theorem resultDigest_contents (r : CollectionResult) : r.contents.resultDigest = r.resultDigest := by
  cases r with
  | token r =>
    show digestTokenObservations ((r.balances.map _).map _) ((r.scalars.map _).map _) = _
    rw [List.map_map, List.map_map]
    rfl
  | pool r =>
    show digestPoolObservations ((r.balances.map _).map _) = _
    rw [List.map_map]
    rfl
  | poolCl r =>
    show digestClObservations _ ((r.ticks.map _).map _) = _
    rw [List.map_map]
    rfl

/-- With all batches verified, the verdict covers contents only. -/
theorem verified_contents {outcome : CollectionOutcome}
    (h : ∀ batch ∈ outcome.batches, batch.evidence.verified = true) :
    outcome.contents.verified = outcome.verified := by
  have hall : outcome.batches.all (fun batch => batch.evidence.verified) = true :=
    List.all_eq_true.mpr h
  show ((outcome.errors.map _).isEmpty && List.all [] _ && _) = outcome.verified
  rw [CollectionOutcome.verified, hall, List.isEmpty_map]
  rfl

/-! ## Forgetting commutes with materializing -/

theorem scalarValue_unnumbered (scalars : List (String × Nat × Nat)) (name : String) :
    scalarValue (scalars.map unnumberedValue) name = scalarValue scalars name := by
  unfold scalarValue
  induction scalars with
  | nil => rfl
  | cons x rest ih =>
    rw [List.map_cons, unnumberedValue, List.lookup_cons, List.lookup_cons]
    cases name == x.1 with
    | true => rfl
    | false => exact ih

theorem sum_unnumbered (values : List (String × Nat × Nat)) :
    ((values.map unnumberedValue).map fun x => x.2.1).sum = (values.map fun x => x.2.1).sum := by
  rw [List.map_map]
  rfl

theorem readSentinel_unnumbered (decoded : DecodedExecution) (sentinel : Option UIntCallSpec) :
    readSentinel decoded.unnumbered sentinel =
      (readSentinel decoded sentinel).map fun x => (x.1, x.2.map CollectionError.unnumbered) := by
  cases sentinel with
  | none => rfl
  | some spec =>
    rw [readSentinel, readSentinel, call_unnumbered]
    cases decoded.call spec.call.key with
    | error fault => rfl
    | ok call =>
      have hvalue : call.unnumbered.observation.value = call.observation.value := rfl
      cases hcase : call.observation.value with
      | none =>
        rw [hcase] at hvalue
        simp only [Except.map, except_ok_bind, hvalue, hcase]
        rfl
      | some value =>
        rw [hcase] at hvalue
        simp only [Except.map, except_ok_bind, hvalue, hcase]
        rfl

theorem Erc20Collector.supplyCheck_unnumbered (self : Erc20Collector) (integrityMode : IntegrityMode)
    (complete : Bool) (balances : List (String × Nat × Nat)) (expected : Option Int) :
    self.supplyCheck integrityMode complete (balances.map unnumberedValue) expected =
      self.supplyCheck integrityMode complete balances expected := by
  unfold Erc20Collector.supplyCheck
  rw [sum_unnumbered]

theorem Erc20Collector.materialize_unnumbered (self : Erc20Collector) (token : TokenConfig)
    (frozen : FrozenUniverse) (integrityMode : IntegrityMode) (request : TokenRequest)
    (decoded : DecodedExecution) :
    self.materialize token frozen integrityMode request decoded.unnumbered =
      (self.materialize token frozen integrityMode request decoded).map
        TokenCollectionResult.contents := by
  unfold Erc20Collector.materialize
  rw [splitCalls_unnumbered, splitCalls_unnumbered, readSentinel_unnumbered,
    completenessCheck_unnumbered]
  cases splitCalls decoded request.holders with
  | error fault => rfl
  | ok balances =>
    cases splitCalls decoded request.scalars with
    | error fault => rfl
    | ok scalars =>
      cases readSentinel decoded request.sentinel with
      | error fault => rfl
      | ok sentinel =>
        simp only [Except.map, except_ok_bind, scalarValue_unnumbered, supplyCheck_unnumbered]
        simp only [pure, Except.pure, Except.ok.injEq, TokenCollectionResult.contents,
          CollectionOutcome.contents, List.map_append, List.map_map]
        rfl

theorem PoolReserveCollector.materialize_unnumbered (pool : PoolConfig) (integrityMode : IntegrityMode)
    (request : List (String × UIntCallSpec)) (decoded : DecodedExecution) :
    PoolReserveCollector.materialize pool integrityMode request decoded.unnumbered =
      (PoolReserveCollector.materialize pool integrityMode request decoded).map
        PoolCollectionResult.contents := by
  unfold PoolReserveCollector.materialize
  rw [splitCalls_unnumbered, completenessCheck_unnumbered]
  cases splitCalls decoded request with
  | error fault => rfl
  | ok balances =>
    simp only [Except.map, except_ok_bind]
    simp only [pure, Except.pure, Except.ok.injEq, PoolCollectionResult.contents,
      CollectionOutcome.contents, List.map_map]
    rfl

theorem reconstruct_unnumbered (index : Option Nat) (x : String × Nat × Nat) :
    reconstruct index (unnumberedValue x) =
      ((reconstruct index x).map BalanceRow.unnumbered).mapError CollectionError.unnumbered := by
  cases index with
  | none => rfl
  | some index =>
    unfold reconstruct unnumberedValue
    dsimp only
    cases rayMulHalfUp x.2.1 index with
    | error message => rfl
    | ok value => rfl

theorem partition_map {α β ε ε' : Type} (f : α → β) (g : ε → ε') (l : List (Except ε α)) :
    partition (l.map fun x => (x.map f).mapError g) =
      ((partition l).1.map f, (partition l).2.map g) := by
  induction l with
  | nil => rfl
  | cons x rest ih =>
    cases x with
    | ok a =>
      show partition (.ok (f a) :: _) = _
      rw [partition, ih]
      rfl
    | error e =>
      show partition (.error (g e) :: _) = _
      rw [partition, ih]
      rfl

theorem partition_reconstruct_unnumbered (index : Option Nat) (scaled : List (String × Nat × Nat)) :
    partition ((scaled.map unnumberedValue).map (reconstruct index)) =
      ((partition (scaled.map (reconstruct index))).1.map BalanceRow.unnumbered,
        (partition (scaled.map (reconstruct index))).2.map CollectionError.unnumbered) := by
  rw [← partition_map, List.map_map, List.map_map]
  congr 1
  exact List.map_congr_left fun x _ => reconstruct_unnumbered index x

theorem ATokenCollector.supplyCheck_unnumbered (integrityMode : IntegrityMode) (complete : Bool)
    (scaled : List (String × Nat × Nat)) (expected : Option Nat) :
    ATokenCollector.supplyCheck integrityMode complete (scaled.map unnumberedValue) expected =
      ATokenCollector.supplyCheck integrityMode complete scaled expected := by
  unfold ATokenCollector.supplyCheck
  rw [sum_unnumbered]

theorem ATokenCollector.materialize_unnumbered (token : TokenConfig) (frozen : FrozenUniverse)
    (integrityMode : IntegrityMode) (request : TokenRequest) (decoded : DecodedExecution) :
    ATokenCollector.materialize token frozen integrityMode request decoded.unnumbered =
      (ATokenCollector.materialize token frozen integrityMode request decoded).map
        TokenCollectionResult.contents := by
  unfold ATokenCollector.materialize
  rw [splitCalls_unnumbered, splitCalls_unnumbered, completenessCheck_unnumbered]
  cases splitCalls decoded request.holders with
  | error fault => rfl
  | ok scaled =>
    cases splitCalls decoded request.scalars with
    | error fault => rfl
    | ok scalars =>
      simp only [Except.map, except_ok_bind, scalarValue_unnumbered, partition_reconstruct_unnumbered,
        supplyCheck_unnumbered, ← List.map_append, List.isEmpty_map, List.length_map]
      simp only [pure, Except.pure, Except.ok.injEq, TokenCollectionResult.contents,
        CollectionOutcome.contents, List.map_map]
      rfl

/-! ## The exchange of a collection -/

section Congr

variable {decoded₁ decoded₂ : DecodedExecution} (h : SameCalls decoded₁ decoded₂)
  (hbatches : decoded₁.batches = decoded₂.batches)
include h hbatches

theorem Erc20Collector.materialize_congr (self : Erc20Collector) (token : TokenConfig)
    (frozen : FrozenUniverse) (integrityMode : IntegrityMode) (request : TokenRequest) :
    self.materialize token frozen integrityMode request decoded₁ =
      self.materialize token frozen integrityMode request decoded₂ := by
  have hsentinel : readSentinel decoded₁ request.sentinel = readSentinel decoded₂ request.sentinel := by
    cases request.sentinel with
    | none => rfl
    | some spec => rw [readSentinel, readSentinel, h.call]
  unfold Erc20Collector.materialize
  rw [h.splitCalls, h.splitCalls, h.complete, hsentinel, hbatches]

theorem ATokenCollector.materialize_congr (token : TokenConfig) (frozen : FrozenUniverse)
    (integrityMode : IntegrityMode) (request : TokenRequest) :
    ATokenCollector.materialize token frozen integrityMode request decoded₁ =
      ATokenCollector.materialize token frozen integrityMode request decoded₂ := by
  unfold ATokenCollector.materialize
  rw [h.splitCalls, h.splitCalls, h.complete, hbatches]

theorem PoolReserveCollector.materialize_congr (pool : PoolConfig) (integrityMode : IntegrityMode)
    (request : List (String × UIntCallSpec)) :
    PoolReserveCollector.materialize pool integrityMode request decoded₁ =
      PoolReserveCollector.materialize pool integrityMode request decoded₂ := by
  unfold PoolReserveCollector.materialize
  rw [h.splitCalls, h.complete, hbatches]

end Congr

/-- What a collection asks, and what it makes of the decoded answer. -/
structure CollectionExchange where
  specs : List UIntCallSpec
  finish : DecodedExecution → Except CollectorFault CollectionResult

namespace ValueCollection

def exchange (collection : ValueCollection) (anchor : BlockRef) (integrityMode : IntegrityMode) :
    Except String CollectionExchange :=
  match collection with
  | .erc20 collector token frozen => do
    let request ← collector.request token frozen anchor integrityMode
    return ⟨request.specs, fun decoded =>
      (collector.materialize token frozen integrityMode request decoded).map .token⟩
  | .aToken collector token frozen => do
    let request ← collector.request token frozen anchor integrityMode
    return ⟨request.specs, fun decoded =>
      (ATokenCollector.materialize token frozen integrityMode request decoded).map .token⟩
  | .reserves pool => do
    let request ← PoolReserveCollector.request pool anchor integrityMode
    return ⟨request.map Prod.snd, fun decoded =>
      (PoolReserveCollector.materialize pool integrityMode request decoded).map .pool⟩

end ValueCollection

theorem ofExcept_map_bind {α β γ : Type} (x : α → Except CollectorFault β) (f : β → γ)
    (p : CollectorProgram α) :
    ((p >>= fun a => ofExcept (x a)) >>= fun b => pure (f b) : CollectorProgram γ) =
      p >>= fun a => ofExcept ((x a).map f) := by
  rw [bind_assoc]
  congr 1
  funext a
  cases x a <;> rfl

/-- Every collection of values asks one request and makes its result of the decoded answer. -/
theorem collect_eq_exchange (collection : ValueCollection) (anchor : BlockRef)
    (integrityMode : IntegrityMode) :
    collection.collect anchor integrityMode =
      (do
        let exchange ← ofExcept (orValueError (collection.exchange anchor integrityMode))
        let decoded ← executeUintCalls exchange.specs anchor
        ofExcept (exchange.finish decoded)) := by
  cases collection with
  | erc20 collector token frozen =>
    unfold ValueCollection.collect ValueCollection.exchange Erc20Collector.collect
    dsimp only
    cases collector.request token frozen anchor integrityMode with
    | error message => rfl
    | ok request => exact ofExcept_map_bind _ _ _
  | aToken collector token frozen =>
    unfold ValueCollection.collect ValueCollection.exchange ATokenCollector.collect
    dsimp only
    cases collector.request token frozen anchor integrityMode with
    | error message => rfl
    | ok request => exact ofExcept_map_bind _ _ _
  | reserves pool =>
    unfold ValueCollection.collect ValueCollection.exchange PoolReserveCollector.collect
    dsimp only
    cases PoolReserveCollector.request pool anchor integrityMode with
    | error message => rfl
    | ok request => exact ofExcept_map_bind _ _ _

/-- What the exchange of a collection is good for: an accepted answer becomes a result that
materializes it, and the result knows the batches only as its evidence. -/
structure Sound (collection : ValueCollection) (anchor : BlockRef) (exchange : CollectionExchange) :
    Prop where
  total : (exchange.specs.map (·.call.key)).Nodup → ∀ batches decoded,
    decodeBatches exchange.specs anchor batches = .ok decoded →
      ∃ result, exchange.finish decoded = .ok result ∧ Materialized collection batches result
  contents : ∀ decoded, exchange.finish decoded.unnumbered =
    (exchange.finish decoded).map CollectionResult.contents
  congr : ∀ decoded₁ decoded₂, SameCalls decoded₁ decoded₂ → decoded₁.batches = decoded₂.batches →
    exchange.finish decoded₁ = exchange.finish decoded₂
  evidence : ∀ decoded result, exchange.finish decoded = .ok result →
    result.outcome.batches = decoded.batches

section Exchange

variable {collection : ValueCollection} {anchor : BlockRef} {integrityMode : IntegrityMode}

/-- A materialization of one kind of result makes a sound exchange. -/
theorem sound_map {γ : Type} {specs : List UIntCallSpec}
    {finish : DecodedExecution → Except CollectorFault γ} {toResult : γ → CollectionResult}
    {contents : γ → γ} (hcontents : ∀ r, toResult (contents r) = (toResult r).contents)
    (htotal : (specs.map (·.call.key)).Nodup → ∀ batches decoded,
      decodeBatches specs anchor batches = .ok decoded →
        ∃ r, finish decoded = .ok r ∧ Materialized collection batches (toResult r))
    (hforget : ∀ decoded, finish decoded.unnumbered = (finish decoded).map contents)
    (hcongr : ∀ decoded₁ decoded₂, SameCalls decoded₁ decoded₂ →
      decoded₁.batches = decoded₂.batches → finish decoded₁ = finish decoded₂)
    (hevidence : ∀ decoded r, finish decoded = .ok r → (toResult r).outcome.batches = decoded.batches) :
    Sound collection anchor ⟨specs, fun decoded => (finish decoded).map toResult⟩ := by
  constructor
  · intro hnodup batches decoded h
    obtain ⟨r, hr, hmaterialized⟩ := htotal hnodup batches decoded h
    refine ⟨toResult r, ?_, hmaterialized⟩
    dsimp only
    rw [hr]
    rfl
  · intro decoded
    dsimp only
    rw [hforget]
    cases finish decoded with
    | error fault => rfl
    | ok r => exact congrArg Except.ok (hcontents r)
  · intro decoded₁ decoded₂ hsame hbatches
    dsimp only
    rw [hcongr decoded₁ decoded₂ hsame hbatches]
  · intro decoded result h
    dsimp only at h
    cases hfinish : finish decoded with
    | error fault =>
      rw [hfinish] at h
      cases h
    | ok r =>
      rw [hfinish] at h
      cases h
      exact hevidence decoded r hfinish

theorem Erc20Collector.batches_materialize {self : Erc20Collector} {token : TokenConfig}
    {frozen : FrozenUniverse} {request : TokenRequest} {decoded : DecodedExecution}
    {r : TokenCollectionResult}
    (h : self.materialize token frozen integrityMode request decoded = .ok r) :
    r.batches = decoded.batches := by
  unfold Erc20Collector.materialize at h
  simp only [except_bind_eq_ok_iff, except_pure_eq_ok_iff] at h
  obtain ⟨_, -, _, -, _, -, rfl⟩ := h
  rfl

theorem ATokenCollector.batches_materialize {token : TokenConfig} {frozen : FrozenUniverse}
    {request : TokenRequest} {decoded : DecodedExecution} {r : TokenCollectionResult}
    (h : ATokenCollector.materialize token frozen integrityMode request decoded = .ok r) :
    r.batches = decoded.batches := by
  unfold ATokenCollector.materialize at h
  simp only [except_bind_eq_ok_iff, except_pure_eq_ok_iff] at h
  obtain ⟨_, -, _, -, rfl⟩ := h
  rfl

theorem PoolReserveCollector.batches_materialize {pool : PoolConfig}
    {request : List (String × UIntCallSpec)} {decoded : DecodedExecution} {r : PoolCollectionResult}
    (h : PoolReserveCollector.materialize pool integrityMode request decoded = .ok r) :
    r.batches = decoded.batches := by
  unfold PoolReserveCollector.materialize at h
  simp only [except_bind_eq_ok_iff, except_pure_eq_ok_iff] at h
  obtain ⟨_, -, rfl⟩ := h
  rfl

theorem sound_exchange {exchange : CollectionExchange}
    (h : collection.exchange anchor integrityMode = .ok exchange) :
    Sound collection anchor exchange := by
  cases collection with
  | erc20 collector token frozen =>
    unfold ValueCollection.exchange at h
    simp only [except_bind_eq_ok_iff, except_pure_eq_ok_iff] at h
    obtain ⟨request, hrequest, rfl⟩ := h
    exact sound_map (fun _ => rfl)
      (fun hnodup _ _ => Erc20Collector.exists_materialize hrequest hnodup)
      (Erc20Collector.materialize_unnumbered collector token frozen integrityMode request)
      (fun _ _ hsame hbatches => Erc20Collector.materialize_congr hsame hbatches _ _ _ _ _)
      fun _ _ => Erc20Collector.batches_materialize
  | aToken collector token frozen =>
    unfold ValueCollection.exchange at h
    simp only [except_bind_eq_ok_iff, except_pure_eq_ok_iff] at h
    obtain ⟨request, hrequest, rfl⟩ := h
    exact sound_map (fun _ => rfl)
      (fun hnodup _ _ => ATokenCollector.exists_materialize hrequest hnodup)
      (ATokenCollector.materialize_unnumbered token frozen integrityMode request)
      (fun _ _ hsame hbatches => ATokenCollector.materialize_congr hsame hbatches _ _ _ _)
      fun _ _ => ATokenCollector.batches_materialize
  | reserves pool =>
    unfold ValueCollection.exchange at h
    simp only [except_bind_eq_ok_iff, except_pure_eq_ok_iff] at h
    obtain ⟨request, hrequest, rfl⟩ := h
    exact sound_map (fun _ => rfl)
      (fun hnodup _ _ => PoolReserveCollector.exists_materialize hrequest hnodup)
      (PoolReserveCollector.materialize_unnumbered pool integrityMode request)
      (fun _ _ hsame hbatches => PoolReserveCollector.materialize_congr hsame hbatches _ _ _)
      fun _ _ => PoolReserveCollector.batches_materialize

/-- A run that was answered asked the one request of its exchange and made its result of the answer. -/
theorem exists_exchange {t : List (Sigma ExecuteAns)} {r : Except CollectorFault CollectionResult}
    (hrun : Runs (collection.collect anchor integrityMode) t r) {op : ExecuteOp}
    {batches : List VerifiedBatchResult} (hanswer : (⟨op, .ok batches⟩ : Sigma ExecuteAns) ∈ t) :
    ∃ exchange, collection.exchange anchor integrityMode = .ok exchange ∧
      (exchange.specs.map (·.call.key)).Nodup ∧ op = ⟨exchange.specs.map (·.call), anchor⟩ ∧
        r = decodeBatches exchange.specs anchor batches >>= exchange.finish := by
  have hnil : t ≠ [] := List.ne_nil_of_mem hanswer
  rw [collect_eq_exchange] at hrun
  cases hexchange : collection.exchange anchor integrityMode with
  | error message =>
    rw [hexchange] at hrun
    exact absurd (runs_raise_iff.mp hrun).1 hnil
  | ok exchange =>
    rw [hexchange] at hrun
    change Runs (executeUintCalls exchange.specs anchor >>= fun decoded =>
      ofExcept (exchange.finish decoded)) t r at hrun
    unfold executeUintCalls at hrun
    cases hduplicate : duplicateKey [] (exchange.specs.map (·.call.key)) with
    | some key =>
      rw [hduplicate] at hrun
      exact absurd (runs_raise_iff.mp hrun).1 hnil
    | none =>
      rw [hduplicate] at hrun
      change Runs (.call (⟨exchange.specs.map (·.call), anchor⟩ : ExecuteOp) _) t r at hrun
      obtain ⟨answer, t', rfl, hrest⟩ := runs_call_iff.mp hrun
      refine ⟨exchange, rfl, (duplicateKey_eq_none_iff.mp hduplicate).2, ?_⟩
      cases answer with
      | error fault =>
        obtain ⟨rfl, -⟩ := runs_raise_iff.mp hrest
        cases List.mem_singleton.mp hanswer
      | ok batches' =>
        have hdecode : t' = [] ∧ r = decodeBatches exchange.specs anchor batches' >>= exchange.finish := by
          change Runs (ofExcept (decodeBatches exchange.specs anchor batches') >>= fun decoded =>
            ofExcept (exchange.finish decoded)) t' r at hrest
          cases hdecoded : decodeBatches exchange.specs anchor batches' with
          | error fault =>
            rw [hdecoded] at hrest
            exact runs_raise_iff.mp hrest
          | ok decoded =>
            rw [hdecoded] at hrest
            exact runs_ofExcept_iff.mp hrest
        obtain ⟨rfl, hr⟩ := hdecode
        cases List.mem_singleton.mp hanswer
        exact ⟨rfl, hr⟩

/-- Such a run returns exactly on an accepted answer. -/
theorem returns_iff_accepted {exchange : CollectionExchange}
    (hexchange : collection.exchange anchor integrityMode = .ok exchange)
    (hnodup : (exchange.specs.map (·.call.key)).Nodup) {batches : List VerifiedBatchResult} :
    (∃ result, decodeBatches exchange.specs anchor batches >>= exchange.finish = .ok result) ↔
      Accepted (exchange.specs.map (·.call.key)) anchor batches := by
  constructor
  · rintro ⟨result, hresult⟩
    obtain ⟨decoded, hdecoded, -⟩ := except_bind_eq_ok_iff.mp hresult
    exact (decodeBatches_eq_ok_iff.mp hdecoded).1
  · intro haccepted
    have hdecoded := decodeBatches_eq_ok_iff.mpr ⟨haccepted, rfl⟩
    obtain ⟨result, hresult, -⟩ := (sound_exchange hexchange).total hnodup _ _ hdecoded
    exact ⟨result, except_bind_eq_ok_iff.mpr ⟨_, hdecoded, hresult⟩⟩

/-- Accepted answers with the same results give results of the same contents. -/
theorem contents_of_results {exchange : CollectionExchange}
    (hexchange : collection.exchange anchor integrityMode = .ok exchange)
    (hnodup : (exchange.specs.map (·.call.key)).Nodup) {batches₁ batches₂ : List VerifiedBatchResult}
    {result₁ result₂ : CollectionResult}
    (h₁ : decodeBatches exchange.specs anchor batches₁ >>= exchange.finish = .ok result₁)
    (h₂ : decodeBatches exchange.specs anchor batches₂ >>= exchange.finish = .ok result₂)
    (hsame : ∀ raw, raw ∈ rawResults batches₁ ↔ raw ∈ rawResults batches₂) :
    result₁.contents = result₂.contents := by
  obtain ⟨decoded₁, hdecoded₁, hfinish₁⟩ := except_bind_eq_ok_iff.mp h₁
  obtain ⟨decoded₂, hdecoded₂, hfinish₂⟩ := except_bind_eq_ok_iff.mp h₂
  have hsound := sound_exchange hexchange
  have hcongr := hsound.congr _ _ (sameCalls_of_results hnodup hdecoded₁ hdecoded₂ hsame) rfl
  rw [hsound.contents, hsound.contents, hfinish₁, hfinish₂] at hcongr
  exact Except.ok.inj hcongr

/-- Every batch of a result is verified. -/
theorem verified_batches {exchange : CollectionExchange}
    (hexchange : collection.exchange anchor integrityMode = .ok exchange)
    {batches : List VerifiedBatchResult} {result : CollectionResult}
    (h : decodeBatches exchange.specs anchor batches >>= exchange.finish = .ok result) :
    ∀ batch ∈ result.outcome.batches, batch.evidence.verified = true := by
  obtain ⟨decoded, hdecoded, hfinish⟩ := except_bind_eq_ok_iff.mp h
  obtain ⟨haccepted, rfl⟩ := decodeBatches_eq_ok_iff.mp hdecoded
  rw [(sound_exchange hexchange).evidence _ _ hfinish]
  exact haccepted.evidence _

end Exchange

/-! ## Answers in batches -/

/-- A batch of the successful results of some calls. -/
def answeredBatch (answer : String → List UInt8) (anchor : BlockRef) (calls : List ContractCall)
    (digest : String) : VerifiedBatchResult :=
  ⟨calls.map (answered answer), ⟨.multicall3, "eip1898", anchor.blockHash, ["p"], digest, true⟩⟩

/-- Results of calls are accepted in any batches that together are the calls. -/
theorem exists_accepted {answer : String → List UInt8} (anchor : BlockRef)
    {parts : List (List ContractCall)} (hkeys : (parts.flatten.map (·.key)).Nodup)
    (hsize : ∀ call ∈ parts.flatten,
      (utf8 call.key).length < 256 ^ 4 ∧ (answer call.key).length < 256 ^ 4) :
    ∃ batches, batches.length = parts.length ∧
      rawResults batches = parts.flatten.map (answered answer) ∧
        Accepted (parts.flatten.map (·.key)) anchor batches := by
  have hbatches : ∃ batches : List VerifiedBatchResult, batches.length = parts.length ∧
      rawResults batches = parts.flatten.map (answered answer) ∧
        ∀ batch ∈ batches, VerifiedFor anchor batch := by
    clear hkeys
    induction parts with
    | nil => exact ⟨[], rfl, rfl, fun batch hbatch => absurd hbatch List.not_mem_nil⟩
    | cons calls rest ih =>
      rw [List.flatten_cons] at hsize
      obtain ⟨hcalls, hrest⟩ := List.forall_mem_append.mp hsize
      obtain ⟨batches, hlength, hraw, hverified⟩ := ih hrest
      obtain ⟨digest, hdigest⟩ := exists_digest hcalls
      refine ⟨answeredBatch answer anchor calls digest :: batches, by simp [hlength], ?_, ?_⟩
      · rw [List.flatten_cons, List.map_append, ← hraw]
        rfl
      · exact List.forall_mem_cons.mpr ⟨⟨rfl, rfl, hdigest⟩, hverified⟩
  obtain ⟨batches, hlength, hraw, hverified⟩ := hbatches
  have hmap : (rawResults batches).map RawCallResult.key = parts.flatten.map (·.key) := by
    rw [hraw, List.map_map]
    rfl
  refine ⟨batches, hlength, hraw, hverified, ?_, ?_⟩
  · rw [hmap]
    exact hkeys
  · intro key
    rw [hmap]

/-- The run of an exchange that is answered with batches. -/
theorem runs_exchange {collection : ValueCollection} {anchor : BlockRef} {integrityMode : IntegrityMode}
    {exchange : CollectionExchange}
    (hexchange : collection.exchange anchor integrityMode = .ok exchange)
    (hnodup : (exchange.specs.map (·.call.key)).Nodup) (batches : List VerifiedBatchResult) :
    Runs (collection.collect anchor integrityMode)
      [⟨⟨exchange.specs.map (·.call), anchor⟩, .ok batches⟩]
      (decodeBatches exchange.specs anchor batches >>= exchange.finish) := by
  have hduplicate : duplicateKey [] (exchange.specs.map (·.call.key)) = none :=
    duplicateKey_eq_none_iff.mpr ⟨fun _ _ => List.not_mem_nil, hnodup⟩
  rw [collect_eq_exchange, hexchange]
  show Runs (executeUintCalls exchange.specs anchor >>= fun decoded =>
    ofExcept (exchange.finish decoded)) _ _
  unfold executeUintCalls
  rw [hduplicate]
  apply Runs.call
  show Runs (ofExcept (decodeBatches exchange.specs anchor batches) >>= fun decoded =>
    ofExcept (exchange.finish decoded)) [] _
  cases decodeBatches exchange.specs anchor batches with
  | error fault => exact .raise fault
  | ok decoded => exact runs_ofExcept_iff.mpr ⟨rfl, rfl⟩

/-- A deployed pool of distinct assets has one call for each. -/
theorem PoolReserveCollector.exists_request {pool : PoolConfig} {anchor : BlockRef}
    (hdeployed : pool.deploymentBlock ≤ anchor.number) (hnodup : pool.assets.Nodup) :
    ∃ request, PoolReserveCollector.request pool anchor .poolAssets = .ok request ∧
      request.map (fun x => x.2.call.key) =
        (sortBy id pool.assets).map fun asset => s!"reserve/{pool.address}/{asset}" := by
  obtain ⟨bytes, hbytes⟩ := exists_addressWord pool.address_ok
  have hspec : ∀ asset ∈ sortBy id pool.assets, ∃ x, reserveSpec pool asset = .ok x := by
    intro asset _
    unfold reserveSpec balanceOfCalldata
    rw [hbytes]
    exact ⟨_, rfl⟩
  obtain ⟨request, hrequest⟩ := mapM_isOk hspec
  refine ⟨request, ?_, ?_⟩
  · rw [request_eq_ok_iff]
    refine ⟨?_, hrequest⟩
    unfold assertCollectible
    simp [check, hdeployed, hnodup]
  · have hall := mapM_eq_ok_iff.mp hrequest
    generalize sortBy id pool.assets = assets at hall
    clear hrequest
    induction hall with
    | nil => rfl
    | cons hx _ ih => rw [List.map_cons, List.map_cons, ih, (reads_reserveSpec hx).keyed]

theorem nodup_reserveKeys {pool : PoolConfig} (hnodup : pool.assets.Nodup) :
    ((sortBy id pool.assets).map fun asset => s!"reserve/{pool.address}/{asset}").Nodup := by
  refine ((sortBy_perm id pool.assets).nodup_iff.mpr hnodup).map ?_
  intro asset other h
  exact (String.append_right_inj _).mp h

/-- An exchange that is answered in two batches, and in one. -/
theorem exists_two_runs {collection : ValueCollection} {anchor : BlockRef}
    {integrityMode : IntegrityMode} {exchange : CollectionExchange} (answer : String → List UInt8)
    (hexchange : collection.exchange anchor integrityMode = .ok exchange)
    (hnodup : (exchange.specs.map (·.call.key)).Nodup)
    (hsize : ∀ key ∈ exchange.specs.map (·.call.key),
      (utf8 key).length < 256 ^ 4 ∧ (answer key).length < 256 ^ 4) :
    ∃ (batches batches' : List VerifiedBatchResult) (result result' : CollectionResult),
      Runs (collection.collect anchor integrityMode)
          [⟨⟨exchange.specs.map (·.call), anchor⟩, .ok batches⟩] (.ok result) ∧
        Runs (collection.collect anchor integrityMode)
          [⟨⟨exchange.specs.map (·.call), anchor⟩, .ok batches'⟩] (.ok result') ∧
        batches.length = 2 ∧ batches'.length = 1 ∧
        ∀ raw, raw ∈ rawResults batches ↔ raw ∈ rawResults batches' := by
  let calls := exchange.specs.map (·.call)
  have hkeys : calls.map (·.key) = exchange.specs.map (·.call.key) := List.map_map
  have hcalls : ∀ call ∈ calls, (utf8 call.key).length < 256 ^ 4 ∧ (answer call.key).length < 256 ^ 4 :=
    fun call hcall => hsize call.key (hkeys ▸ List.mem_map_of_mem hcall)
  -- Any division of the calls is accepted and gives a result.
  have hanswered : ∀ parts : List (List ContractCall), parts.flatten = calls →
      ∃ batches result, batches.length = parts.length ∧
        rawResults batches = calls.map (answered answer) ∧
        Runs (collection.collect anchor integrityMode) [⟨⟨calls, anchor⟩, .ok batches⟩] (.ok result) := by
    intro parts hparts
    have hpartKeys : (parts.flatten.map (·.key)).Nodup := by
      rw [hparts, hkeys]
      exact hnodup
    obtain ⟨batches, hlength, hraw, haccepted⟩ :=
      exists_accepted anchor hpartKeys (hparts.symm ▸ hcalls)
    rw [hparts] at hraw haccepted
    rw [hkeys] at haccepted
    obtain ⟨result, hresult⟩ := (returns_iff_accepted hexchange hnodup).mpr haccepted
    exact ⟨batches, result, hlength, hraw, hresult ▸ runs_exchange hexchange hnodup batches⟩
  have hsplit : [calls.take 1, calls.drop 1].flatten = calls := by
    rw [List.flatten_cons, List.flatten_singleton, List.take_append_drop]
  obtain ⟨batches, result, hlength, hraw, hrun⟩ := hanswered [calls.take 1, calls.drop 1] hsplit
  obtain ⟨batches', result', hlength', hraw', hrun'⟩ := hanswered [calls] (by simp)
  exact ⟨batches, batches', result, result', hrun, hrun', hlength, hlength', fun raw => by
    rw [hraw, hraw']⟩

/-- The request of the sample pool's reserves. -/
theorem exists_sample_exchange : ∃ exchange,
    (ValueCollection.reserves samplePool).exchange sampleAnchor .poolAssets = .ok exchange ∧
      (exchange.specs.map (·.call.key)).Nodup ∧
        ∀ key ∈ exchange.specs.map (·.call.key), (utf8 key).length < 256 ^ 4 := by
  have hassets : samplePool.assets.Nodup := by decide
  have hdeployed : samplePool.deploymentBlock ≤ sampleAnchor.number := by decide
  obtain ⟨request, hrequest, hkeys⟩ := PoolReserveCollector.exists_request hdeployed hassets
  have hspecKeys : (request.map Prod.snd).map (·.call.key) =
      (sortBy id samplePool.assets).map fun asset => s!"reserve/{samplePool.address}/{asset}" := by
    rw [List.map_map, ← hkeys]
    rfl
  refine ⟨⟨request.map Prod.snd, fun decoded =>
    (PoolReserveCollector.materialize samplePool .poolAssets request decoded).map .pool⟩, ?_, ?_, ?_⟩
  · unfold ValueCollection.exchange
    dsimp only
    rw [hrequest]
    rfl
  · rw [hspecKeys]
    exact nodup_reserveKeys hassets
  · rw [hspecKeys]
    intro key hkey
    obtain ⟨asset, hasset, rfl⟩ := List.mem_map.mp hkey
    have hshort : ∀ asset ∈ samplePool.assets,
        (utf8 s!"reserve/{samplePool.address}/{asset}").length < 256 ^ 4 := by decide
    exact hshort asset (mem_sortBy.mp hasset)

/-- An answered collection returns exactly on an accepted answer.  Its result gives every holder or asset
one row, with its value, or errors and no row; and a result of the same results under other batches has
the same contents, digest, checks and verdict. -/
theorem observations_total_and_batch_independent (collection : ValueCollection) (anchor : BlockRef)
    (integrityMode : IntegrityMode) {t : List (Sigma ExecuteAns)}
    {r : Except CollectorFault CollectionResult}
    (hrun : Runs (collection.collect anchor integrityMode) t r) {op : ExecuteOp}
    {batches : List VerifiedBatchResult} (hanswer : (⟨op, .ok batches⟩ : Sigma ExecuteAns) ∈ t) :
    ((∃ result, r = .ok result) ↔ Accepted (op.calls.map (·.key)) anchor batches) ∧
      (∀ result, r = .ok result → Materialized collection batches result) ∧
      ∀ {t' : List (Sigma ExecuteAns)} {r' : Except CollectorFault CollectionResult} {op' : ExecuteOp}
        {batches' : List VerifiedBatchResult},
        Runs (collection.collect anchor integrityMode) t' r' →
        (⟨op', .ok batches'⟩ : Sigma ExecuteAns) ∈ t' →
        (∀ raw, raw ∈ rawResults batches ↔ raw ∈ rawResults batches') →
        ∀ result result', r = .ok result → r' = .ok result' →
          result.contents = result'.contents ∧ result.resultDigest = result'.resultDigest ∧
            result.outcome.integrityChecks = result'.outcome.integrityChecks ∧
            result.outcome.verified = result'.outcome.verified := by
  obtain ⟨exchange, hexchange, hnodup, rfl, rfl⟩ := exists_exchange hrun hanswer
  refine ⟨?_, ?_, ?_⟩
  · rw [List.map_map]
    exact returns_iff_accepted hexchange hnodup
  · intro result hresult
    obtain ⟨decoded, hdecoded, hfinish⟩ := except_bind_eq_ok_iff.mp hresult
    obtain ⟨result', hresult', hmaterialized⟩ :=
      (sound_exchange hexchange).total hnodup batches decoded hdecoded
    rw [hfinish] at hresult'
    exact Except.ok.inj hresult' ▸ hmaterialized
  · intro t' r' op' batches' hrun' hanswer' hsame result result' hresult hresult'
    obtain ⟨exchange', hexchange', -, rfl, rfl⟩ := exists_exchange hrun' hanswer'
    obtain rfl : exchange = exchange' := Except.ok.inj (hexchange.symm.trans hexchange')
    have hcontents := contents_of_results hexchange hnodup hresult hresult' hsame
    have houtcome : result.outcome.contents = result'.outcome.contents := by
      rw [← outcome_contents, hcontents, outcome_contents]
    refine ⟨hcontents, ?_, ?_, ?_⟩
    · rw [← resultDigest_contents, hcontents, resultDigest_contents]
    · show result.outcome.contents.integrityChecks = result'.outcome.contents.integrityChecks
      rw [houtcome]
    · rw [← verified_contents (verified_batches hexchange hresult), houtcome,
        verified_contents (verified_batches hexchange hresult')]

theorem observations_total_and_batch_independent_sample :
    ∃ (op : ExecuteOp) (batches batches' : List VerifiedBatchResult) (result result' : CollectionResult),
      Runs ((ValueCollection.reserves samplePool).collect sampleAnchor .poolAssets)
          [⟨op, .ok batches⟩] (.ok result) ∧
        Runs ((ValueCollection.reserves samplePool).collect sampleAnchor .poolAssets)
          [⟨op, .ok batches'⟩] (.ok result') ∧
        batches.length = 2 ∧ batches'.length = 1 ∧
        Accepted (op.calls.map (·.key)) sampleAnchor batches ∧
        Materialized (.reserves samplePool) batches result ∧ result.contents = result'.contents ∧
        result.resultDigest = result'.resultDigest ∧
        result.outcome.integrityChecks = result'.outcome.integrityChecks ∧
        result.outcome.verified = result'.outcome.verified := by
  obtain ⟨exchange, hexchange, hnodup, hsize⟩ := exists_sample_exchange
  obtain ⟨batches, batches', result, result', hrun, hrun', hlength, hlength', hsame⟩ :=
    exists_two_runs (fun _ => List.replicate 32 0) hexchange hnodup fun key hkey =>
      ⟨hsize key hkey, by simp⟩
  obtain ⟨haccepted, hmaterialized, hindependent⟩ := observations_total_and_batch_independent
    (.reserves samplePool) sampleAnchor .poolAssets hrun (.head _)
  exact ⟨_, batches, batches', result, result', hrun, hrun', hlength, hlength',
    haccepted.mp ⟨result, rfl⟩, hmaterialized result rfl,
    hindependent hrun' (.head _) hsame result result' rfl rfl⟩

end RpcStateIndexer
