import RpcStateIndexer.Census.Store
import RpcStateIndexer.Storage.DigestsCorrect

/-!
# Read-backs

Before it is published an attempt reads its own rows back and compares their digest with the one
computed from the collected rows.  SHA-256 is assumed injective on the streams that are compared, not
on all of them, so the assumption can hold.
-/

namespace RpcStateIndexer

open Reasoning

inductive ReadbackException where
  | digest (e : DigestException)
  /-- no persisted CL state for the attempt -/
  | noClState (attemptId : Uuid)
  deriving DecidableEq

/-- The digest of the stored CL rows; an attempt without a state row has none. -/
def clDigestOf (scope : AttemptScope) (states : List PoolClStateRow) (ticks : List PoolTickRow) :
    Except ReadbackException String :=
  match states with
  | [] => .error (.noClState scope.attemptId)
  | state :: _ =>
    (digestClObservations state.digestRow (ticks.map PoolTickRow.digestRow)).mapError .digest

def tokenDigestOf (balances : List BalanceRow) (scalars : List ScalarRow) :
    Except ReadbackException String :=
  (digestTokenObservations (balances.map BalanceRow.digestRow)
    (scalars.map ScalarRow.digestRow)).mapError .digest

def poolDigestOf (rows : List PoolBalanceRow) : Except ReadbackException String :=
  (digestPoolObservations (rows.map PoolBalanceRow.digestRow)).mapError .digest

def universeDigestOf (rows : List (String × List String)) : Except ReadbackException String :=
  (digestUniverse rows).mapError .digest

namespace CensusStore

def readbackUniverseDigest (s : CensusStore) (scope : AttemptScope) :
    Except ReadbackException String := universeDigestOf (s.universeRows scope)

def readbackTokenDigest (s : CensusStore) (scope : AttemptScope) :
    Except ReadbackException String := tokenDigestOf (s.balanceRows scope) (s.scalarRows scope)

def readbackPoolDigest (s : CensusStore) (scope : AttemptScope) :
    Except ReadbackException String := poolDigestOf (s.poolBalanceRows scope)

def readbackClDigest (s : CensusStore) (scope : AttemptScope) :
    Except ReadbackException String := clDigestOf scope (s.clStateRows scope) (s.tickRows scope)

end CensusStore

/-- Read back on the fast path; on mismatch re-read with consistency once. -/
def verifiedReadback {m : Type → Type} [Monad m] (read : Bool → m String) (expected : String) :
    m String := do
  let digest ← read false
  if digest = expected then return digest
  read true

/-- A read-back that ends with the expected digest read it on one path or the other. -/
theorem exists_read_of_verifiedReadback {ε : Type} {read : Bool → Except ε String}
    {expected : String} (h : verifiedReadback read expected = .ok expected) :
    ∃ consistent, read consistent = .ok expected := by
  simp only [verifiedReadback, except_bind_eq_ok_iff] at h
  obtain ⟨digest, hdigest, h⟩ := h
  by_cases heq : digest = expected
  · subst heq
    exact ⟨false, hdigest⟩
  · rw [if_neg heq] at h
    exact ⟨true, h⟩

/-! ## Equal digests, equal rows -/

/-- The stream of an input, if it has one, is among those the hash is injective on. -/
def Hashed (S : Set (List UInt8)) (stream : Encoded) : Prop := ∀ s, stream = .ok s → s ∈ S

section Hash

variable {S : Set (List UInt8)}

theorem digest_eq_iff (hS : Set.InjOn sha256 S) {a b : Encoded} {d e : String}
    (ha : (do return hexdigest (sha256 (← a))) = (.ok d : Except DigestException String))
    (hb : (do return hexdigest (sha256 (← b))) = (.ok e : Except DigestException String))
    (hashed_a : Hashed S a) (hashed_b : Hashed S b) :
    ∃ s t, a = .ok s ∧ b = .ok t ∧ (d = e ↔ s = t) := by
  simp only [except_bind_eq_ok_iff, except_pure_eq_ok_iff] at ha hb
  obtain ⟨s, hs, rfl⟩ := ha
  obtain ⟨t, ht, rfl⟩ := hb
  refine ⟨s, t, hs, ht, ?_⟩
  rw [hexdigest_injective.eq_iff]
  exact hS.eq_iff (hashed_a s hs) (hashed_b t ht)

theorem mapError_eq_ok_iff {ε ε' α : Type} {f : ε → ε'} {x : Except ε α} {a : α} :
    x.mapError f = .ok a ↔ x = .ok a := by
  cases x <;> simp [Except.mapError]

variable (hS : Set.InjOn sha256 S)
include hS

theorem digestTokenObservations_eq_iff {b₁ b₂ : List BalanceDigestRow}
    {s₁ s₂ : List ScalarDigestRow} {d₁ d₂ : String} (h₁ : digestTokenObservations b₁ s₁ = .ok d₁)
    (h₂ : digestTokenObservations b₂ s₂ = .ok d₂) (hashed₁ : Hashed S (tokenStream b₁ s₁))
    (hashed₂ : Hashed S (tokenStream b₂ s₂)) : d₁ = d₂ ↔ b₁.Perm b₂ ∧ s₁.Perm s₂ := by
  obtain ⟨x, y, hx, hy, heq⟩ := digest_eq_iff hS h₁ h₂ hashed₁ hashed₂
  rw [heq, tokenStream_eq_iff hx hy]

theorem digestPoolObservations_eq_iff {r₁ r₂ : List PoolBalanceDigestRow} {d₁ d₂ : String}
    (h₁ : digestPoolObservations r₁ = .ok d₁) (h₂ : digestPoolObservations r₂ = .ok d₂)
    (hashed₁ : Hashed S (poolStream r₁)) (hashed₂ : Hashed S (poolStream r₂)) :
    d₁ = d₂ ↔ r₁.Perm r₂ := by
  obtain ⟨x, y, hx, hy, heq⟩ := digest_eq_iff hS h₁ h₂ hashed₁ hashed₂
  rw [heq, poolStream_eq_iff hx hy]

theorem digestUniverse_eq_iff {m₁ m₂ : List (String × List String)} {d₁ d₂ : String}
    (h₁ : digestUniverse m₁ = .ok d₁) (h₂ : digestUniverse m₂ = .ok d₂)
    (hashed₁ : Hashed S (universeStream m₁)) (hashed₂ : Hashed S (universeStream m₂)) :
    d₁ = d₂ ↔ ∀ address, sourcesOf m₁ address = sourcesOf m₂ address := by
  obtain ⟨x, y, hx, hy, heq⟩ := digest_eq_iff hS h₁ h₂ hashed₁ hashed₂
  rw [heq, universeStream_eq_iff hx hy]

theorem digestClObservations_eq_iff {c₁ c₂ : PoolClStateDigestRow}
    {t₁ t₂ : List PoolTickDigestRow} {d₁ d₂ : String}
    (hd₁ : (t₁.map PoolTickDigestRow.tick).Nodup) (hd₂ : (t₂.map PoolTickDigestRow.tick).Nodup)
    (h₁ : digestClObservations c₁ t₁ = .ok d₁) (h₂ : digestClObservations c₂ t₂ = .ok d₂)
    (hashed₁ : Hashed S (clStream c₁ t₁)) (hashed₂ : Hashed S (clStream c₂ t₂)) :
    d₁ = d₂ ↔ c₁ = c₂ ∧ ∀ row, row ∈ t₁ ↔ row ∈ t₂ := by
  obtain ⟨x, y, hx, hy, heq⟩ := digest_eq_iff hS h₁ h₂ hashed₁ hashed₂
  rw [heq, clStream_eq_iff hd₁ hd₂ hx hy]

end Hash

/-! ## Stored ticks -/

/-- A replacing table holds one row of an attempt for each value of its column. -/
theorem observationsOf_inj {α κ : Type} [DecidableEq κ] {column : α → κ} {rows : List (Stored α)}
    {scope : AttemptScope} {a b : Stored α} (ha : a ∈ CensusStore.finalOf column rows)
    (hb : b ∈ CensusStore.finalOf column rows) (hsa : a.scope = scope) (hsb : b.scope = scope)
    (h : column a.row = column b.row) : a = b :=
  final_unique ha hb (by rw [Stored.key, Stored.key, hsa, hsb, h])

theorem final_nodup {α κ : Type} [DecidableEq κ] (key : α → κ) (rows : List α) :
    ((final key rows).map key).Nodup := by
  induction rows with
  | nil => simp [final]
  | cons row rows ih =>
    rw [final]
    split
    · exact ih
    · rename_i h
      rw [List.map_cons, List.nodup_cons]
      refine ⟨fun hmem => ?_, ih⟩
      obtain ⟨later, hlater, hkey⟩ := List.mem_map.mp hmem
      exact h (List.any_eq_true.mpr ⟨later, mem_of_mem_final hlater, by simpa using hkey⟩)

theorem observationsOf_nodup {α κ : Type} [DecidableEq κ] (column : α → κ)
    (rows : List (Stored α)) (scope : AttemptScope) :
    ((CensusStore.observationsOf column rows scope).map column).Nodup := by
  rw [CensusStore.observationsOf, List.map_map, CensusStore.finalOf]
  have hkeys := (final_nodup (Stored.key column) rows).of_map
  refine (List.nodup_map_iff_inj_on (hkeys.filter _)).mpr ?_
  intro a ha b hb h
  simp only [List.mem_filter, decide_eq_true_eq] at ha hb
  exact observationsOf_inj ha.1 hb.1 ha.2 hb.2 h

theorem tickRows_nodup (s : CensusStore) (scope : AttemptScope) :
    (((s.tickRows scope).map PoolTickRow.digestRow).map PoolTickDigestRow.tick).Nodup := by
  have hperm := (sortBy_perm PoolTickRow.tick
    (CensusStore.observationsOf PoolTickRow.tick s.poolTicks scope)).map PoolTickRow.tick
  rw [List.map_map]
  exact hperm.nodup_iff.mpr (observationsOf_nodup PoolTickRow.tick s.poolTicks scope)

/-! ## Sound read-backs -/

/-- What the publication protocol relies on.  `replica` is the store that answers the fast read and
the store that answers the consistent one. -/
structure DigestsSound (S : Set (List UInt8)) : Prop where
  token : ∀ b₁ s₁ b₂ s₂ d₁ d₂, digestTokenObservations b₁ s₁ = .ok d₁ →
    digestTokenObservations b₂ s₂ = .ok d₂ → Hashed S (tokenStream b₁ s₁) →
    Hashed S (tokenStream b₂ s₂) → (d₁ = d₂ ↔ b₁.Perm b₂ ∧ s₁.Perm s₂)
  pool : ∀ r₁ r₂ d₁ d₂, digestPoolObservations r₁ = .ok d₁ → digestPoolObservations r₂ = .ok d₂ →
    Hashed S (poolStream r₁) → Hashed S (poolStream r₂) → (d₁ = d₂ ↔ r₁.Perm r₂)
  frozen : ∀ m₁ m₂ d₁ d₂, digestUniverse m₁ = .ok d₁ → digestUniverse m₂ = .ok d₂ →
    Hashed S (universeStream m₁) → Hashed S (universeStream m₂) →
    (d₁ = d₂ ↔ ∀ address, sourcesOf m₁ address = sourcesOf m₂ address)
  cl : ∀ c₁ t₁ c₂ t₂ d₁ d₂, (t₁.map PoolTickDigestRow.tick).Nodup →
    (t₂.map PoolTickDigestRow.tick).Nodup → digestClObservations c₁ t₁ = .ok d₁ →
    digestClObservations c₂ t₂ = .ok d₂ → Hashed S (clStream c₁ t₁) → Hashed S (clStream c₂ t₂) →
    (d₁ = d₂ ↔ c₁ = c₂ ∧ ∀ row, row ∈ t₁ ↔ row ∈ t₂)
  tokenReadback : ∀ (replica : Bool → CensusStore) (scope : AttemptScope)
    (r : TokenCollectionResult) (expected : String), r.resultDigest = .ok expected →
    Hashed S (tokenStream (r.balances.map BalanceRow.digestRow)
      (r.scalars.map ScalarRow.digestRow)) →
    (∀ c, Hashed S (tokenStream (((replica c).balanceRows scope).map BalanceRow.digestRow)
      (((replica c).scalarRows scope).map ScalarRow.digestRow))) →
    verifiedReadback (fun c => (replica c).readbackTokenDigest scope) expected = .ok expected →
    ∃ c, (((replica c).balanceRows scope).map BalanceRow.digestRow).Perm
        (r.balances.map BalanceRow.digestRow) ∧
      (((replica c).scalarRows scope).map ScalarRow.digestRow).Perm
        (r.scalars.map ScalarRow.digestRow)
  poolReadback : ∀ (replica : Bool → CensusStore) (scope : AttemptScope)
    (r : PoolCollectionResult) (expected : String), r.resultDigest = .ok expected →
    Hashed S (poolStream (r.balances.map PoolBalanceRow.digestRow)) →
    (∀ c, Hashed S (poolStream (((replica c).poolBalanceRows scope).map
      PoolBalanceRow.digestRow))) →
    verifiedReadback (fun c => (replica c).readbackPoolDigest scope) expected = .ok expected →
    ∃ c, (((replica c).poolBalanceRows scope).map PoolBalanceRow.digestRow).Perm
      (r.balances.map PoolBalanceRow.digestRow)
  frozenReadback : ∀ (replica : Bool → CensusStore) (scope : AttemptScope)
    (members : List (String × List String)) (expected : String),
    digestUniverse members = .ok expected → Hashed S (universeStream members) →
    (∀ c, Hashed S (universeStream ((replica c).universeRows scope))) →
    verifiedReadback (fun c => (replica c).readbackUniverseDigest scope) expected = .ok expected →
    ∃ c, ∀ address, sourcesOf ((replica c).universeRows scope) address = sourcesOf members address
  clReadback : ∀ (replica : Bool → CensusStore) (scope : AttemptScope)
    (r : PoolClCollectionResult) (expected : String),
    (r.ticks.map PoolTickRow.tick).Nodup → r.resultDigest = .ok expected →
    Hashed S (clStream r.state.digestRow (r.ticks.map PoolTickRow.digestRow)) →
    (∀ c, ∀ state ∈ (replica c).clStateRows scope, Hashed S (clStream state.digestRow
      (((replica c).tickRows scope).map PoolTickRow.digestRow))) →
    verifiedReadback (fun c => (replica c).readbackClDigest scope) expected = .ok expected →
    ∃ c, ∃ state, (replica c).clStateRows scope = [state] ∧
      state.digestRow = r.state.digestRow ∧
      ∀ row, row ∈ ((replica c).tickRows scope).map PoolTickRow.digestRow ↔
        row ∈ r.ticks.map PoolTickRow.digestRow

theorem digests_sound {S : Set (List UInt8)} (hS : Set.InjOn sha256 S) : DigestsSound S where
  token _ _ _ _ _ _ h₁ h₂ hashed₁ hashed₂ :=
    digestTokenObservations_eq_iff hS h₁ h₂ hashed₁ hashed₂
  pool _ _ _ _ h₁ h₂ hashed₁ hashed₂ := digestPoolObservations_eq_iff hS h₁ h₂ hashed₁ hashed₂
  frozen _ _ _ _ h₁ h₂ hashed₁ hashed₂ := digestUniverse_eq_iff hS h₁ h₂ hashed₁ hashed₂
  cl _ _ _ _ _ _ hd₁ hd₂ h₁ h₂ hashed₁ hashed₂ :=
    digestClObservations_eq_iff hS hd₁ hd₂ h₁ h₂ hashed₁ hashed₂
  tokenReadback := by
    intro replica scope r expected hexpected hashed hstored hread
    obtain ⟨c, hc⟩ := exists_read_of_verifiedReadback hread
    have hc : digestTokenObservations _ _ = .ok expected := mapError_eq_ok_iff.mp hc
    exact ⟨c, (digestTokenObservations_eq_iff hS hc hexpected (hstored c) hashed).mp rfl⟩
  poolReadback := by
    intro replica scope r expected hexpected hashed hstored hread
    obtain ⟨c, hc⟩ := exists_read_of_verifiedReadback hread
    have hc : digestPoolObservations _ = .ok expected := mapError_eq_ok_iff.mp hc
    exact ⟨c, (digestPoolObservations_eq_iff hS hc hexpected (hstored c) hashed).mp rfl⟩
  frozenReadback := by
    intro replica scope members expected hexpected hashed hstored hread
    obtain ⟨c, hc⟩ := exists_read_of_verifiedReadback hread
    have hc : digestUniverse _ = .ok expected := mapError_eq_ok_iff.mp hc
    exact ⟨c, (digestUniverse_eq_iff hS hc hexpected (hstored c) hashed).mp rfl⟩
  clReadback := by
    intro replica scope r expected hticks hexpected hashed hstored hread
    obtain ⟨c, hc⟩ := exists_read_of_verifiedReadback hread
    have hlen : ((replica c).clStateRows scope).length ≤ 1 := List.length_take_le 1 _
    simp only [CensusStore.readbackClDigest] at hc
    have hticks' : ((r.ticks.map PoolTickRow.digestRow).map PoolTickDigestRow.tick).Nodup := by
      rw [List.map_map]
      exact hticks
    cases hstates : (replica c).clStateRows scope with
    | nil =>
      rw [hstates] at hc
      simp [clDigestOf] at hc
    | cons state rest =>
      rw [hstates] at hc hlen
      have hdigest : digestClObservations _ _ = .ok expected := mapError_eq_ok_iff.mp hc
      have hrest : rest = [] := by simpa using hlen
      subst hrest
      have hstate : state ∈ (replica c).clStateRows scope := by simp [hstates]
      have hsame := (digestClObservations_eq_iff hS (tickRows_nodup (replica c) scope) hticks'
        hdigest hexpected (hstored c state hstate) hashed).mp rfl
      exact ⟨c, state, hstates, hsame⟩

/-! ## A run on concrete rows -/

/-- An address of one repeated digit. -/
def digitAddress (digit : Char) : String := hexText (List.replicate 40 digit)

/-- Two holders, one with a scaled balance of zero and one with none. -/
def sampleBalances : List BalanceDigestRow :=
  [⟨digitAddress 'b', 5, some 0, "direct"⟩, ⟨digitAddress 'a', 7, none, "direct"⟩]

def sampleBalancesUnscaled : List BalanceDigestRow :=
  [⟨digitAddress 'b', 5, none, "direct"⟩, ⟨digitAddress 'a', 7, none, "direct"⟩]

def streamOf (balances : List BalanceDigestRow) : List UInt8 :=
  ((tokenStream balances []).toOption).getD []

theorem sampleStreams_injOn :
    Set.InjOn sha256 {streamOf sampleBalances, streamOf sampleBalancesUnscaled} := by
  have hne : sha256 (streamOf sampleBalances) ≠ sha256 (streamOf sampleBalancesUnscaled) := by
    decide +kernel
  intro s hs t ht h
  rcases hs with rfl | rfl <;> rcases ht with rfl | rfl
  · rfl
  · exact absurd h hne
  · exact absurd h.symm hne
  · rfl

/-- The order of the rows does not show in the digest, a missing scaled balance does. -/
theorem digests_sound_sample :
    digestTokenObservations sampleBalances [] =
        digestTokenObservations sampleBalances.reverse [] ∧
      digestTokenObservations sampleBalances [] ≠
        digestTokenObservations sampleBalancesUnscaled [] := by
  have hsound := digests_sound sampleStreams_injOn
  have hok : ∀ balances ∈ [sampleBalances, sampleBalances.reverse, sampleBalancesUnscaled],
      tokenStream balances [] = .ok (streamOf balances) := by
    decide +kernel
  have hsame : streamOf sampleBalances.reverse = streamOf sampleBalances := by decide +kernel
  have hdigest : ∀ balances ∈ [sampleBalances, sampleBalances.reverse, sampleBalancesUnscaled],
      digestTokenObservations balances [] = .ok (hexdigest (sha256 (streamOf balances))) := by
    intro balances hmem
    rw [digestTokenObservations, hok balances hmem]
    rfl
  have hashed : ∀ balances ∈ [sampleBalances, sampleBalances.reverse, sampleBalancesUnscaled],
      Hashed {streamOf sampleBalances, streamOf sampleBalancesUnscaled}
        (tokenStream balances []) := by
    intro balances hmem s hs
    rw [hok balances hmem] at hs
    obtain rfl := Except.ok.inj hs
    simp only [List.mem_cons, List.not_mem_nil, or_false] at hmem
    rcases hmem with rfl | rfl | rfl
    · exact .inl rfl
    · exact .inl hsame
    · exact .inr rfl
  constructor
  · rw [hdigest _ (by simp), hdigest _ (by simp), Except.ok.injEq]
    exact (hsound.token _ _ _ _ _ _ (hdigest _ (by simp)) (hdigest _ (by simp))
      (hashed _ (by simp)) (hashed _ (by simp))).mpr
        ⟨(List.reverse_perm _).symm, .refl []⟩
  · rw [hdigest _ (by simp), hdigest _ (by simp)]
    intro h
    have hperm := ((hsound.token _ _ _ _ _ _ (hdigest _ (by simp)) (hdigest _ (by simp))
      (hashed _ (by simp)) (hashed _ (by simp))).mp (Except.ok.inj h)).1
    exact absurd hperm (by decide)

end RpcStateIndexer
