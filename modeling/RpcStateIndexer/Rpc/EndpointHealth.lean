import Mathlib.Logic.Relation
import RpcStateIndexer.Rpc.EndpointPool

/-!
# Endpoint health over a run

`_probe_endpoints` takes an endpoint whose capability probe failed out of service for good: its
cooldown never ends.  A run of the pool is any interleaving of selections with recorded outcomes of
endpoints that were selected before.
-/

namespace RpcStateIndexer

/-- What the probe of an endpoint left behind; it passed, or an `Exception` ended it. -/
structure ProbeOutcome where
  supportsHttpBatch : Bool
  supportsEip1898 : Bool
  archiveFromBlock : Option Nat
  passed : Bool

/-- An endpoint once it is probed. -/
def Endpoint.probed (e : Endpoint) (outcome : ProbeOutcome) : Endpoint where
  config := { e.config with
    supportsHttpBatch := outcome.supportsHttpBatch
    supportsEip1898 := outcome.supportsEip1898
    archiveFromBlock := outcome.archiveFromBlock }
  health := if outcome.passed then e.health
    else { e.health with healthy := false, cooldownUntil := ⊤ }

namespace EndpointPool

def probed (pool : EndpointPool) (probe : String → ProbeOutcome) : EndpointPool where
  endpoints := pool.endpoints.map fun e => e.probed (probe e.config.name)
  cursor := pool.cursor
  nonempty := by simpa using pool.nonempty
  names_nodup := by
    rw [List.map_map]
    exact pool.names_nodup

/-- `_probe_endpoints`; `required` is the provider quorum of the number fallback. -/
def probeEndpoints (pool : EndpointPool) (probe : String → ProbeOutcome) (required : Nat) :
    Except String EndpointPool :=
  let successful := (pool.probed probe).endpoints.filter fun e => (probe e.config.name).passed
  let groups := (successful.map Endpoint.providerGroup).dedup
  if successful = [] then .error "no RPC endpoint passed the safety probes"
  else if !successful.any (fun e => e.config.supportsEip1898) && groups.length < required then
    .error ("no EIP-1898 endpoint and insufficient independent provider groups " ++
      s!"for number/hash quorum ({groups.length}/{required})")
  else .ok (pool.probed probe)

theorem probeEndpoints_eq_ok {pool pool' : EndpointPool} {probe : String → ProbeOutcome}
    {required : Nat} (h : pool.probeEndpoints probe required = .ok pool') :
    pool' = pool.probed probe := by
  rw [probeEndpoints] at h
  split at h
  · cases h
  · split at h
    · cases h
    · exact (Except.ok.inj h).symm

/-! ## Runs of a pool -/

/-- The pool, the clock, and every endpoint a selection has returned. -/
structure RunState where
  pool : EndpointPool
  now : Nat
  returned : List EndpointConfig

/-- A step of any of the requests in flight: time passes, a selection, or the record of an outcome
for an endpoint that some selection returned.  A selection reads the clock anew for each endpoint that it
looks at, and ends when it has read it last. -/
inductive RunStep (ticks : Nat) : RunState → RunState → Prop
  | tick {s : RunState} (now : Nat) (h : s.now ≤ now) : RunStep ticks s { s with now }
  | select {s : RunState} {clock : String → Nat} {now : Nat} (historicalBlock : Option Nat)
    (requireEip1898 : Bool) (exclude : List String) {c : EndpointConfig}
    (hclock : ∀ name, s.now ≤ clock name ∧ clock name ≤ now)
    (h : (s.pool.selectAt clock historicalBlock requireEip1898 exclude).1 = .ok c) :
    RunStep ticks s
      { pool := (s.pool.selectAt clock historicalBlock requireEip1898 exclude).2
        now
        returned := c :: s.returned }
  | selectDistinctGroups {s : RunState} {clock : String → Nat} {now : Nat} (count : Nat)
    (historicalBlock : Option Nat) {chosen : List EndpointConfig}
    (hclock : ∀ name, s.now ≤ clock name ∧ clock name ≤ now)
    (h : s.pool.selectDistinctGroupsAt clock count historicalBlock = .ok chosen) :
    RunStep ticks s { s with now, returned := chosen ++ s.returned }
  | recordSuccess {s : RunState} {c : EndpointConfig} (h : c ∈ s.returned) :
    RunStep ticks s { s with pool := s.pool.recordSuccess c.name }
  | recordFailure {s : RunState} {c : EndpointConfig} (h : c ∈ s.returned) (failover : Bool)
    (historicalBlock : Option Nat) (archiveUnavailable : Bool) :
    RunStep ticks s { s with
      pool := s.pool.recordFailure s.now ticks c.name failover historicalBlock archiveUnavailable }

abbrev Run (ticks : Nat) : RunState → RunState → Prop := Relation.ReflTransGen (RunStep ticks)

/-- The pool returns the endpoint for the block, by one of its two selections, at `now` or later. -/
def Returns (pool : EndpointPool) (now : Nat) (historicalBlock : Option Nat) (c : EndpointConfig) :
    Prop :=
  ∃ clock : String → Nat, (∀ name, now ≤ clock name) ∧
    ((∃ requireEip1898 exclude,
        (pool.selectAt clock historicalBlock requireEip1898 exclude).1 = .ok c) ∨
      ∃ count chosen, pool.selectDistinctGroupsAt clock count historicalBlock = .ok chosen ∧ c ∈ chosen)

/-- Only endpoints that can serve are returned. -/
theorem canServe_of_returns {pool : EndpointPool} {now : Nat} {historicalBlock : Option Nat}
    {c : EndpointConfig} (h : pool.Returns now historicalBlock c) :
    ∃ e ∈ pool.endpoints, e.config = c ∧ ∃ later, e.canServe later historicalBlock = true := by
  obtain ⟨clock, -, h⟩ := h
  rcases h with ⟨requireEip1898, exclude, hselect⟩ | ⟨count, chosen, hselect, hc⟩
  · obtain ⟨e, he, hconfig, hselectable⟩ := selectAt_eq_ok hselect
    rw [selectable, Bool.and_eq_true] at hselectable
    exact ⟨e, he, hconfig, _, hselectable.2⟩
  · unfold selectDistinctGroupsAt at hselect
    split at hselect
    · cases hselect
    · rename_i hcount
      cases hgroups : selectGroups count (fun e => e.canServe (clock e.config.name) historicalBlock)
          pool.endpoints [] with
      | error e =>
        rw [hgroups] at hselect
        cases hselect
      | ok s =>
        rw [hgroups] at hselect
        obtain rfl : s.map Endpoint.config = chosen := Except.ok.inj hselect
        have hpositive : ([] : List Endpoint).length < count := by
          rw [List.length_nil]
          omega
        obtain ⟨-, -, hmem⟩ := (selectGroups_spec hpositive List.nodup_nil).1 s hgroups
        obtain ⟨e, he, rfl⟩ := List.mem_map.mp hc
        rcases hmem e he with hnone | ⟨hpool, hserve⟩
        · exact absurd hnone List.not_mem_nil
        · exact ⟨e, hpool, rfl, _, hserve⟩

theorem selectAt_endpoints (pool : EndpointPool) (clock : String → Nat) (historicalBlock : Option Nat)
    (requireEip1898 : Bool) (exclude : List String) :
    (pool.selectAt clock historicalBlock requireEip1898 exclude).2.endpoints = pool.endpoints := by
  rw [selectAt]
  split
  · split <;> rfl
  · rfl

/-- An endpoint after an update is the endpoint before it, with its health updated if it is the one
named. -/
theorem mem_setHealth {pool : EndpointPool} {name : String}
    {update : EndpointHealth → EndpointHealth} {e : Endpoint} :
    e ∈ (pool.setHealth name update).endpoints ↔ ∃ e₀ ∈ pool.endpoints,
      (if e₀.config.name = name then { e₀ with health := update e₀.health } else e₀) = e := by
  rw [setHealth, List.mem_map]

/-- What every record does to the health of an endpoint is kept by a property of the health. -/
theorem forall_setHealth {pool : EndpointPool} {name : String}
    {update : EndpointHealth → EndpointHealth} {P : EndpointConfig → EndpointHealth → Prop}
    (h : ∀ e ∈ pool.endpoints, P e.config e.health)
    (hupdate : ∀ e ∈ pool.endpoints, e.config.name = name → P e.config (update e.health)) :
    ∀ e ∈ (pool.setHealth name update).endpoints, P e.config e.health := by
  intro e he
  obtain ⟨e₀, he₀, rfl⟩ := mem_setHealth.mp he
  split
  · exact hupdate e₀ he₀ (by assumption)
  · exact h e₀ he₀

/-! ## A rejected endpoint -/

/-- Endpoints that failed their probe are out of service for good, and none was returned. -/
structure Rejects (probe : String → ProbeOutcome) (s : RunState) : Prop where
  out : ∀ e ∈ s.pool.endpoints, (probe e.config.name).passed = false →
    e.health.healthy = false ∧ e.health.cooldownUntil = ⊤
  unused : ∀ c ∈ s.returned, (probe c.name).passed = true

theorem Rejects.passed_of_returns {probe : String → ProbeOutcome} {s : RunState}
    (h : Rejects probe s) {historicalBlock : Option Nat} {c : EndpointConfig}
    (hreturns : s.pool.Returns s.now historicalBlock c) : (probe c.name).passed = true := by
  obtain ⟨e, he, rfl, later, hserve⟩ := canServe_of_returns hreturns
  by_contra hfailed
  obtain ⟨hhealthy, hcooldown⟩ := h.out e he (by simpa using hfailed)
  -- the cooldown lies beyond every instant
  rw [Endpoint.canServe, hhealthy, hcooldown] at hserve
  simp at hserve

theorem rejects_probed (pool : EndpointPool) (probe : String → ProbeOutcome) (now : Nat) :
    Rejects probe ⟨pool.probed probe, now, []⟩ where
  out e he hfailed := by
    obtain ⟨e₀, -, rfl⟩ := List.mem_map.mp he
    have hfailed' : (probe e₀.config.name).passed = false := hfailed
    simp [Endpoint.probed, hfailed']
  unused := List.forall_mem_nil _

/-- One step keeps rejected endpoints out: outcomes are recorded for returned endpoints only. -/
theorem Rejects.step {probe : String → ProbeOutcome} {ticks : Nat} {s s' : RunState}
    (h : Rejects probe s) (hstep : RunStep ticks s s') : Rejects probe s' := by
  have hrecord : ∀ c ∈ s.returned, ∀ update, ∀ e ∈ (s.pool.setHealth c.name update).endpoints,
      (probe e.config.name).passed = false →
        e.health.healthy = false ∧ e.health.cooldownUntil = ⊤ := by
    intro c hc update
    apply forall_setHealth (P := fun config health => (probe config.name).passed = false →
      health.healthy = false ∧ health.cooldownUntil = ⊤) h.out
    intro e _ hname hfailed
    rw [hname, h.unused c hc] at hfailed
    cases hfailed
  cases hstep with
  | tick now hnow => exact ⟨h.out, h.unused⟩
  | select historicalBlock requireEip1898 exclude hclock hselect =>
    refine ⟨?_, List.forall_mem_cons.mpr ⟨?_, h.unused⟩⟩
    · rw [selectAt_endpoints]
      exact h.out
    · exact h.passed_of_returns ⟨_, fun name => (hclock name).1, .inl ⟨_, _, hselect⟩⟩
  | selectDistinctGroups count historicalBlock hclock hselect =>
    refine ⟨h.out, List.forall_mem_append.mpr ⟨?_, h.unused⟩⟩
    intro c hc
    exact h.passed_of_returns ⟨_, fun name => (hclock name).1, .inr ⟨_, _, hselect, hc⟩⟩
  | recordSuccess hc => exact ⟨hrecord _ hc _, h.unused⟩
  | recordFailure hc failover historicalBlock archiveUnavailable =>
    exact ⟨hrecord _ hc _, h.unused⟩

theorem Rejects.run {probe : String → ProbeOutcome} {ticks : Nat} {s s' : RunState}
    (h : Rejects probe s) (hrun : Run ticks s s') : Rejects probe s' := by
  induction hrun with
  | refl => exact h
  | tail _ hstep ih => exact ih.step hstep

/-! ## A block marked out of reach -/

/-- The archive of the named endpoint is marked out of reach through the block, or further. -/
def MarkedThrough (s : RunState) (name : String) (block : Nat) : Prop :=
  ∀ e ∈ s.pool.endpoints, e.config.name = name →
    ∃ last, e.health.archiveUnavailableThrough = some last ∧ block ≤ last

/-- A mark is never lowered: outcomes only raise it. -/
theorem MarkedThrough.step {ticks : Nat} {s s' : RunState} {name : String} {block : Nat}
    (h : MarkedThrough s name block) (hstep : RunStep ticks s s') :
    MarkedThrough s' name block := by
  cases hstep with
  | tick now hnow => exact h
  | select historicalBlock requireEip1898 exclude _ hselect =>
    rw [MarkedThrough, selectAt_endpoints]
    exact h
  | selectDistinctGroups count historicalBlock _ hselect => exact h
  | recordSuccess hc =>
    apply forall_setHealth (P := fun config health => config.name = name →
      ∃ last, health.archiveUnavailableThrough = some last ∧ block ≤ last) h
    intro e he _ hname
    exact h e he hname
  | recordFailure hc failover historicalBlock archiveUnavailable =>
    apply forall_setHealth (P := fun config health => config.name = name →
      ∃ last, health.archiveUnavailableThrough = some last ∧ block ≤ last) h
    intro e he _ hname
    obtain ⟨last, hlast, hle⟩ := h e he hname
    -- failing over changes the rest of the health only
    cases historicalBlock with
    | none => cases failover <;> exact ⟨last, hlast, hle⟩
    | some b =>
      cases archiveUnavailable with
      | false => cases failover <;> exact ⟨last, hlast, hle⟩
      | true =>
        have hmax : block ≤ max (e.health.archiveUnavailableThrough.getD 0) b := by
          rw [hlast]
          exact hle.trans (le_max_left _ _)
        cases failover <;> exact ⟨_, rfl, hmax⟩

theorem MarkedThrough.run {ticks : Nat} {s s' : RunState} {name : String} {block : Nat}
    (h : MarkedThrough s name block) (hrun : Run ticks s s') : MarkedThrough s' name block := by
  induction hrun with
  | refl => exact h
  | tail _ hstep ih => exact ih.step hstep

/-- The mark that a recorded failure leaves. -/
theorem markedThrough_recordFailure {s : RunState} (ticks : Nat) (name : String) (failover : Bool)
    (block : Nat) : MarkedThrough { s with
      pool := s.pool.recordFailure s.now ticks name failover (some block) true } name block := by
  intro e he hname
  obtain ⟨e₀, he₀, rfl⟩ := mem_setHealth.mp he
  split at hname
  · rename_i hnamed
    rw [if_pos hnamed]
    refine ⟨max (e₀.health.archiveUnavailableThrough.getD 0) block, ?_, le_max_right _ _⟩
    cases failover <;> rfl
  · rename_i hother
    exact absurd hname hother

theorem MarkedThrough.not_returns {s : RunState} {c : EndpointConfig} {block block' : Nat}
    (h : MarkedThrough s c.name block) (hle : block' ≤ block) :
    ¬ s.pool.Returns s.now (some block') c := by
  intro hreturns
  obtain ⟨e, he, rfl, later, hserve⟩ := canServe_of_returns hreturns
  obtain ⟨last, hlast, hblock⟩ := h e he rfl
  unfold Endpoint.canServe at hserve
  split at hserve
  · cases hserve
  · simp only [Option.all_some, Endpoint.archiveReaches, hlast, Bool.and_eq_true,
      decide_eq_true_eq] at hserve
    omega

def goodEndpoint : EndpointConfig := ⟨"good", "http://good", "alpha", true, true, none⟩
def badEndpoint : EndpointConfig := ⟨"bad", "http://bad", "beta", true, true, none⟩
def spareEndpoint : EndpointConfig := ⟨"spare", "http://spare", "gamma", true, true, none⟩

/-- Three endpoints, of which one does not pass its probe. -/
def samplePool : EndpointPool where
  endpoints := [⟨goodEndpoint, {}⟩, ⟨badEndpoint, {}⟩, ⟨spareEndpoint, {}⟩]
  cursor := 0
  nonempty := List.cons_ne_nil _ _
  names_nodup := by decide

def sampleProbe (name : String) : ProbeOutcome := ⟨true, true, some 0, name ≠ "bad"⟩

/-- After the probes, in every run: a rejected endpoint is never returned, and one marked
archive-unavailable through a block is never returned for a block up to it. -/
theorem rejected_never_used {pool probedPool : EndpointPool} {probe : String → ProbeOutcome}
    {required : Nat} (hprobe : pool.probeEndpoints probe required = .ok probedPool)
    (ticks now : Nat) {s : RunState} (hrun : Run ticks ⟨probedPool, now, []⟩ s) :
    (∀ c ∈ s.returned, (probe c.name).passed = true) ∧
    (∀ historicalBlock c, s.pool.Returns s.now historicalBlock c →
      (probe c.name).passed = true) ∧
    (∀ c failover block s', Run ticks { s with
        pool := s.pool.recordFailure s.now ticks c.name failover (some block) true } s' →
      ∀ block' ≤ block, ¬ s'.pool.Returns s'.now (some block') c) ∧
    ∀ e ∈ s.pool.endpoints, ∀ block, e.health.archiveUnavailableThrough = some block →
      ∀ s', Run ticks s s' → ∀ block' ≤ block, ¬ s'.pool.Returns s'.now (some block') e.config := by
  obtain rfl := probeEndpoints_eq_ok hprobe
  have hrejects := (rejects_probed pool probe now).run hrun
  refine ⟨hrejects.unused, fun _ _ => hrejects.passed_of_returns, ?_, ?_⟩
  · intro c failover block s' hlater block' hle
    exact ((markedThrough_recordFailure ticks c.name failover block).run hlater).not_returns hle
  · intro e he block hmark s' hlater block' hle
    have hmarked : MarkedThrough s e.config.name block := by
      intro e' he' hname
      obtain rfl := List.inj_on_of_nodup_map s.pool.names_nodup he' he hname
      exact ⟨block, hmark, le_rfl⟩
    exact (hmarked.run hlater).not_returns hle

/-- The first endpoint fails over and is marked through block 5, the spare one fails without failing over;
when the cooldown is over, block 5 still goes to the spare one and block 6 to the first one again. -/
theorem samplePool_run : ∃ s, Run 1 ⟨samplePool.probed sampleProbe, 0, []⟩ s ∧
    s.returned.map EndpointConfig.name = ["good", "spare", "spare", "good"] ∧
    ∃ e ∈ s.pool.endpoints, e.config.name = "good" ∧ e.health.archiveUnavailableThrough = some 5 := by
  have hclock : ∀ now : Nat, ∀ _ : String, now ≤ now ∧ now ≤ now := fun _ _ => ⟨le_rfl, le_rfl⟩
  have h₀ : Run 1 ⟨samplePool.probed sampleProbe, 0, []⟩ _ :=
    .single (.select none true [] (hclock 0) (c := { goodEndpoint with archiveFromBlock := some 0 }) rfl)
  have h₁ := h₀.tail (.recordFailure List.mem_cons_self true (some 5) true)
  have h₂ := h₁.tail (.select (some 5) false [] (hclock 0)
    (c := { spareEndpoint with archiveFromBlock := some 0 }) rfl)
  have h₃ := h₂.tail (.recordFailure List.mem_cons_self false (some 5) false)
  have h₄ := h₃.tail (.tick 100 (Nat.zero_le _))
  have h₅ := h₄.tail (.select (some 5) false [] (hclock 100)
    (c := { spareEndpoint with archiveFromBlock := some 0 }) rfl)
  have h₆ := h₅.tail (.select (some 6) false [] (hclock 100)
    (c := { goodEndpoint with archiveFromBlock := some 0 }) rfl)
  exact ⟨_, h₆, rfl, _, List.mem_cons_self, rfl, rfl⟩

theorem rejected_never_used_sample : ∃ s, Run 1 ⟨samplePool.probed sampleProbe, 0, []⟩ s ∧
    s.returned.map EndpointConfig.name = ["good", "spare", "spare", "good"] ∧
    (∀ historicalBlock c, s.pool.Returns s.now historicalBlock c →
      (sampleProbe c.name).passed = true) ∧
    ∃ e ∈ s.pool.endpoints, e.config.name = "good" ∧
      ∀ s', Run 1 s s' → ∀ block ≤ 5, ¬ s'.pool.Returns s'.now (some block) e.config := by
  have hprobe : samplePool.probeEndpoints sampleProbe 2 = .ok (samplePool.probed sampleProbe) := rfl
  obtain ⟨s, hrun, hreturned, e, he, hname, hmark⟩ := samplePool_run
  obtain ⟨-, hpassed, -, hmarked⟩ := rejected_never_used hprobe 1 0 hrun
  exact ⟨s, hrun, hreturned, hpassed, e, he, hname, hmarked e he 5 hmark⟩

end EndpointPool

end RpcStateIndexer
