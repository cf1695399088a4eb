import RpcStateIndexer.Config.Loader

/-!
# The effective configuration of a target

The payload whose hash identifies what a job measures of a target.  It reads the chain, the job, the
target and what the job's universe leads to; more of a catalog does not change it.
-/

namespace RpcStateIndexer

open Reasoning

/-- The chain, less the fields that change throughput only. -/
structure ChainScope where
  name : String
  chainId : Nat
  finalityTag : String
  fallbackConfirmationDepth : Nat
  multicallAddress : String
  multicallDeploymentBlock : Nat
  multicallRuntimeCodeHash : Option String
  legacyEnabled : Bool
  numberFallback : NumberFallbackConfig
  balancer : BalancerConfig
  deriving DecidableEq

def ChainConfig.scope (chain : ChainConfig) : ChainScope where
  name := chain.name
  chainId := chain.chainId
  finalityTag := chain.finalityTag
  fallbackConfirmationDepth := chain.fallbackConfirmationDepth
  multicallAddress := chain.multicall3.address
  multicallDeploymentBlock := chain.multicall3.deploymentBlock
  multicallRuntimeCodeHash := chain.multicall3.runtimeCodeHash
  legacyEnabled := chain.legacyExecution.enabled
  numberFallback := chain.legacyExecution.numberFallback
  balancer := chain.balancer

/-- The job, less its cadence. -/
structure JobScope where
  name : String
  targetKind : JobTargetKind
  tokenSelector : Option TokenSelector
  poolSelector : Option PoolSelector
  universeName : Option String
  integrityMode : IntegrityMode
  coverageStart : Option Nat
  deriving DecidableEq

def JobConfig.scope (job : JobConfig) : JobScope where
  name := job.name
  targetKind := job.targetKind
  tokenSelector := job.tokenSelector
  poolSelector := job.poolSelector
  universeName := job.universeName
  integrityMode := job.integrityMode
  coverageStart := job.coverageStart

inductive TargetConfig where
  | token (token : TokenConfig)
  | pool (pool : PoolConfig)

/-- What `canonical_hash` is taken of. -/
structure EffectiveConfig where
  chain : ChainScope
  job : JobScope
  target : TargetConfig
  universeDocument : Option Catalog.ExpandedUniverse
  vendorHashes : List (String × String)

namespace Catalog

/-- `target_effective_config` -/
def targetEffectiveConfig (self : Catalog) (job : JobConfig) (target : TargetConfig) :
    Except ConfigFault EffectiveConfig :=
  match job.universeName with
  | none => .ok ⟨self.chain.scope, job.scope, target, none, []⟩
  | some name => do
    let document ← self.expandedUniverse [] name
    let vendorHashes ← self.collectVendorHashes [] name
    return ⟨self.chain.scope, job.scope, target, some document, vendorHashes⟩

/-- The job selects the target. -/
def Selects (self : Catalog) (job : JobConfig) : TargetConfig → Prop
  | .token token => ∃ targets, self.tokenTargets job = .ok targets ∧ token ∈ targets
  | .pool pool => ∃ targets, self.poolTargets job = .ok targets ∧ pool ∈ targets

/-- Every entry and every vendored file of the first catalog is in the second. -/
structure Includes (before after : Catalog) : Prop where
  tokens : ∀ token ∈ before.tokens, token ∈ after.tokens
  pools : ∀ pool ∈ before.pools, pool ∈ after.pools
  universes : ∀ name selector, before.universes.lookup name = some selector →
    after.universes.lookup name = some selector
  vendored : ∀ source file, before.vendored source = some file → after.vendored source = some file

variable {before after : Catalog}

theorem Includes.token (h : Includes before after) (address : String) :
    Refines (before.token address) (after.token address) := by
  unfold Catalog.token
  split
  · rename_i token htoken
    obtain ⟨hmem, haddress⟩ := (find?_eq_some_iff_of_nodup before.tokens_unique).mp htoken
    rw [(find?_eq_some_iff_of_nodup after.tokens_unique).mpr ⟨h.tokens token hmem, haddress⟩]
    exact .refl _
  · exact .error _ _

theorem Includes.pool (h : Includes before after) (address : String) :
    Refines (before.pool address) (after.pool address) := by
  unfold Catalog.pool
  split
  · rename_i pool hpool
    obtain ⟨hmem, haddress⟩ := (find?_eq_some_iff_of_nodup before.pools_unique).mp hpool
    rw [(find?_eq_some_iff_of_nodup after.pools_unique).mpr ⟨h.pools pool hmem, haddress⟩]
    exact .refl _
  · exact .error _ _

theorem mem_sortBy_filter {ν : Type} {key : ν → String} {p : ν → Bool} {l l' : List ν}
    (h : ∀ v ∈ l, v ∈ l') {v : ν} (hv : v ∈ sortBy key (l.filter p)) :
    v ∈ sortBy key (l'.filter p) := by
  rw [mem_sortBy, List.mem_filter] at hv ⊢
  exact ⟨h v hv.1, hv.2⟩

/-- A target of a job stays one. -/
theorem Includes.selects (h : Includes before after) {job : JobConfig} {target : TargetConfig}
    (hselects : before.Selects job target) : after.Selects job target := by
  cases target with
  | token token =>
    obtain ⟨targets, htargets, hmem⟩ := hselects
    show ∃ targets, after.tokenTargets job = .ok targets ∧ token ∈ targets
    unfold tokenTargets at htargets ⊢
    cases hselector : job.tokenSelector with
    | none =>
      rw [hselector] at htargets
      exact ⟨targets, htargets, hmem⟩
    | some selector =>
      rw [hselector] at htargets
      dsimp only at htargets ⊢
      split_ifs at htargets ⊢ with hdiscovered hall haddresses
      · exact ⟨targets, htargets, hmem⟩
      · obtain rfl := Except.ok.inj htargets
        exact ⟨_, rfl, mem_sortBy_filter h.tokens hmem⟩
      · have hrefines := (Refines.mapM h.token selector.addresses).bind fun values =>
          Refines.refl (pure (sortBy TokenConfig.address (values.filter TokenConfig.enabled)))
        exact ⟨targets, hrefines targets htargets, hmem⟩
      · obtain rfl := Except.ok.inj htargets
        exact ⟨_, rfl, mem_sortBy_filter h.tokens hmem⟩
  | pool pool =>
    obtain ⟨targets, htargets, hmem⟩ := hselects
    show ∃ targets, after.poolTargets job = .ok targets ∧ pool ∈ targets
    unfold poolTargets at htargets ⊢
    cases hselector : job.poolSelector with
    | none =>
      rw [hselector] at htargets
      exact ⟨targets, htargets, hmem⟩
    | some selector =>
      rw [hselector] at htargets
      dsimp only at htargets ⊢
      split_ifs at htargets ⊢ with hall haddresses
      · obtain rfl := Except.ok.inj htargets
        exact ⟨_, rfl, mem_sortBy_filter h.pools hmem⟩
      · have hrefines := (Refines.mapM h.pool selector.addresses).bind fun values =>
          Refines.refl (pure (sortBy PoolConfig.address (values.filter PoolConfig.enabled)))
        exact ⟨targets, hrefines targets htargets, hmem⟩
      · obtain rfl := Except.ok.inj htargets
        exact ⟨_, rfl, mem_sortBy_filter h.pools hmem⟩

theorem Includes.expandedUniverse (h : Includes before after) (stack : List String) (name : String) :
    Refines (before.expandedUniverse stack name) (after.expandedUniverse stack name) := by
  refine descend_rel (R := Refines) h.universes (fun _ _ => .error _) (fun _ => .error _) ?_ stack name
  intro name selector g g' hg
  unfold expand
  split
  · apply Refines.bind _ fun _ => .refl _
    simp only [List.mapM_map]
    exact .mapM hg selector.of
  · exact .refl _

theorem Includes.vendorHash (h : Includes before after) (selector : UniverseConfig) :
    Refines (before.vendorHash selector) (after.vendorHash selector) := by
  have hlist : ∀ source, Refines (before.vendoredList source) (after.vendoredList source) := by
    intro source
    unfold vendoredList
    split
    · rename_i file hfile
      rw [h.vendored source file hfile]
      exact .refl _
    · exact .error _ _
  unfold Catalog.vendorHash
  split
  · exact (hlist _).bind fun _ => .refl _
  · exact .refl _

theorem Includes.collectVendorHashes (h : Includes before after) (stack : List String) (name : String) :
    Refines (before.collectVendorHashes stack name) (after.collectVendorHashes stack name) := by
  refine descend_rel (R := Refines) h.universes (fun _ _ => .error _) (fun _ => .error _) ?_ stack name
  intro name selector g g' hg
  unfold collect
  apply (h.vendorHash selector).bind
  intro own
  apply Refines.bind _ fun _ => .refl _
  simp only [List.mapM_map]
  exact .mapM hg selector.of

/-- What a catalog hashes of a target, every catalog of the same chain that includes it hashes too. -/
theorem Includes.targetEffectiveConfig (h : Includes before after) (hchain : after.chain = before.chain)
    (job : JobConfig) (target : TargetConfig) :
    Refines (before.targetEffectiveConfig job target) (after.targetEffectiveConfig job target) := by
  unfold Catalog.targetEffectiveConfig
  rw [hchain]
  split
  · exact .refl _
  · rename_i name hname
    apply (h.expandedUniverse [] name).bind
    intro document
    exact (h.collectVendorHashes [] name).bind fun _ => .refl _

end Catalog

end RpcStateIndexer
