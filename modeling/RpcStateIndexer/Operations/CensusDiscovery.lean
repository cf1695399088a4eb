import RpcStateIndexer.Operations.CensusPrepare

/-!
# What discovery has settled when attempts start

A call that plans an attempt of a token whose universe reads its holders has advanced the ledgers of the
token through the anchor: the token's own, and those of its aliases that are active.  From then on the
repository answers these ledgers with the holders that the chain names, and so it does after `discover`.
-/

namespace RpcStateIndexer

open Reasoning Program

section Ledgers

variable {self : CensusService} {snapshotDate : Nat} {anchor : BlockRef}

/-- Tokens of a catalog differ in their addresses. -/
theorem Catalog.eq_of_address_eq (catalog : Catalog) {token other : TokenConfig}
    (h : token ∈ catalog.tokens) (h' : other ∈ catalog.tokens) (heq : token.address = other.address) :
    token = other := List.inj_on_of_nodup_map catalog.tokens_unique h h' heq

/-! ## The tokens that are pending -/

/-- The tokens under their addresses, all of the catalog. -/
structure OfCatalog (catalog : Catalog) (d : Dict String TokenConfig) : Prop where
  keyed : d.KeyedBy TokenConfig.address
  tokens : ∀ token ∈ d.values, token ∈ catalog.tokens

namespace OfCatalog

variable {catalog : Catalog} {d d' : Dict String TokenConfig}

theorem empty : OfCatalog catalog .empty where
  keyed := .empty _
  tokens _ h := absurd h List.not_mem_nil

theorem mem_foldl_set (h : OfCatalog catalog d) {tokens : List TokenConfig}
    (htokens : ∀ token ∈ tokens, token ∈ catalog.tokens) {token : TokenConfig} :
    token ∈ (tokens.foldl (fun d token => d.set token.address token) d).values ↔
      token ∈ d.values ∨ token ∈ tokens :=
  h.keyed.mem_values_foldl_set (fun _ _ => catalog.eq_of_address_eq) h.tokens htokens

theorem foldl_set (h : OfCatalog catalog d) {tokens : List TokenConfig}
    (htokens : ∀ token ∈ tokens, token ∈ catalog.tokens) :
    OfCatalog catalog (tokens.foldl (fun d token => d.set token.address token) d) where
  keyed := Dict.keyedBy_foldl_set tokens h.keyed
  tokens token hmem := ((h.mem_foldl_set htokens).mp hmem).elim (h.tokens token) (htokens token)

end OfCatalog

/-- The work of a job that discovery covers is of tokens of the catalog. -/
def JobWork.Covered (entry : JobWork) (service : CensusService) : Prop :=
  service.needsHolderDiscovery entry.job = .ok true →
    ∀ token ∈ CensusService.tokensOf entry.work, token ∈ service.catalog.tokens

theorem pending_of_foldlM {plan : List JobWork} (hcovered : ∀ entry ∈ plan, entry.Covered self)
    {d pending : Dict String TokenConfig} (hd : OfCatalog self.catalog d)
    (h : plan.foldlM self.addPending d = .ok pending) :
    OfCatalog self.catalog pending ∧ (∀ token ∈ d.values, token ∈ pending.values) ∧
      ∀ entry ∈ plan, self.needsHolderDiscovery entry.job = .ok true →
        ∀ token ∈ CensusService.tokensOf entry.work, token ∈ pending.values := by
  induction plan generalizing d with
  | nil =>
    obtain rfl := except_pure_eq_ok_iff.mp h
    exact ⟨hd, fun _ h => h, fun _ hentry => absurd hentry List.not_mem_nil⟩
  | cons entry plan ih =>
    rw [List.foldlM_cons] at h
    obtain ⟨next, hnext, hrest⟩ := except_bind_eq_ok_iff.mp h
    have hcovered' := fun other hother => hcovered other (List.mem_cons_of_mem _ hother)
    unfold CensusService.addPending at hnext
    obtain ⟨needed, hneeded, hadd⟩ := except_bind_eq_ok_iff.mp hnext
    cases needed with
    | false =>
      -- the job reads no holders: nothing is added for it
      obtain rfl := except_pure_eq_ok_iff.mp hadd
      obtain ⟨hof, hkept, hall⟩ := ih hcovered' hd hrest
      refine ⟨hof, hkept, fun other hother hneeds => ?_⟩
      rcases List.mem_cons.mp hother with rfl | hother
      · rw [hneeded] at hneeds
        cases hneeds
      · exact hall other hother hneeds
    | true =>
      obtain rfl := except_pure_eq_ok_iff.mp hadd
      have htokens := hcovered entry List.mem_cons_self hneeded
      obtain ⟨hof, hkept, hall⟩ := ih hcovered' (hd.foldl_set htokens) hrest
      refine ⟨hof, fun token htoken => hkept token ((hd.mem_foldl_set htokens).mpr (.inl htoken)), ?_⟩
      intro other hother hneeds token htoken
      rcases List.mem_cons.mp hother with rfl | hother
      · exact hkept token ((hd.mem_foldl_set htokens).mpr (.inr htoken))
      · exact hall other hother hneeds token htoken

/-- What is scanned for the tokens: they, and the tokens of their aliases that are active. -/
structure WithAliases (service : CensusService) (snapshotDate : Nat) (anchor : BlockRef)
    (tokens selected : List TokenConfig) : Prop where
  known : ∀ token ∈ selected, token ∈ service.catalog.tokens
  own : ∀ token ∈ tokens, token ∈ selected
  aliases : ∀ token ∈ tokens, ∀ aliasAddress ∈ token.universeAliases, ∃ ledger ∈ service.catalog.tokens,
    ledger.address = aliasAddress ∧
      (ledger.isActive snapshotDate anchor.number = true → ledger ∈ selected)

theorem aliases_of_foldlM {aliases : List String} {d selected : Dict String TokenConfig}
    (hd : OfCatalog self.catalog d)
    (h : aliases.foldlM (self.addAlias snapshotDate anchor) d = .ok selected) :
    OfCatalog self.catalog selected ∧ (∀ token ∈ d.values, token ∈ selected.values) ∧
      ∀ aliasAddress ∈ aliases, ∃ ledger ∈ self.catalog.tokens, ledger.address = aliasAddress ∧
        (ledger.isActive snapshotDate anchor.number = true → ledger ∈ selected.values) := by
  induction aliases generalizing d with
  | nil =>
    obtain rfl := except_pure_eq_ok_iff.mp h
    exact ⟨hd, fun _ h => h, fun _ hentry => absurd hentry List.not_mem_nil⟩
  | cons aliasAddress aliases ih =>
    rw [List.foldlM_cons] at h
    obtain ⟨next, hnext, hrest⟩ := except_bind_eq_ok_iff.mp h
    unfold CensusService.addAlias at hnext
    split at hnext
    · cases hnext
    rename_i ledger hfind
    obtain ⟨hledger, rfl⟩ := (find?_eq_some_iff_of_nodup self.catalog.tokens_unique).mp hfind
    obtain rfl := Except.ok.inj hnext
    -- `setdefault` may keep another entry under the address, but the catalog has one token for it
    have hset : ∀ token, token ∈ (d.setdefault ledger.address ledger).values ↔
        token ∈ d.values ∨ token = ledger := fun token =>
      hd.keyed.mem_values_setdefault (fun _ _ => self.catalog.eq_of_address_eq) hd.tokens hledger
    have hof : OfCatalog self.catalog (d.setdefault ledger.address ledger) := by
      refine ⟨hd.keyed.setdefault ledger, fun token htoken => ?_⟩
      rcases (hset token).mp htoken with htoken | rfl
      · exact hd.tokens token htoken
      · exact hledger
    cases hactive : ledger.isActive snapshotDate anchor.number with
    | false =>
      rw [hactive, if_neg Bool.false_ne_true] at hrest
      obtain ⟨hselected, hkept, hall⟩ := ih hd hrest
      refine ⟨hselected, hkept, fun other hother => ?_⟩
      rcases List.mem_cons.mp hother with rfl | hother
      · exact ⟨ledger, hledger, rfl, fun h => absurd (hactive.symm.trans h) Bool.false_ne_true⟩
      · exact hall other hother
    | true =>
      rw [hactive, if_pos rfl] at hrest
      obtain ⟨hselected, hkept, hall⟩ := ih hof hrest
      refine ⟨hselected, fun token htoken => hkept token ((hset token).mpr (.inl htoken)), ?_⟩
      intro other hother
      rcases List.mem_cons.mp hother with rfl | hother
      · exact ⟨ledger, hledger, rfl, fun _ => hkept ledger ((hset ledger).mpr (.inr rfl))⟩
      · exact hall other hother

theorem withActiveAliases_ok {tokens selected : List TokenConfig}
    (htokens : ∀ token ∈ tokens, token ∈ self.catalog.tokens)
    (h : self.withActiveAliases tokens snapshotDate anchor = .ok selected) :
    WithAliases self snapshotDate anchor tokens selected := by
  unfold CensusService.withActiveAliases at h
  obtain ⟨d, hd, hpure⟩ := except_bind_eq_ok_iff.mp h
  obtain rfl := except_pure_eq_ok_iff.mp hpure
  have hempty : OfCatalog self.catalog .empty := .empty
  have hinitial : ∀ token, token ∈ (Dict.ofValues TokenConfig.address tokens).values ↔ token ∈ tokens := by
    intro token
    exact (hempty.mem_foldl_set htokens).trans (or_iff_right (fun h => absurd h List.not_mem_nil))
  obtain ⟨hof, hkept, haliases⟩ := aliases_of_foldlM (hempty.foldl_set htokens) hd
  refine ⟨fun token htoken => hof.tokens token (mem_sortBy.mp htoken),
    fun token htoken => mem_sortBy.mpr (hkept token ((hinitial token).mpr htoken)), ?_⟩
  intro token htoken aliasAddress halias
  obtain ⟨ledger, hledger, haddress, hactive⟩ := haliases aliasAddress
    (List.mem_flatMap.mpr ⟨token, (hinitial token).mpr htoken, halias⟩)
  exact ⟨ledger, hledger, haddress, fun h => mem_sortBy.mpr (hactive h)⟩

/-! ## Advancing -/

variable {chains : Nat → Set NormalizedLog} {d d' d'' : DiscoveryStore} {w w' : ServiceWorld}

/-- The second store is reached from the first by advances that scan each ledger of the catalog under the
configuration it has there. -/
def LedgersRun (self : CensusService) (chains : Nat → Set NormalizedLog) (d d' : DiscoveryStore) : Prop :=
  ∀ token ∈ self.catalog.tokens, ConfiguredRun chains self.discoveryService token d d'

theorem LedgersRun.refl : LedgersRun self chains d d := fun _ _ => .refl

theorem LedgersRun.trans (h : LedgersRun self chains d d') (h' : LedgersRun self chains d' d'') :
    LedgersRun self chains d d'' := fun token htoken => (h token htoken).trans (h' token htoken)

theorem Settled.later {svc : DiscoveryService} {token : TokenConfig} {anchorBlock : Nat}
    (h : Settled chains svc token anchorBlock d) (h' : ConfiguredRun chains svc token d d') :
    Settled chains svc token anchorBlock d' := by
  obtain ⟨before, after, through, anchorHash, hbefore, hrun, hthrough, hafter⟩ := h
  exact ⟨before, after, through, anchorHash, hbefore, hrun, hthrough, hafter.trans h'⟩

/-- An advance of a token of the catalog, wherever it stops. -/
theorem LedgersRun.ofReaches {token : TokenConfig} (htoken : token ∈ self.catalog.tokens)
    {anchorBlock : Nat} {anchorHash : String} {p : DiscoveryProgram Unit}
    (h : Reaches (discoveryEnv self.discoveryService (chains self.chainId))
      (self.discoveryService.advance token anchorBlock anchorHash, d) (p, d')) :
    LedgersRun self chains d d' := fun _ hother =>
  .advance self.discoveryService token anchorBlock anchorHash .refl
    (fun _ haddress => ⟨rfl, self.catalog.eq_of_address_eq htoken hother haddress⟩) h

/-- The token has been advanced through the anchor, or the failures say that it has not. -/
theorem safe_advanceToken {d₀ : DiscoveryStore} {token : TokenConfig} (htoken : token ∈ self.catalog.tokens)
    (h₀ : LedgersRun self chains .empty d₀) (h : LedgersRun self chains d₀ w.discovery)
    (failures : List String) :
    Returns (callEnv self (chains self.chainId)) (fun w' => LedgersRun self chains d₀ w'.discovery)
      (fun failures' w' => LedgersRun self chains d₀ w'.discovery ∧
        LedgersRun self chains w.discovery w'.discovery ∧ (failures' = [] → failures = [] ∧
          Settled chains self.discoveryService token anchor.number w'.discovery))
      (self.advanceToken anchor failures token) w := by
  unfold CensusService.advanceToken
  apply safe_tryCatch.mpr
  apply safe_bind.mpr
  -- the operations of the advance move the discovery tables only
  have hview : ∀ op w₁ answer w₂, True → callEnv self (chains self.chainId) (.discovery op) w₁ answer w₂ →
      discoveryEnv self.discoveryService (chains self.chainId) op w₁.discovery answer w₂.discovery ∧
        True := by
    intro op w₁ answer w₂ _ hcall
    obtain ⟨c, -, d, hd, rfl⟩ := hcall
    exact ⟨hd, trivial⟩
  refine Safe.mono (safe_lift_view ServiceWorld.discovery hview trivial)
    (fun w' hw' => ?_) fun r w' hw' => ?_
  · obtain ⟨-, p', hrun⟩ := hw'
    exact h.trans (.ofReaches htoken hrun)
  obtain ⟨-, r', rfl, hrun⟩ := hw'
  have hstep : LedgersRun self chains w.discovery w'.discovery := .ofReaches htoken hrun
  cases r' with
  | ok u =>
    refine ⟨h.trans hstep, hstep, fun hnone => ⟨hnone, w.discovery, w'.discovery, anchor.number,
      anchor.blockHash, (h₀.trans h) token htoken, hrun, le_rfl, .refl⟩⟩
  | error e =>
    have hraised : LedgersRun self chains d₀ w'.discovery := h.trans hstep
    have hrecorded : ∀ message : String, failures ++ [message] = [] → failures = [] ∧
        Settled chains self.discoveryService token anchor.number w'.discovery :=
      fun message hnone => absurd hnone (List.append_ne_nil_of_right_ne_nil failures (List.cons_ne_nil _ _))
    -- a cancellation passes the handler by, anything else is recorded
    cases e with
    | discovery e =>
      cases e with
      | cancelled => exact hraised
      | _ => exact ⟨hraised, hstep, hrecorded _⟩
    | _ => exact ⟨hraised, hstep, hrecorded _⟩

theorem returns_advanceDiscovery {d₀ : DiscoveryStore} {tokens : List TokenConfig}
    (htokens : ∀ token ∈ tokens, token ∈ self.catalog.tokens) (h₀ : LedgersRun self chains .empty d₀)
    (h : LedgersRun self chains d₀ w.discovery) :
    Returns (callEnv self (chains self.chainId)) (fun w' => LedgersRun self chains d₀ w'.discovery)
      (fun _ w' => LedgersRun self chains d₀ w'.discovery ∧ ∀ token ∈ tokens,
        Settled chains self.discoveryService token anchor.number w'.discovery)
      (self.advanceDiscovery tokens anchor) w := by
  -- while nothing has failed, each token that is no longer in `rest` is settled
  have hfold : Returns (callEnv self (chains self.chainId))
      (fun w' => LedgersRun self chains d₀ w'.discovery) _ (tokens.foldlM (self.advanceToken anchor) []) w :=
    Returns.foldlM (fun rest failures w' => LedgersRun self chains d₀ w'.discovery ∧
        (∀ token ∈ rest, token ∈ tokens) ∧ (failures = [] → ∀ token ∈ tokens, token ∉ rest →
          Settled chains self.discoveryService token anchor.number w'.discovery))
      ⟨h, fun _ htoken => htoken, fun _ _ hmem hnot => absurd hmem hnot⟩ ?_
  · refine .bind hfold fun failures w' hw' => ?_
    obtain ⟨hrun, -, hsettled⟩ := hw'
    split
    · exact hrun
    · rename_i hnone
      exact ⟨hrun, fun token htoken => hsettled (not_not.mp hnone) token htoken List.not_mem_nil⟩
  · rintro token rest failures w₁ ⟨hrun, hsub, hsettled⟩
    have htoken := htokens token (hsub token List.mem_cons_self)
    refine (safe_advanceToken htoken h₀ hrun failures).mono fun failures' w₂ hw₂ => ?_
    obtain ⟨hrun', hstep, hdone⟩ := hw₂
    refine ⟨hrun', fun other hother => hsub other (List.mem_cons_of_mem _ hother), ?_⟩
    intro hnone other hother hrest
    obtain ⟨hbefore, htokenSettled⟩ := hdone hnone
    -- a token that was settled before stays so while this one is advanced
    by_cases heq : other = token
    · exact heq ▸ htokenSettled
    · refine (hsettled hbefore other hother fun hmem => ?_).later (hstep other (htokens other hother))
      exact (List.mem_cons.mp hmem).elim heq hrest

/-- What the census relies on when it freezes the universe of a token. -/
structure LedgersSettled (service : CensusService) (chains : Nat → Set NormalizedLog) (snapshotDate : Nat)
    (anchor : BlockRef) (d : DiscoveryStore) (token : TokenConfig) : Prop where
  known : token ∈ service.catalog.tokens
  own : Settled chains service.discoveryService token anchor.number d
  aliases : ∀ aliasAddress ∈ token.universeAliases, ∃ ledger ∈ service.catalog.tokens,
    ledger.address = aliasAddress ∧ (ledger.isActive snapshotDate anchor.number = true →
      Settled chains service.discoveryService ledger anchor.number d)

theorem WithAliases.settled {tokens selected : List TokenConfig}
    (h : WithAliases self snapshotDate anchor tokens selected)
    (hsettled : ∀ token ∈ selected, Settled chains self.discoveryService token anchor.number d) :
    ∀ token ∈ tokens, LedgersSettled self chains snapshotDate anchor d token := by
  intro token htoken
  have hselected := h.own token htoken
  refine ⟨h.known token hselected, hsettled token hselected, fun aliasAddress halias => ?_⟩
  obtain ⟨ledger, hledger, haddress, hactive⟩ := h.aliases token htoken aliasAddress halias
  exact ⟨ledger, hledger, haddress, fun h => hsettled ledger (hactive h)⟩

theorem returns_discoverPending {d₀ : DiscoveryStore} {plan : List JobWork}
    (hcovered : ∀ entry ∈ plan, entry.Covered self) (h₀ : LedgersRun self chains .empty d₀)
    (h : LedgersRun self chains d₀ w.discovery) :
    Returns (callEnv self (chains self.chainId)) (fun w' => LedgersRun self chains d₀ w'.discovery)
      (fun _ w' => LedgersRun self chains d₀ w'.discovery ∧ ∀ entry ∈ plan,
        self.needsHolderDiscovery entry.job = .ok true → ∀ token ∈ CensusService.tokensOf entry.work,
          LedgersSettled self chains snapshotDate anchor w'.discovery token)
      (self.discoverPending snapshotDate anchor plan) w := by
  refine .ofExcept_bind h fun pending hpending => ?_
  obtain ⟨hof, -, hall⟩ := pending_of_foldlM hcovered .empty hpending
  split
  · refine .ofExcept_bind h fun tokens htokens => ?_
    have haliases := withActiveAliases_ok hof.tokens htokens
    refine (returns_advanceDiscovery haliases.known h₀ h).mono fun _ w' hw' => ⟨hw'.1, ?_⟩
    intro entry hentry hneeds token htoken
    exact haliases.settled hw'.2 token (hall entry hentry hneeds token htoken)
  · rename_i hnone
    refine ⟨h, fun entry hentry hneeds token htoken => ?_⟩
    have hmem := hall entry hentry hneeds token htoken
    rw [not_not.mp hnone] at hmem
    exact absurd hmem List.not_mem_nil

/-! ## The prologue -/

theorem mem_tokens_of_tokenTargets {catalog : Catalog} {job : JobConfig} {tokens : List TokenConfig}
    (h : catalog.tokenTargets job = .ok tokens) : ∀ token ∈ tokens, token ∈ catalog.tokens := by
  intro token htoken
  unfold Catalog.tokenTargets at h
  split at h
  · obtain rfl := Except.ok.inj h
    exact absurd htoken List.not_mem_nil
  split at h
  · obtain rfl := Except.ok.inj h
    exact absurd htoken List.not_mem_nil
  split at h
  · obtain rfl := Except.ok.inj h
    exact (List.mem_filter.mp (mem_sortBy.mp htoken)).1
  split at h
  · obtain ⟨values, hvalues, hpure⟩ := except_bind_eq_ok_iff.mp h
    obtain rfl := except_pure_eq_ok_iff.mp hpure
    have hmem := (List.mem_filter.mp (mem_sortBy.mp htoken)).1
    obtain ⟨address, -, hfound⟩ := exists_of_mem_mapM hvalues hmem
    unfold Catalog.token at hfound
    split at hfound
    · rename_i found hfind
      obtain rfl := Except.ok.inj hfound
      exact ((find?_eq_some_iff_of_nodup catalog.tokens_unique).mp hfind).1
    · cases hfound
  · obtain rfl := Except.ok.inj h
    exact (List.mem_filter.mp (mem_sortBy.mp htoken)).1

theorem mem_tokens_of_staticTargets {job : JobConfig} {targets : List CensusTarget}
    (h : self.staticTargets job = .ok targets) {token : TokenConfig} (hmem : .token token ∈ targets) :
    token ∈ self.catalog.tokens := by
  unfold CensusService.staticTargets at h
  split at h
  · obtain ⟨tokens, htokens, hpure⟩ := except_bind_eq_ok_iff.mp h
    obtain rfl := except_pure_eq_ok_iff.mp hpure
    obtain ⟨other, hother, heq⟩ := List.mem_map.mp hmem
    obtain rfl := CensusTarget.token.inj heq
    exact mem_tokens_of_tokenTargets (except_mapError_eq_ok_iff.mp htokens) other hother
  · obtain ⟨pools, -, hpure⟩ := except_bind_eq_ok_iff.mp h
    obtain rfl := except_pure_eq_ok_iff.mp hpure
    obtain ⟨pool, -, heq⟩ := List.mem_map.mp hmem
    cases heq

/-- The work is some of what the catalog selects, where the catalog alone selects. -/
theorem JobWork.covered_of_static {entry : JobWork}
    (h : entry.job.isDiscovered = false →
      ∃ targets, self.staticTargets entry.job = .ok targets ∧ entry.work ⊆ targets) :
    entry.Covered self := by
  intro hneeds token htoken
  have hstatic : entry.job.isDiscovered = false := by
    by_contra hdiscovered
    rw [needsHolderDiscovery_discovered (Bool.not_eq_false _ ▸ hdiscovered)] at hneeds
    cases hneeds
  obtain ⟨targets, htargets, hwork⟩ := h hstatic
  obtain ⟨target, htarget, hsome⟩ := List.mem_filterMap.mp htoken
  cases target with
  | pool pool => cases hsome
  | token other =>
    obtain rfl := Option.some.inj hsome
    exact mem_tokens_of_staticTargets htargets (hwork htarget)

theorem returns_jobWork_covered {chain : Set NormalizedLog} {d : DiscoveryStore} (job : JobConfig)
    (h : w.discovery = d) :
    Returns (callEnv self chain) (fun w' => w'.discovery = d)
      (fun entry w' => w'.discovery = d ∧ entry.Covered self) (self.jobWork snapshotDate anchor job) w := by
  have hgate : Asks (fun op => ¬ op.Discovers) (publishedTargetAddresses self.chainId job.name
      job.targetKind.kind snapshotDate self.skipPublishedAnyConfigHash) := ⟨id, asks_orRaise⟩
  refine .bind (asks_undisturbed hgate h) fun published w₁ h₁ => ?_
  cases hdiscovered : job.isDiscovered with
  | false =>
    rw [targets_eq_static hdiscovered]
    refine .ofExcept_bind h₁ fun targets htargets => ⟨h₁, JobWork.covered_of_static fun _ => ?_⟩
    exact ⟨targets, htargets, fun target htarget => (List.mem_filter.mp htarget).1⟩
  | true =>
    have hasks : Asks (fun op => ¬ op.Discovers) (self.targets job) :=
      (asks_targets job).mono fun _ hop => hop.2
    refine .bind (asks_undisturbed hasks h₁) fun targets w₂ h₂ => ⟨h₂, JobWork.covered_of_static ?_⟩
    exact fun hstatic => absurd (hdiscovered.symm.trans hstatic) Bool.noConfusion

/-- The jobs are planned before the tables of discovery are touched, and what discovery covers of their
work is of the catalog. -/
theorem returns_planJobs_covered {chain : Set NormalizedLog} {jobName : Option String} :
    Returns (callEnv self chain) (fun w' => w'.discovery = w.discovery)
      (fun planned w' => w'.discovery = w.discovery ∧ ∀ entry ∈ planned.2, entry.Covered self)
      (self.planJobs snapshotDate jobName) w := by
  refine .bind (asks_undisturbed (asks_resolveAnchor snapshotDate) rfl) fun anchor w₁ h₁ => ?_
  refine .ofExcept_bind h₁ fun jobs _ => ?_
  refine .bind (Returns.mapM (fun _ w' => w'.discovery = w.discovery)
    (fun _ entry _ => entry.Covered self) h₁ fun job rest w₂ h₂ => ?_) ?_
  · refine (returns_jobWork_covered job h₂).mono fun entry w₃ h₃ => ⟨h₃.1, h₃.2, fun _ _ h => h⟩
  · rintro entries w₂ ⟨h₂, hentries, -⟩
    refine ⟨h₂, fun entry hentry => ?_⟩
    obtain ⟨_, -, hcovered⟩ := forall₂_right hentries hentry
    exact hcovered

/-- A program without operations of discovery leaves the ledgers where they are. -/
theorem asks_ledgersRun {α : Type} {chain : Set NormalizedLog} {d₀ : DiscoveryStore} {p : ServiceProgram α}
    (hp : Asks (fun op => ¬ op.Discovers) p) (h : LedgersRun self chains d₀ w.discovery) :
    Returns (callEnv self chain) (fun w' => LedgersRun self chains d₀ w'.discovery)
      (fun _ w' => w'.discovery = w.discovery) p w := by
  refine Safe.mono (asks_undisturbed hp rfl) (fun w' hc => hc ▸ h) fun r w' hr => ?_
  cases r with
  | ok a => exact hr
  | error e => exact (show w'.discovery = w.discovery from hr) ▸ h

/-- Once a call has its plan, the ledgers of each token that discovery covers are settled through the
anchor: its own, and those of its active aliases. -/
theorem returns_prepare_settled {jobName : Option String}
    (history : LedgersRun self chains .empty w.discovery) :
    Returns (callEnv self (chains self.chainId)) (fun w' => LedgersRun self chains w.discovery w'.discovery)
      (fun plan w' => LedgersRun self chains w.discovery w'.discovery ∧ ∀ entry ∈ plan.jobs,
        self.needsHolderDiscovery entry.job = .ok true → ∀ token ∈ CensusService.tokensOf entry.work,
          LedgersSettled self chains snapshotDate plan.anchor w'.discovery token)
      (self.prepare snapshotDate jobName) w := by
  refine .bind (P := fun planned w₁ => w₁.discovery = w.discovery ∧ ∀ entry ∈ planned.2, entry.Covered self)
    ?_ ?_
  · refine Safe.mono returns_planJobs_covered (fun w' hc => hc ▸ .refl) fun r w₁ hr => ?_
    cases r with
    | error e => exact hr ▸ LedgersRun.refl
    | ok planned => exact hr
  · rintro ⟨anchor, plan⟩ w₁ ⟨hsame, hcovered⟩
    refine .bind (returns_discoverPending hcovered history (hsame ▸ .refl)) fun _ w₂ hw₂ => ?_
    refine .bind (asks_ledgersRun asks_resolveMetadataOnce hw₂.1) fun _ w₃ hw₃ => ?_
    rw [← hw₃] at hw₂
    exact .ofExcept_bind hw₂.1 fun universes _ => hw₂

/-! ## The command of its own -/

/-- The tokens that a job gives `discover` to scan. -/
def CensusService.Discoverable (self : CensusService) (snapshotDate : Nat) (anchor : BlockRef)
    (job : JobConfig) (token : TokenConfig) : Prop :=
  self.needsHolderDiscovery job = .ok true ∧ ∃ tokens, self.catalog.tokenTargets job = .ok tokens ∧
    token ∈ tokens ∧ token.isActive snapshotDate anchor.number = true

/-- What the loop over `jobs` has selected when `rest` remains. -/
structure SelectedFor (service : CensusService) (snapshotDate : Nat) (anchor : BlockRef)
    (jobs rest : List JobConfig) (selected : Dict String TokenConfig) : Prop where
  ofCatalog : OfCatalog service.catalog selected
  done : ∀ job ∈ jobs, job ∈ rest ∨ ∀ token, service.Discoverable snapshotDate anchor job token →
    token ∈ selected.values

theorem SelectedFor.initial (jobs : List JobConfig) :
    SelectedFor self snapshotDate anchor jobs jobs .empty := ⟨.empty, fun _ hjob => .inl hjob⟩

theorem SelectedFor.next {jobs rest : List JobConfig} {job : JobConfig}
    {selected selected' : Dict String TokenConfig}
    (h : SelectedFor self snapshotDate anchor jobs (job :: rest) selected)
    (hof : OfCatalog self.catalog selected')
    (hkept : ∀ token ∈ selected.values, token ∈ selected'.values)
    (hjob : ∀ token, self.Discoverable snapshotDate anchor job token → token ∈ selected'.values) :
    SelectedFor self snapshotDate anchor jobs rest selected' := by
  refine ⟨hof, fun other hother => ?_⟩
  rcases h.done other hother with hmem | hdone
  · rcases List.mem_cons.mp hmem with rfl | hmem
    · exact .inr hjob
    · exact .inl hmem
  · exact .inr fun token htoken => hkept token (hdone token htoken)

theorem returns_discover {jobName : Option String} (history : LedgersRun self chains .empty w.discovery) :
    Returns (callEnv self (chains self.chainId)) (fun w' => LedgersRun self chains w.discovery w'.discovery)
      (fun anchor w' => LedgersRun self chains w.discovery w'.discovery ∧
        ∃ jobs, self.jobs jobName = .ok jobs ∧ ∀ job ∈ jobs, ∀ token,
          self.Discoverable snapshotDate anchor job token →
            LedgersSettled self chains snapshotDate anchor w'.discovery token)
      (self.discover snapshotDate jobName) w := by
  refine .bind (asks_ledgersRun (asks_resolveAnchor snapshotDate) .refl) fun anchor w₁ h₁ => ?_
  have hrun : LedgersRun self chains w.discovery w₁.discovery := h₁ ▸ .refl
  refine .ofExcept_bind hrun fun jobs hjobs => ?_
  -- the loop asks nothing, so the state stays where the anchor was resolved
  refine .bind (Returns.foldlM (fun rest selected w' => w' = w₁ ∧
    SelectedFor self snapshotDate anchor jobs rest selected) ⟨rfl, .initial jobs⟩ ?_) ?_
  · rintro job rest selected _ ⟨rfl, hselected⟩
    refine .ofExcept_bind hrun fun needed hneeded => ?_
    cases needed with
    | false =>
      refine ⟨rfl, hselected.next hselected.ofCatalog (fun _ h => h) fun token htoken => ?_⟩
      exact absurd (Except.ok.inj (hneeded.symm.trans htoken.1)) Bool.false_ne_true
    | true =>
      refine .ofExcept_bind hrun fun tokens htokens => ?_
      have htargets := except_mapError_eq_ok_iff.mp htokens
      have hactive : ∀ token ∈ tokens.filter fun token => token.isActive snapshotDate anchor.number,
          token ∈ self.catalog.tokens := fun token htoken =>
        mem_tokens_of_tokenTargets htargets token (List.mem_filter.mp htoken).1
      have hof := hselected.ofCatalog
      refine ⟨rfl, hselected.next (hof.foldl_set hactive)
        (fun token htoken => (hof.mem_foldl_set hactive).mpr (.inl htoken)) fun token htoken => ?_⟩
      obtain ⟨-, tokens', htargets', hmem, hisActive⟩ := htoken
      obtain rfl := Except.ok.inj (htargets.symm.trans htargets')
      exact (hof.mem_foldl_set hactive).mpr (.inr (List.mem_filter.mpr ⟨hmem, hisActive⟩))
  · rintro selected _ ⟨rfl, hof, hdone⟩
    refine .ofExcept_bind hrun fun tokens htokens => ?_
    have haliases := withActiveAliases_ok hof.tokens htokens
    refine .bind (returns_advanceDiscovery haliases.known history hrun) fun _ w₂ hw₂ => ?_
    refine ⟨hw₂.1, jobs, hjobs, fun job hjob token htoken => ?_⟩
    exact haliases.settled hw₂.2 token ((hdone job hjob).resolve_left List.not_mem_nil token htoken)

/-- The ledgers of a token: its own, and those of its aliases that are active. -/
def CensusService.IsLedger (self : CensusService) (snapshotDate : Nat) (anchor : BlockRef)
    (token ledger : TokenConfig) : Prop :=
  ledger = token ∨ ledger ∈ self.catalog.tokens ∧ ledger.address ∈ token.universeAliases ∧
    ledger.isActive snapshotDate anchor.number = true

theorem LedgersSettled.settled {token ledger : TokenConfig}
    (h : LedgersSettled self chains snapshotDate anchor d token)
    (hledger : self.IsLedger snapshotDate anchor token ledger) :
    Settled chains self.discoveryService ledger anchor.number d := by
  rcases hledger with rfl | ⟨hmem, halias, hactive⟩
  · exact h.own
  · obtain ⟨other, hother, haddress, hsettled⟩ := h.aliases ledger.address halias
    obtain rfl := self.catalog.eq_of_address_eq hother hmem haddress
    exact hsettled hactive

/-- The repository answers each ledger of the token with exactly the holders that the chain names by the
anchor. -/
def LedgersAnswered (service : CensusService) (chains : Nat → Set NormalizedLog) (snapshotDate : Nat)
    (anchor : BlockRef) (d : DiscoveryStore) (token : TokenConfig) : Prop :=
  ∀ ledger, service.IsLedger snapshotDate anchor token ledger →
    DistinctTopics service.discoveryService ledger → ∀ address,
      normalizeAddress address = .ok ledger.address →
        ∃ members, d.holderMembers service.chainId address anchor.number = .ok members ∧
          FrozenAs (HolderOnChain service.discoveryService (chains service.chainId) ledger anchor.number)
            (members.map fun member => (member.address, member.sources))

theorem LedgersSettled.answered {token : TokenConfig}
    (h : LedgersSettled self chains snapshotDate anchor d token) :
    LedgersAnswered self chains snapshotDate anchor d token :=
  fun _ hledger hdistinct _ haddress => holderMembers_settled (h.settled hledger) hdistinct haddress

/-- When `discover` has returned, the ledgers of each token that it covers are answered as the chain says
of the blocks from their deployment on, whatever the attempts in flight did meanwhile. -/
theorem discover_exact {jobName : Option String} (history : LedgersRun self chains .empty w.discovery)
    (returned : Reaches (callEnv self (chains self.chainId))
      (self.discover snapshotDate jobName, w) (.ret anchor, w')) :
    ∃ jobs, self.jobs jobName = .ok jobs ∧ ∀ job ∈ jobs, ∀ token,
      self.Discoverable snapshotDate anchor job token →
        LedgersAnswered self chains snapshotDate anchor w'.discovery token := by
  obtain ⟨-, jobs, hjobs, hsettled⟩ := Safe.returns (returns_discover history) .refl returned
  exact ⟨jobs, hjobs, fun job hjob token htoken => (hsettled job hjob token htoken).answered⟩

/-- When a census call has its plan, the ledgers of each planned token whose universe reads its holders are
answered as the chain says, before any attempt is made. -/
theorem prepare_exact {jobName : Option String} {plan : CensusPlan}
    (history : LedgersRun self chains .empty w.discovery)
    (returned : Reaches (callEnv self (chains self.chainId))
      (self.prepare snapshotDate jobName, w) (.ret plan, w')) :
    ∀ entry ∈ plan.jobs, self.needsHolderDiscovery entry.job = .ok true →
      ∀ token ∈ CensusService.tokensOf entry.work,
        LedgersAnswered self chains snapshotDate plan.anchor w'.discovery token := by
  obtain ⟨-, hsettled⟩ := Safe.returns (returns_prepare_settled history) .refl returned
  exact fun entry hentry hneeds token htoken => (hsettled entry hentry hneeds token htoken).answered

end Ledgers

/-! ## One token, discovered -/

theorem everyToken_chosen : (!([] : List String).isEmpty).toNat + (!([] : List String).isEmpty).toNat +
    true.toNat + false.toNat = 1 := by decide

theorem holdersChunk_pos : 0 < 4 := by decide

theorem holdersCap_pos : 0 < 2 := by decide

theorem holdersJob_ok (_ : JobTargetKind.tokens = .tokens) :
    (some (TokenSelector.mk [] [] true false everyToken_chosen)).isSome = true ∧
      (none : Option PoolSelector) = none ∧ (some "full_holders").isSome = true ∧
        IntegrityMode.fullSupply ≠ .poolAssets ∧
          ∀ selector ∈ some (TokenSelector.mk [] [] true false everyToken_chosen),
            selector.discovered = true → IntegrityMode.fullSupply = .scoped := by
  refine ⟨rfl, rfl, rfl, nofun, fun selector hselector hdiscovered => ?_⟩
  obtain rfl := Option.some.inj hselector
  exact absurd hdiscovered Bool.false_ne_true

theorem notPools : JobTargetKind.tokens = .pools →
    (none : Option PoolSelector).isSome = true ∧
      some (TokenSelector.mk [] [] true false everyToken_chosen) = none ∧
        some "full_holders" = none ∧
          (IntegrityMode.fullSupply = .poolAssets ∨ IntegrityMode.fullSupply = .clLiquidity) := nofun

/-- The balances of every holder of every token. -/
def holdersJob : JobConfig where
  name := "token_balances"
  targetKind := .tokens
  tokenSelector := some ⟨[], [], true, false, everyToken_chosen⟩
  poolSelector := none
  universeName := some "full_holders"
  cadence := .daily
  integrityMode := .fullSupply
  coverageStart := none
  tokens_ok := holdersJob_ok
  pools_ok := notPools

def holdersCatalog : Catalog where
  chain := { sampleChain with discovery := ⟨4, 2, holdersChunk_pos, holdersCap_pos⟩ }
  tokens := [sampleToken [bothSides]]
  pools := []
  universes := [("full_holders", holdersSelector)]
  jobs := [holdersJob]
  sweeps := []
  vendored _ := none
  tokens_unique := List.nodup_singleton _
  pools_unique := List.nodup_nil
  universes_unique := List.nodup_singleton _
  jobs_unique := List.nodup_singleton _

theorem holdersPermits_pos : 1 ≤ 1 := Nat.le_refl 1

def holdersService : CensusService where
  catalog := holdersCatalog
  abiRegistry := sampleRegistry
  canonicalHash _ := hexText (List.replicate 64 'f')
  canonicalJson _ := ""
  errorName _ := "DiscoveryError"
  discoveredQuarantineThreshold := 1
  censusTargetConcurrency := 1
  skipPublishedAnyConfigHash := true
  threshold_pos := holdersPermits_pos
  concurrency_pos := holdersPermits_pos

/-- The last block that is scanned. -/
def tokenAnchor : BlockRef :=
  ⟨12, hexText (List.replicate 64 '1'), hexText (List.replicate 64 '2'), 100⟩

def tokenResolved : ResolvedAnchor where
  snapshotDate := 0
  anchor := tokenAnchor
  nextBlock := ⟨13, hexText (List.replicate 64 '3'), tokenAnchor.blockHash, 105⟩
  safeTip := ⟨13, hexText (List.replicate 64 '3'), tokenAnchor.blockHash, 105⟩
  finalitySource := "tag:finalized"
  endpointFingerprints := []

def tokenStore : CensusStore where
  dayAnchors := [tokenResolved.row 100 "resolution" 0]

/-- The service, with the tables of discovery at `d`. -/
def tokenWorld (d : DiscoveryStore) : ServiceWorld := ⟨⟨tokenStore, [], []⟩, d, [], true⟩

abbrev tokenChain : Set NormalizedLog := {l | l ∈ [sampleLog]}

/-- The anchor of the date is stored already. -/
theorem resolveAnchor_returned : Reaches (callEnv holdersService tokenChain)
    (holdersService.resolveAnchor 0, tokenWorld .empty) (.ret tokenAnchor, tokenWorld .empty) := by
  have hcanonical : tokenStore.canonicalAnchor 100 0 = some (tokenResolved.row 100 "resolution" 0) := by
    unfold CensusStore.canonicalAnchor CensusStore.resolutionsOf
    decide
  exact @reaches_resolveAnchor holdersService tokenChain (tokenWorld .empty) tokenResolved _ hcanonical rfl

/-- The token is advanced through the anchor. -/
theorem advance_returned : ∃ d, Reaches (discoveryEnv sampleService tokenChain)
    (sampleService.advance (sampleToken [bothSides]) 12 tokenAnchor.blockHash, .empty) (.ret (), d) := by
  have hdeployed : (sampleToken [bothSides]).deploymentBlock ≤ 12 := by decide
  obtain ⟨d, hexec, -⟩ := DiscoveryService.exec_advance sampleService (sampleToken [bothSides])
    sample_serves hdeployed bothSides_ready tokenAnchor.blockHash rangesOk_empty
  have hreach := reaches_exec (honestDiscovery_allowed sampleService 2 sample_serves.canonical)
    (sampleService.advance (sampleToken [bothSides]) 12 tokenAnchor.blockHash) .empty
  rw [hexec] at hreach
  exact ⟨d, hreach⟩

section Advanced

variable {d : DiscoveryStore} (h : Reaches (discoveryEnv sampleService tokenChain)
  (sampleService.advance (sampleToken [bothSides]) 12 tokenAnchor.blockHash, .empty) (.ret (), d))

include h

theorem advanceToken_returned : Reaches (callEnv holdersService tokenChain)
    (holdersService.advanceToken tokenAnchor [] (sampleToken [bothSides]), tokenWorld .empty)
    (.ret [], tokenWorld d) := by
  unfold CensusService.advanceToken
  refine reaches_tryCatch (reaches_bind (a := ()) ?_)
  refine reaches_lift tokenWorld (fun op v answer v' hanswer => ?_) h
  exact ⟨answer, rfl, callEnv_still (.discovery op) answer ⟨v', hanswer, rfl⟩⟩

theorem advanceDiscovery_returned : Reaches (callEnv holdersService tokenChain)
    (holdersService.advanceDiscovery [sampleToken [bothSides]] tokenAnchor, tokenWorld .empty)
    (.ret (), tokenWorld d) := reaches_bind (reaches_bind (advanceToken_returned h))

end Advanced

theorem needsHolderDiscovery_holdersJob : holdersService.needsHolderDiscovery holdersJob = .ok true := by
  have hfull : holdersCatalog.usesFullHolders "full_holders" = .ok true := by
    unfold Catalog.usesFullHolders
    rw [descend_known List.not_mem_nil (show _ = some holdersSelector from rfl)]
    rfl
  show (holdersCatalog.usesFullHolders "full_holders").mapError ServiceException.holders = _
  rw [hfull]
  rfl

theorem jobs_holdersService : holdersService.jobs none = .ok [holdersJob] := rfl

theorem discover_returned {d : DiscoveryStore}
    (h : Reaches (callEnv holdersService tokenChain)
      (holdersService.advanceDiscovery [sampleToken [bothSides]] tokenAnchor, tokenWorld .empty)
      (.ret (), tokenWorld d)) :
    Reaches (callEnv holdersService tokenChain) (holdersService.discover 0 none, tokenWorld .empty)
      (.ret tokenAnchor, tokenWorld d) := by
  unfold CensusService.discover
  refine (reaches_bind resolveAnchor_returned).trans ?_
  simp only [jobs_holdersService, MonadExcept.ofExcept, pure_eq, ret_bind, List.foldlM_cons,
    List.foldlM_nil, needsHolderDiscovery_holdersJob, if_true]
  exact reaches_bind h

/-- The one token, which no attempt has reported yet. -/
def tokenWork : JobWork := ⟨holdersJob, [.token (sampleToken [bothSides])]⟩

theorem planJobs_returned : Reaches (callEnv holdersService tokenChain)
    (holdersService.planJobs 0 none, tokenWorld .empty)
    (.ret (tokenAnchor, [tokenWork]), tokenWorld .empty) := by
  unfold CensusService.planJobs
  refine (reaches_bind resolveAnchor_returned).trans ?_
  simp only [jobs_holdersService, MonadExcept.ofExcept, pure_eq, ret_bind, List.mapM_cons,
    List.mapM_nil]
  exact .head (.call (callEnv_still (.publishedTargetAddresses 100 "token_balances" .token 0 true)
    (.ok []) ⟨rfl, .inl rfl⟩)) .refl

theorem discoverPending_returned {d : DiscoveryStore}
    (h : Reaches (callEnv holdersService tokenChain)
      (holdersService.advanceDiscovery [sampleToken [bothSides]] tokenAnchor, tokenWorld .empty)
      (.ret (), tokenWorld d)) :
    Reaches (callEnv holdersService tokenChain)
      (holdersService.discoverPending 0 tokenAnchor [tokenWork], tokenWorld .empty)
      (.ret (), tokenWorld d) := by
  have hadded : holdersService.addPending .empty tokenWork =
      .ok (Dict.ofValues TokenConfig.address [sampleToken [bothSides]]) := by
    unfold CensusService.addPending
    rw [show tokenWork.job = holdersJob from rfl, needsHolderDiscovery_holdersJob]
    rfl
  have hpending : [tokenWork].foldlM holdersService.addPending .empty =
      .ok (Dict.ofValues TokenConfig.address [sampleToken [bothSides]]) := by
    rw [List.foldlM_cons, hadded]
    rfl
  unfold CensusService.discoverPending
  rw [hpending]
  exact h

theorem prepare_returned {d : DiscoveryStore}
    (h : Reaches (callEnv holdersService tokenChain)
      (holdersService.advanceDiscovery [sampleToken [bothSides]] tokenAnchor, tokenWorld .empty)
      (.ret (), tokenWorld d)) :
    Reaches (callEnv holdersService tokenChain) (holdersService.prepare 0 none, tokenWorld .empty)
      (.ret ⟨tokenAnchor, [tokenWork], ⟨100, holdersCatalog.universes, [], []⟩⟩, tokenWorld d) := by
  have hmetadata : Reaches (callEnv holdersService tokenChain)
      (holdersService.resolveMetadataOnce, tokenWorld d) (.ret (), tokenWorld d) :=
    .head (.call (callEnv_still .metadataPassDone true ⟨rfl, rfl⟩)) .refl
  unfold CensusService.prepare
  refine (reaches_bind planJobs_returned).trans ?_
  refine (reaches_bind (discoverPending_returned h)).trans ?_
  exact reaches_bind hmetadata

/-- The receiver of the sample log. -/
theorem receiver_onChain : ∃ label, HolderOnChain sampleService tokenChain (sampleToken [bothSides]) 12
    (sampleHolder 'b') label :=
  ⟨_, bothSides, List.mem_singleton_self _, rfl, _, bothSides_event, .inr (by decide), sampleLog,
    sampleLog_mem, by decide, by decide, 2, by decide, sampleLog_holderAt.2⟩

theorem receiver_answered {d : DiscoveryStore} (h : LedgersAnswered holdersService (fun _ => tokenChain) 0
      tokenAnchor d (sampleToken [bothSides])) :
    ∃ members, d.holderMembers 100 sampleAddress 12 = .ok members ∧
      sampleHolder 'b' ∈ members.map UniverseMember.address := by
  obtain ⟨members, hmembers, hfrozen⟩ :=
    h _ (.inl rfl) bothSides_distinct sampleAddress normalize_sampleAddress
  have hmem := (hfrozen.members _).mpr receiver_onChain
  rw [List.map_map] at hmem
  exact ⟨members, hmembers, hmem⟩

theorem discover_exact_sample : ∃ d members,
    Reaches (callEnv holdersService tokenChain) (holdersService.discover 0 none, tokenWorld .empty)
      (.ret tokenAnchor, tokenWorld d) ∧
    d.holderMembers 100 sampleAddress 12 = .ok members ∧
      sampleHolder 'b' ∈ members.map UniverseMember.address := by
  obtain ⟨d, hadvance⟩ := advance_returned
  have hreturned := discover_returned (advanceDiscovery_returned hadvance)
  obtain ⟨jobs, hjobs, hexact⟩ := @discover_exact holdersService 0 tokenAnchor (fun _ => tokenChain)
    (tokenWorld .empty) (tokenWorld d) none .refl hreturned
  obtain rfl : [holdersJob] = jobs := Except.ok.inj (jobs_holdersService.symm.trans hjobs)
  have hcovered : holdersService.Discoverable 0 tokenAnchor holdersJob (sampleToken [bothSides]) :=
    ⟨needsHolderDiscovery_holdersJob, _, rfl, List.mem_singleton_self _, rfl⟩
  obtain ⟨members, hmembers, hholder⟩ :=
    receiver_answered (hexact holdersJob (List.mem_singleton_self _) _ hcovered)
  exact ⟨d, members, hreturned, hmembers, hholder⟩

theorem prepare_exact_sample : ∃ d members,
    Reaches (callEnv holdersService tokenChain) (holdersService.prepare 0 none, tokenWorld .empty)
      (.ret ⟨tokenAnchor, [tokenWork], ⟨100, holdersCatalog.universes, [], []⟩⟩, tokenWorld d) ∧
    d.holderMembers 100 sampleAddress 12 = .ok members ∧
      sampleHolder 'b' ∈ members.map UniverseMember.address := by
  obtain ⟨d, hadvance⟩ := advance_returned
  have hreturned := prepare_returned (advanceDiscovery_returned hadvance)
  have hexact := @prepare_exact holdersService 0 (fun _ => tokenChain) (tokenWorld .empty) (tokenWorld d)
    none _ .refl hreturned
  obtain ⟨members, hmembers, hholder⟩ :=
    receiver_answered (hexact tokenWork (List.mem_singleton_self _) needsHolderDiscovery_holdersJob _
      (List.mem_singleton_self _))
  exact ⟨d, members, hreturned, hmembers, hholder⟩

end RpcStateIndexer
