import RpcStateIndexer.Catalog.Emission
import RpcStateIndexer.Catalog.Provider
import RpcStateIndexer.Catalog.Watermark

/-!
# Incremental enumeration

A full-history run, and after it runs that each resume below the head of the one before.  What a full-history
run at the last head emits, some run has emitted, where the events that make a pool meet in one window and
the vault was heard in it.
-/

namespace RpcStateIndexer

open Reasoning Program

namespace CatalogEnumeration

variable {keccak : String → List UInt8} {chain : PoolChain} {v3Topic : String}

/-! ## Runs -/

def allSources : List PoolSource := [.uniswapV3, .swaprV3, .balancerV2, .balancerV3]

/-- All four sources and the default bounds. -/
def defaultArgs (incremental : Bool) (overlap : Int) : EnumerationArgs where
  sources := ["uniswap_v3", "swapr_v3", "balancer_v2", "balancer_v3"]
  fromBlock := none
  toBlock := none
  incremental := incremental
  overlap := overlap

/-- A run that returned: the head and the watermark that it read, and the calls after that. -/
structure CatalogRun where
  incremental : Bool
  overlap : Int
  head : Int
  watermark : Option Int
  calls : List (Sigma CatalogAnswer)
  pools : List PoolRow

namespace CatalogRun

def hi (run : CatalogRun) : Int := run.head - 32

def start (run : CatalogRun) : Option Int := scanStart none run.incremental run.watermark run.overlap

structure Completes (keccak : String → List UInt8) (chain : PoolChain) (run : CatalogRun) : Prop where
  runs : Runs (main keccak (defaultArgs run.incremental run.overlap))
    (⟨.blockNumber, .ok run.head⟩ :: ⟨.loadWatermark, .ok run.watermark⟩ :: run.calls) (.ok run.pools)
  exact : ∀ x ∈ run.calls, chain.Exact x

/-- No call failed that the chain answers. -/
def FailureFree (chain : PoolChain) (run : CatalogRun) : Prop :=
  ∀ contract data block answer, ⟨.ethCall contract data block, answer⟩ ∈ run.calls →
    (chain.call contract data block).isSome → ∃ returned : List UInt8, answer = .ok returned

/-- The log lies in the window that the run scans of the contract. -/
def Scans (chain : PoolChain) (run : CatalogRun) (log : EventLog) : Prop :=
  lowOf chain run.start log.address run.hi ≤ log.blockNumber ∧ (log.blockNumber : Int) ≤ run.hi

theorem FailureFree.resolutionAnswered {run : CatalogRun} (h : run.FailureFree chain) (hi : Int) :
    ResolutionAnswered chain keccak hi run.calls :=
  fun _ _ _ _ _ _ data answer _ hmem => h balancerV3Vault data (hi - 32) answer hmem

/-- The pools of a run are the rows of the four sources; of Balancer V3, those whose calls are answered. -/
theorem Completes.pools {run : CatalogRun} (h : run.Completes keccak chain)
    (hfirst : RegistersFirst chain keccak v3Topic)
    (hresolved : ResolutionAnswered chain keccak run.hi run.calls) :
    (∀ row ∈ run.pools, ∃ source, Origin keccak chain v3Topic run.start run.hi source row) ∧
      ∀ source row, Origin keccak chain v3Topic run.start run.hi source row →
        (source = .balancerV3 → Answered chain keccak row.address run.hi run.calls) → row ∈ run.pools := by
  obtain ⟨head, t₁, heq, h₁⟩ := runs_ask_bind_ok h.runs
  cases heq
  obtain ⟨watermark, t₂, heq, h₂⟩ := runs_ask_bind_ok h₁
  cases heq
  obtain ⟨st, t₃, t₄, hcalls, hsources, hrest⟩ := runs_bind_ok_iff.mp h₂
  obtain ⟨written, t₅, t₆, -, -, hreturn⟩ := runs_bind_ok_iff.mp hrest
  have hpools : run.pools = st.pools := Except.ok.inj (runs_ret_iff.mp hreturn).2
  have hmem : ∀ x ∈ t₃, x ∈ run.calls := fun x hx => hcalls ▸ List.mem_append_left _ hx
  have hsources : Runs ((allSources.map PoolSource.name).foldlM
      (enumerateSource keccak run.start run.hi) .empty) t₃ (.ok st) := hsources
  obtain ⟨rows, hrows, horigin, hevery⟩ := pools_of_sources hsources
    (fun x hx => h.exact x (hmem x hx)) hfirst (hresolved.mono hmem)
  rw [hpools, hrows]
  refine ⟨fun row hrow => ?_, fun source row hrow hanswered => ?_⟩
  · obtain ⟨source, -, hsource⟩ := horigin row hrow
    exact ⟨source, hsource⟩
  · have hsource : source ∈ allSources := by cases source <;> decide
    exact hevery source hsource row hrow fun hv3 => (hanswered hv3).mono hmem

end CatalogRun

/-! ## Sequences of runs -/

/-- A full-history run, then incremental ones at later heads.  A run that raises emits nothing and leaves the
watermark. -/
inductive Sequence (keccak : String → List UInt8) (chain : PoolChain) : List CatalogRun → CatalogRun → Prop
  | full {run : CatalogRun} (completes : run.Completes keccak chain) (hfull : run.incremental = false) :
      Sequence keccak chain [run] run
  | incremental {runs : List CatalogRun} {last run : CatalogRun} (earlier : Sequence keccak chain runs last)
      (completes : run.Completes keccak chain) (hincremental : run.incremental = true)
      (hwatermark : run.watermark = some last.hi) (hhead : last.head ≤ run.head) :
      Sequence keccak chain (runs ++ [run]) run

theorem Sequence.completes {runs : List CatalogRun} {last : CatalogRun} (h : Sequence keccak chain runs last) :
    ∀ run ∈ runs, run.Completes keccak chain := by
  induction h with
  | full completes hfull => exact List.forall_mem_singleton.mpr completes
  | incremental earlier completes hincremental hwatermark hhead ih =>
    exact List.forall_mem_append.mpr ⟨ih, List.forall_mem_singleton.mpr completes⟩

theorem Sequence.hi_le {runs : List CatalogRun} {last : CatalogRun} (h : Sequence keccak chain runs last) :
    ∀ run ∈ runs, run.hi ≤ last.hi := by
  induction h with
  | full completes hfull => exact List.forall_mem_singleton.mpr le_rfl
  | incremental earlier completes hincremental hwatermark hhead ih =>
    have hle := Int.sub_le_sub_right hhead 32
    exact List.forall_mem_append.mpr
      ⟨fun run hrun => (ih run hrun).trans hle, List.forall_mem_singleton.mpr le_rfl⟩

/-- A full-history run scans every log up to its head. -/
theorem CatalogRun.scans_of_full {run : CatalogRun} (hfull : run.incremental = false) {log : EventLog}
    (hlog : log ∈ chain.logs) (hle : (log.blockNumber : Int) ≤ run.hi) : run.Scans chain log := by
  have hstart : run.start = none := by
    unfold CatalogRun.start scanStart
    rw [hfull]
  have hdeployed := chain.deployed_le log hlog
  unfold CatalogRun.Scans lowOf
  rw [hstart, Option.getD_none]
  omega

/-- Where no run starts later than the block after the head before, every log is scanned by some run. -/
theorem Sequence.exists_scans {runs : List CatalogRun} {last : CatalogRun} (h : Sequence keccak chain runs last)
    (hoverlap : ∀ run ∈ runs, -1 ≤ run.overlap) {log : EventLog} (hlog : log ∈ chain.logs)
    (hle : (log.blockNumber : Int) ≤ last.hi) : ∃ run ∈ runs, run.Scans chain log := by
  induction h with
  | @full run completes hfull =>
    exact ⟨run, List.mem_singleton.mpr rfl, CatalogRun.scans_of_full hfull hlog hle⟩
  | @incremental runs last run earlier completes hincremental hwatermark hhead ih =>
    obtain ⟨hearlier, hlast⟩ := List.forall_mem_append.mp hoverlap
    by_cases hbefore : (log.blockNumber : Int) ≤ last.hi
    · obtain ⟨other, hother, hscans⟩ := ih hearlier hbefore
      exact ⟨other, List.mem_append_left _ hother, hscans⟩
    · -- the log lies above the watermark
      have hstart : run.start = some (max 0 (last.hi - run.overlap)) := by
        unfold CatalogRun.start scanStart
        rw [hincremental, hwatermark]
      have hrun := hlast run (List.mem_singleton.mpr rfl)
      refine ⟨run, List.mem_append_right _ (List.mem_singleton.mpr rfl), ?_, hle⟩
      unfold lowOf
      rw [hstart, Option.getD_some]
      omega

/-! ## What is lost -/

/-- Every log up to the last head that alone makes a pool is scanned by some run; the last two logs of each
pool id that make a pool are scanned by one run; each pool that the vault knows is scanned by a run that the
vault answered for it, and answered the same; and every run was answered for the event's topic. -/
structure KeepsPools (keccak : String → List UInt8) (chain : PoolChain) (v3Topic : String)
    (runs : List CatalogRun) (last : CatalogRun) : Prop where
  scanned : ∀ source : PoolSource, source = .uniswapV3 ∨ source = .swaprV3 → ∀ log ∈ chain.logs,
    log.matches source.address (some (source.creationTopic keccak v3Topic)) = true →
      (log.blockNumber : Int) ≤ last.hi → ∃ run ∈ runs, run.Scans chain log
  joined : ∀ registration tokensLog poolId pool block tokens,
    chain.LastFor balancerV2Vault (topicV2Registered keccak) poolId last.hi registration →
    registrationEntry registration = .ok (poolId, pool, block) →
    chain.LastFor balancerV2Vault (topicV2Tokens keccak) poolId last.hi tokensLog →
    tokensEntry tokensLog = .ok (poolId, tokens) → (balancerV2Row poolId pool block tokens).isSome →
      ∃ run ∈ runs, run.Scans chain registration ∧ run.Scans chain tokensLog
  heard : ∀ log ∈ chain.logs, log.matches balancerV3Vault (some v3Topic) = true →
    (log.blockNumber : Int) ≤ last.hi → ∀ row, FromVault chain keccak last.hi log row →
      ∃ run ∈ runs, run.Scans chain log ∧ FromVault chain keccak run.hi log row ∧
        Answered chain keccak row.address run.hi run.calls
  resolved : ∀ run ∈ runs, ResolutionAnswered chain keccak run.hi run.calls

/-- What makes a row of a run at the last head, a run of the sequence has scanned. -/
theorem KeepsPools.exists_origin {runs : List CatalogRun} {last full : CatalogRun}
    (h : KeepsPools keccak chain v3Topic runs last) (hle : ∀ run ∈ runs, run.hi ≤ last.hi)
    (hhead : full.hi = last.hi) {source : PoolSource} {row : PoolRow}
    (horigin : Origin keccak chain v3Topic full.start full.hi source row) :
    ∃ run ∈ runs, Origin keccak chain v3Topic run.start run.hi source row ∧
      (source = .balancerV3 → Answered chain keccak row.address run.hi run.calls) := by
  rw [hhead] at horigin
  -- a creation event that a run scans is in its window
  have hcreation : ∀ {source : PoolSource} {log : EventLog} {run : CatalogRun},
      log ∈ chain.creations keccak v3Topic full.start last.hi source → run.Scans chain log →
        log ∈ chain.creations keccak v3Topic run.start run.hi source := by
    intro source log run hlog hscans
    obtain ⟨hmem, hmatches, -, -⟩ := PoolChain.mem_window.mp hlog
    rw [CatalogRun.Scans, EventLog.address_of_matches hmatches] at hscans
    exact PoolChain.mem_window.mpr ⟨hmem, hmatches, hscans⟩
  cases horigin with
  | uniswapV3 hlog hrow =>
    obtain ⟨hmem, hmatches, -, hhi⟩ := PoolChain.mem_window.mp hlog
    obtain ⟨run, hrun, hscans⟩ := h.scanned .uniswapV3 (.inl rfl) _ hmem hmatches hhi
    exact ⟨run, hrun, .uniswapV3 (hcreation hlog hscans) hrow, fun hv3 => by cases hv3⟩
  | swaprV3 hlog hrow =>
    obtain ⟨hmem, hmatches, -, hhi⟩ := PoolChain.mem_window.mp hlog
    obtain ⟨run, hrun, hscans⟩ := h.scanned .swaprV3 (.inr rfl) _ hmem hmatches hhi
    exact ⟨run, hrun, .swaprV3 (hcreation hlog hscans) hrow, fun hv3 => by cases hv3⟩
  | balancerV2 hregistration hlo hentry htokensLog hloTokens htokens hrow =>
    obtain ⟨run, hrun, hscans, hscansTokens⟩ := h.joined _ _ _ _ _ _ hregistration hentry htokensLog
      htokens (by rw [hrow]; rfl)
    rw [CatalogRun.Scans, EventLog.address_of_matches hregistration.isMatch] at hscans
    rw [CatalogRun.Scans, EventLog.address_of_matches htokensLog.isMatch] at hscansTokens
    refine ⟨run, hrun, ?_, fun hv3 => by cases hv3⟩
    exact .balancerV2 (hregistration.of_le hscans.2 (hle run hrun)) hscans.1 hentry
      (htokensLog.of_le hscansTokens.2 (hle run hrun)) hscansTokens.1 htokens hrow
  | balancerV3 hlog hrow =>
    obtain ⟨hmem, hmatches, -, hhi⟩ := PoolChain.mem_window.mp hlog
    obtain ⟨run, hrun, hscans, hvault, hanswered⟩ := h.heard _ hmem hmatches hhi row hrow
    exact ⟨run, hrun, .balancerV3 (hcreation hlog hscans) hvault, fun _ => hanswered⟩

/-- Every pool that a failure-free run at the last head emits, full history or not, some run of the sequence
has emitted with the same assets; and a scan yields each matching log of its window once, or raises. -/
theorem incremental_loses_nothing {runs : List CatalogRun} {last full : CatalogRun}
    (hfirst : RegistersFirst chain keccak v3Topic) (hruns : Sequence keccak chain runs last)
    (hkeeps : KeepsPools keccak chain v3Topic runs last) (hfull : full.Completes keccak chain)
    (hhead : full.head = last.head) (hfailureFree : full.FailureFree chain) :
    (∀ row ∈ full.pools, ∃ run ∈ runs, row ∈ run.pools) ∧
      ∀ address topic0 lo hi t r, Runs (scanLogs address topic0 lo hi) t r → (∀ x ∈ t, chain.Exact x) →
        r = .ok (chain.window address (some topic0) lo hi) ∨ ∃ fault, r = .error fault := by
  refine ⟨fun row hrow => ?_, fun address topic0 lo hi t r h hexact => scanLogs_exact h hexact⟩
  have hhi : full.hi = last.hi := congrArg (· - 32) hhead
  obtain ⟨source, horigin⟩ := (hfull.pools hfirst (hfailureFree.resolutionAnswered full.hi)).1 row hrow
  obtain ⟨run, hrun, horigin, hanswered⟩ := hkeeps.exists_origin hruns.hi_le hhi horigin
  exact ⟨run, hrun,
    ((hruns.completes run hrun).pools hfirst (hkeeps.resolved run hrun)).2 source row horigin hanswered⟩

/-! ## One pool, and a call that fails -/

/-- The run against a provider. -/
def runAgainst (keccak : String → List UInt8) (chain : PoolChain) (incremental : Bool) (overlap head : Int)
    (watermark : Option Int) (fails : String → List UInt8 → Int → Bool) : CatalogRun where
  incremental := incremental
  overlap := overlap
  head := head
  watermark := watermark
  calls := (traceOf (provider chain head watermark fails) (main keccak (defaultArgs incremental overlap))).drop 2
  pools := (answeredBy (provider chain head watermark fails)
    (main keccak (defaultArgs incremental overlap))).toOption.getD []

section RunAgainst

variable {incremental : Bool} {overlap head : Int} {watermark : Option Int}
  {fails : String → List UInt8 → Int → Bool}

theorem completes_runAgainst {pools : List PoolRow} (h : answeredBy (provider chain head watermark fails)
    (main keccak (defaultArgs incremental overlap)) = .ok pools) :
    (runAgainst keccak chain incremental overlap head watermark fails).Completes keccak chain ∧
      (runAgainst keccak chain incremental overlap head watermark fails).pools = pools := by
  have hpools : (runAgainst keccak chain incremental overlap head watermark fails).pools = pools := by
    simp only [runAgainst, h]
    rfl
  refine ⟨⟨?_, fun x hx => exact_of_mem_traceOf x (List.mem_of_mem_drop hx)⟩, hpools⟩
  rw [hpools, ← h]
  exact runs_answeredBy (provider chain head watermark fails) (main keccak (defaultArgs incremental overlap))

/-- A provider that fails no call. -/
theorem failureFree_runAgainst (h : ∀ contract data block, fails contract data block = false) :
    (runAgainst keccak chain incremental overlap head watermark fails).FailureFree chain := by
  intro contract data block answer hmem hknown
  have hanswer : answer = provider chain head watermark fails (.ethCall contract data block) :=
    answer_of_mem_traceOf (List.mem_of_mem_drop hmem)
  obtain ⟨returned, hreturned⟩ := Option.isSome_iff_exists.mp hknown
  refine ⟨returned, hanswer.trans ?_⟩
  simp only [provider, h, hreturned]
  rfl

end RunAgainst

def samplePool : String := hexText (List.replicate 40 '2')

def sampleToken : String := hexText (List.replicate 40 '3')

/-- The vault's answer for a pool of one token. -/
def sampleTokenInfo : List UInt8 :=
  (encodeV3 [(sampleToken, 1)] [⟨List.Vector.replicate 32 0, List.Vector.replicate 32 0,
    List.Vector.replicate 32 0⟩] [1]).getD []

/-- The registration of one pool, at block 0. -/
def registrationLog : EventLog :=
  ⟨balancerV3Vault, [sampleTopic, hexText (List.replicate 64 '2')], [], 0⟩

/-- A chain with one pool of Balancer V3. -/
def vaultChain : PoolChain where
  logs := [registrationLog]
  deployed := fun _ => 0
  call := fun contract data _ =>
    if contract = balancerV3Vault ∧ (poolTokenInfoCalldata knownDigests samplePool).toOption = some data then
      some sampleTokenInfo
    else none
  sorted := List.pairwise_singleton _ _
  deployed_le := fun _ _ => Nat.zero_le _

def sampleRow : PoolRow := balancerV3Row samplePool 0 [(sampleToken, 1)]

theorem sampleCalldata : ∃ data, poolTokenInfoCalldata knownDigests samplePool = .ok data := by
  have hpool : isAddress samplePool = true := isAddress_hexText (by decide) (by decide)
  obtain ⟨bytes, hbytes⟩ := exists_addressWord hpool
  refine ⟨functionSelector knownDigests "getPoolTokenInfo(address)" ++ bytes, ?_⟩
  rw [poolTokenInfoCalldata, hbytes]
  rfl

theorem addrOf_samplePool : addrOf (hexText (List.replicate 64 '2')) = samplePool := by
  have hsuffix : suffix (hexText (List.replicate 64 '2')) 40 = String.ofList (List.replicate 40 '2') := by
    rw [suffix, hexText, String.toList_ofList]
    rfl
  rw [addrOf, hsuffix, ← String.toList_inj, String.toList_append, String.toList_ofList, toLower_toList,
    String.toList_ofList, samplePool, hexText, String.toList_ofList]
  decide

theorem tokenInfo_vaultChain (block : Int) :
    vaultChain.tokenInfo knownDigests samplePool block = some [(sampleToken, 1)] := by
  obtain ⟨data, hdata⟩ := sampleCalldata
  have hencoded : (encodeV3 [(sampleToken, 1)] [⟨List.Vector.replicate 32 0, List.Vector.replicate 32 0,
      List.Vector.replicate 32 0⟩] [1]).isSome = true := by decide +kernel
  obtain ⟨raw, hraw⟩ := Option.isSome_iff_exists.mp hencoded
  have hcall : vaultChain.call balancerV3Vault data block = some raw := by
    simp only [vaultChain, hdata, sampleTokenInfo, hraw]
    exact if_pos ⟨trivial, rfl⟩
  rw [PoolChain.tokenInfo_eq hdata, hcall, Option.bind_some, decode_encodeV3 (List.cons_ne_nil _ _) hraw]
  rfl

theorem window_vaultChain_of_ne {address : String} (h : address ≠ balancerV3Vault) (topic0 : Option String)
    (lo hi : Int) : vaultChain.window address topic0 lo hi = [] := by
  rw [List.eq_nil_iff_forall_not_mem]
  intro log hlog
  obtain ⟨hmem, hmatches, -⟩ := PoolChain.mem_window.mp hlog
  have haddress := EventLog.address_of_matches hmatches
  rw [List.mem_singleton.mp hmem] at haddress
  exact h haddress.symm

theorem window_vaultChain {topic0 : Option String} (htopic : topic0.all fun topic => topic = sampleTopic)
    {lo hi : Int} (hhi : 0 ≤ hi) :
    vaultChain.window balancerV3Vault topic0 lo hi = if lo ≤ 0 then [registrationLog] else [] := by
  have hmatches : registrationLog.matches balancerV3Vault topic0 = true := by
    cases topic0 with
    | none => rfl
    | some topic =>
      have htopic : topic = sampleTopic := by simpa using htopic
      simp [EventLog.matches, registrationLog, htopic]
  have hblock : registrationLog.blockNumber = 0 := rfl
  show [registrationLog].filter _ = _
  split
  · rename_i hlo
    rw [List.filter_cons_of_pos, List.filter_nil]
    simp [hmatches, hblock, hlo, hhi]
  · rename_i hlo
    rw [List.filter_cons_of_neg, List.filter_nil]
    simp [hmatches, hblock, hlo]

section VaultRun

variable {head : Int} {watermark : Option Int} {fails : String → List UInt8 → Int → Bool}

/-- The first three sources have no logs there. -/
theorem answeredBy_otherSource {source : PoolSource} (hsource : source ≠ .balancerV3) (start : Option Int)
    (hi : Int) (st : CatalogScan) : answeredBy (provider vaultChain head watermark fails)
      (enumerateSource knownDigests start hi st source.name) = .ok st := by
  have hnone : ∀ address topic0 lo, address ≠ balancerV3Vault →
      vaultChain.window address (some topic0) lo hi = [] :=
    fun address topic0 lo hne => window_vaultChain_of_ne hne (some topic0) lo hi
  cases source with
  | uniswapV3 =>
    refine (answeredBy_scan start hi st).trans ?_
    rw [hnone _ _ _ (by decide)]
    rfl
  | swaprV3 =>
    refine (answeredBy_scan start hi st).trans ?_
    rw [hnone _ _ _ (by decide)]
    rfl
  | balancerV2 =>
    refine (answeredBy_bind _ _ _).trans ?_
    rw [answeredBy_lowBlock, except_ok_bind, enumBalancerV2, answeredBy_bind, answeredBy_foldLogs,
      hnone _ _ _ (by decide)]
    show answeredBy _ (foldLogs _ _ _ _ _ _ >>= _) = _
    rw [answeredBy_bind, answeredBy_foldLogs, hnone _ _ _ (by decide)]
    rfl
  | balancerV3 => exact absurd rfl hsource

/-- The topic is resolved when the call for it does not fail. -/
theorem answeredBy_resolveV3Topic {hi : Int} (hhi : 0 ≤ hi)
    (hresolved : ∀ data, fails balancerV3Vault data (hi - 32) = false) :
    answeredBy (provider vaultChain head watermark fails) (resolveV3Topic knownDigests hi) = .ok sampleTopic := by
  obtain ⟨data, hdata⟩ := sampleCalldata
  have hlogs : vaultChain.window balancerV3Vault none (min (vaultChain.deployed balancerV3Vault : Int) hi)
      (min (min (vaultChain.deployed balancerV3Vault : Int) hi + maxRange - 1) hi) = [registrationLog] := by
    have hlow : min (vaultChain.deployed balancerV3Vault : Int) hi = 0 := min_eq_left hhi
    rw [hlow, window_vaultChain rfl (by simp only [maxRange]; omega), if_pos le_rfl]
  rw [resolveV3Topic, answeredBy_bind, answeredBy_findDeployBlock, except_ok_bind]
  show answeredBy _ (firstAccepted knownDigests (hi - 32) (vaultChain.window _ _ _ _)) = _
  rw [hlogs]
  show answeredBy _ (poolTokenInfo knownDigests (addrOf (hexText (List.replicate 64 '2'))) (hi - 32) >>= _) = _
  rw [addrOf_samplePool, answeredBy_bind, answeredBy_poolTokenInfo hdata, hresolved data, tokenInfo_vaultChain]
  rfl

/-- The pool is emitted when block 0 is scanned and the call at the head does not fail. -/
theorem answeredBy_balancerV3 {hi : Int} (hhi : 0 ≤ hi) {start : Option Int}
    (hresolved : ∀ data, fails balancerV3Vault data (hi - 32) = false) {failed : Bool}
    (hfailed : ∀ data, fails balancerV3Vault data hi = failed) (st : CatalogScan) :
    answeredBy (provider vaultChain head watermark fails)
        (enumerateSource knownDigests start hi st PoolSource.balancerV3.name) =
      .ok (if start.getD 0 ≤ 0 ∧ failed = false then st.addPool sampleRow else st) := by
  obtain ⟨data, hdata⟩ := sampleCalldata
  have htopic : (some sampleTopic).all (fun topic => topic = sampleTopic) = true :=
    decide_eq_true (Eq.refl sampleTopic)
  have hpool : topicAt registrationLog 1 = .ok (hexText (List.replicate 64 '2')) := rfl
  have hlow : lowOf vaultChain start balancerV3Vault hi = start.getD 0 :=
    congrArg start.getD (min_eq_left hhi)
  refine (answeredBy_bind _ _ _).trans ?_
  rw [answeredBy_resolveV3Topic hhi hresolved, except_ok_bind]
  refine (answeredBy_bind _ _ _).trans ?_
  rw [answeredBy_lowBlock, except_ok_bind, enumBalancerV3, answeredBy_forLogs,
    window_vaultChain htopic hhi, hlow]
  by_cases hscanned : start.getD 0 ≤ 0
  · rw [if_pos hscanned, List.foldlM_cons, addBalancerV3, answeredBy_bind, answeredBy_ofExcept, hpool,
      except_ok_bind]
    simp only [addrOf_samplePool]
    rw [answeredBy_bind, answeredBy_poolTokenInfo hdata, hfailed data, tokenInfo_vaultChain]
    cases failed with
    | true =>
      have hlost : ¬ (start.getD 0 ≤ 0 ∧ true = false) := fun h => absurd h.2 (by decide)
      rw [if_pos rfl, if_neg hlost]
      rfl
    | false =>
      rw [if_neg Bool.false_ne_true, if_pos ⟨hscanned, rfl⟩]
      rfl
  · rw [if_neg hscanned, if_neg fun h => hscanned h.1]
    rfl

/-- The pools of a run on that chain. -/
theorem answeredBy_vaultChain (incremental : Bool) (overlap : Int) (hhead : 32 ≤ head)
    (hresolved : ∀ data, fails balancerV3Vault data (head - 32 - 32) = false) {failed : Bool}
    (hfailed : ∀ data, fails balancerV3Vault data (head - 32) = failed) :
    answeredBy (provider vaultChain head watermark fails) (main knownDigests (defaultArgs incremental overlap)) =
      .ok (if (scanStart none incremental watermark overlap).getD 0 ≤ 0 ∧ failed = false then [sampleRow]
        else []) := by
  show answeredBy _ (List.foldlM (enumerateSource knownDigests (scanStart none incremental watermark overlap)
    (head - 32)) .empty (allSources.map PoolSource.name) >>= _) = _
  rw [answeredBy_bind, answeredBy_foldlM]
  simp only [allSources, List.map_cons, List.map_nil, List.foldlM_cons, List.foldlM_nil]
  rw [answeredBy_otherSource (by decide), except_ok_bind, answeredBy_otherSource (by decide), except_ok_bind,
    answeredBy_otherSource (by decide), except_ok_bind, answeredBy_balancerV3 (by omega) hresolved hfailed,
    except_ok_bind, pure_bind, answeredBy_bind]
  refine (congrArg (· >>= _) (answeredBy_writeCatalog (head - 32) _)).trans ?_
  show Except.ok (CatalogScan.pools (ite _ _ _)) = _
  split
  · exact congrArg Except.ok (pools_addPool .empty sampleRow)
  · rfl

end VaultRun

/-- The full-history run at head 82. -/
def firstRun (fails : String → List UInt8 → Int → Bool) : CatalogRun :=
  runAgainst knownDigests vaultChain false 10 82 none fails

def failsNever (_contract : String) (_data : List UInt8) (_block : Int) : Bool := false

/-- The calls at block 50 fail. -/
def failsOnce (_contract : String) (_data : List UInt8) (block : Int) : Bool := block = 50

/-- The incremental run at head 282: it starts at block 40. -/
def secondRun : CatalogRun :=
  runAgainst knownDigests vaultChain true 10 282 (some 50) failsNever

/-- The full-history run at head 282. -/
def fullRun : CatalogRun :=
  runAgainst knownDigests vaultChain false 10 282 none failsNever

theorem completes_firstRun {fails : String → List UInt8 → Int → Bool} {failed : Bool}
    (hresolved : ∀ data, fails balancerV3Vault data 18 = false)
    (hfailed : ∀ data, fails balancerV3Vault data 50 = failed) :
    (firstRun fails).Completes knownDigests vaultChain ∧
      (firstRun fails).pools = if failed = false then [sampleRow] else [] := by
  have hpools : answeredBy (provider vaultChain 82 none fails) _ = _ :=
    answeredBy_vaultChain false 10 (by decide) hresolved hfailed
  obtain ⟨hcompletes, hrow⟩ := completes_runAgainst hpools
  refine ⟨hcompletes, hrow.trans ?_⟩
  cases failed <;> rfl

theorem completes_secondRun : secondRun.Completes knownDigests vaultChain ∧ secondRun.pools = [] := by
  have hfailed : ∀ data, failsNever balancerV3Vault data 250 = false := fun _ => rfl
  have hpools : answeredBy (provider vaultChain 282 (some 50) failsNever) _ = _ :=
    answeredBy_vaultChain true 10 (by decide) (fun _ => rfl) hfailed
  obtain ⟨hcompletes, hrow⟩ := completes_runAgainst hpools
  exact ⟨hcompletes, hrow.trans (if_neg fun h => absurd h.1 (by decide))⟩

theorem completes_fullRun : fullRun.Completes knownDigests vaultChain ∧ fullRun.pools = [sampleRow] := by
  have hfailed : ∀ data, failsNever balancerV3Vault data 250 = false := fun _ => rfl
  have hpools : answeredBy (provider vaultChain 282 none failsNever) _ = _ :=
    answeredBy_vaultChain false 10 (by decide) (fun _ => rfl) hfailed
  obtain ⟨hcompletes, hrow⟩ := completes_runAgainst hpools
  exact ⟨hcompletes, hrow.trans (if_pos ⟨by decide, rfl⟩)⟩

theorem sequence_vaultChain {fails : String → List UInt8 → Int → Bool}
    (h : (firstRun fails).Completes knownDigests vaultChain) :
    Sequence knownDigests vaultChain [firstRun fails, secondRun] secondRun :=
  .incremental (.full h rfl) completes_secondRun.1 rfl rfl (show (82 : Int) ≤ 282 by decide)

theorem registersFirst_vaultChain : RegistersFirst vaultChain knownDigests sampleTopic := by
  intro earlier log later hlogs _ topic0 topic1 rest block htopics _
  have hmem : log ∈ vaultChain.logs := by
    rw [hlogs]
    exact List.mem_append_right _ List.mem_cons_self
  rw [List.mem_singleton.mp hmem] at htopics
  exact .inl (List.cons.inj htopics).1.symm

/-- The call for the pool fails in the run that scans its registration, and no later run asks again. -/
theorem failed_call_loses_a_pool :
    RegistersFirst vaultChain knownDigests sampleTopic ∧
      Sequence knownDigests vaultChain [firstRun failsOnce, secondRun] secondRun ∧
      fullRun.Completes knownDigests vaultChain ∧ fullRun.incremental = false ∧
      fullRun.head = secondRun.head ∧ fullRun.FailureFree vaultChain ∧
      ¬ ∀ row ∈ fullRun.pools, ∃ run ∈ [firstRun failsOnce, secondRun], row ∈ run.pools := by
  have hanswered : ∀ data, failsOnce balancerV3Vault data 18 = false := fun _ => rfl
  have hfailed : ∀ data, failsOnce balancerV3Vault data 50 = true := fun _ => rfl
  obtain ⟨hfirst, hfirstPools⟩ := completes_firstRun hanswered hfailed
  refine ⟨registersFirst_vaultChain, sequence_vaultChain hfirst, completes_fullRun.1, rfl, rfl,
    failureFree_runAgainst fun _ _ _ => rfl, fun hall => ?_⟩
  obtain ⟨run, hrun, hrow⟩ := hall sampleRow (completes_fullRun.2 ▸ List.mem_singleton.mpr rfl)
  simp only [List.mem_cons, List.not_mem_nil, or_false] at hrun
  rcases hrun with rfl | rfl
  · rw [hfirstPools] at hrow
    exact List.not_mem_nil hrow
  · rw [completes_secondRun.2] at hrow
    exact List.not_mem_nil hrow

/-- Where no call fails, the same runs keep the pool. -/
theorem incremental_loses_nothing_sample :
    ∃ run ∈ [firstRun failsNever, secondRun], sampleRow ∈ run.pools := by
  have hrow : sampleRow ∈ fullRun.pools := by
    rw [completes_fullRun.2]
    exact List.mem_singleton_self sampleRow
  have hfirst : (firstRun failsNever).Completes knownDigests vaultChain ∧ _ :=
    completes_firstRun (fun _ => rfl) fun _ => rfl
  have hruns := sequence_vaultChain hfirst.1
  have hfailureFree : ∀ run ∈ [firstRun failsNever, secondRun], run.FailureFree vaultChain := by
    intro run hrun
    simp only [List.mem_cons, List.not_mem_nil, or_false] at hrun
    rcases hrun with rfl | rfl
    · exact failureFree_runAgainst fun _ _ _ => rfl
    · exact failureFree_runAgainst fun _ _ _ => rfl
  have hvault : ∀ log ∈ vaultChain.logs, log.address = balancerV3Vault := by
    intro log hlog
    rw [List.mem_singleton.mp hlog]
    rfl
  have hkeeps : KeepsPools knownDigests vaultChain sampleTopic [firstRun failsNever, secondRun]
      secondRun := by
    refine ⟨?_, ?_, ?_, fun run hrun => (hfailureFree run hrun).resolutionAnswered _⟩
    · intro source _ log hlog _ hle
      exact hruns.exists_scans (by decide) hlog hle
    · intro registration tokensLog poolId pool block tokens hregistration
      obtain ⟨earlier, later, hchain, -⟩ := hregistration.last
      have hmem : registration ∈ vaultChain.logs := hchain ▸ List.mem_append_right _ List.mem_cons_self
      have haddress := (EventLog.address_of_matches hregistration.isMatch).symm.trans (hvault _ hmem)
      exact absurd haddress (by decide)
    · intro log hlog _ _ row hrow
      obtain rfl := List.mem_singleton.mp hlog
      refine ⟨_, List.mem_cons_self, CatalogRun.scans_of_full rfl hlog (by decide), hrow, ?_⟩
      exact fun data answer _ hmem => hfailureFree _ List.mem_cons_self _ data _ answer hmem
  exact (incremental_loses_nothing registersFirst_vaultChain hruns hkeeps completes_fullRun.1 rfl
    (failureFree_runAgainst fun _ _ _ => rfl)).1 sampleRow hrow

end CatalogEnumeration

end RpcStateIndexer
