import RpcStateIndexer.Discovery.Contract
import RpcStateIndexer.Discovery.CrashSafety

/-!
# Against an honest environment discovery completes

A store that applies every insert, over the honest provider.  Where every log names canonical
holders at the configured positions, `advance` returns; this is what makes the assumptions of the
results about discovery satisfiable.
-/

namespace RpcStateIndexer

open Reasoning Program

/-- Answers from the honest provider and a store whose calls succeed. -/
def honestDiscovery (limit : Nat) (logs : List NormalizedLog) :
    (op : DiscoveryOp) → DiscoveryStore → DiscoveryAns op × DiscoveryStore
  | .rpc request, w => (honestLogs limit logs request, w)
  | .completedRanges chainId tokenAddress topic0, w =>
    (.ok (w.completedDiscoveryRanges chainId tokenAddress topic0), w)
  | .insertRanges rows origin, w => (.ok (), w.addRanges rows origin)
  | .insertHolders rows, w => (.ok (), w.addHolders rows)
  | .uuid4, w => (w.ranges.length, w)
  | .now, w => (0, w)

theorem honestDiscovery_allowed (svc : DiscoveryService) (limit : Nat) {logs : List NormalizedLog}
    (hcanonical : ∀ l ∈ logs, l.Canonical) (op : DiscoveryOp) (w : DiscoveryStore) :
    discoveryEnv svc {l | l ∈ logs} op w (honestDiscovery limit logs op w).1
      (honestDiscovery limit logs op w).2 := by
  cases op with
  | rpc request =>
    refine ⟨rfl, fun f r entries endpoint heq _ => ?_⟩
    rw [Sigma.mk.injEq] at heq
    obtain ⟨rfl, hreply⟩ := heq
    exact answersExactly_honestLogs hcanonical (eq_of_heq hreply)
  | completedRanges chainId tokenAddress topic0 => exact ⟨rfl, .inl rfl⟩
  | insertRanges rows origin => exact .inl ⟨rfl, rfl⟩
  | insertHolders rows => exact .inl ⟨rfl, rfl⟩
  | uuid4 => rfl
  | now => rfl

/-- Every log names a canonical holder at every one of the positions. -/
def NamesHolders (logs : List NormalizedLog) (positions : List Nat) : Prop :=
  ∀ l ∈ logs, ∀ position ∈ positions, ∃ holder, l.holderAt position = .ok holder

theorem holders_isOk {logs : List NormalizedLog} {positions : List Nat}
    (h : NamesHolders logs positions) (includeZero : Bool) {l : NormalizedLog} (hl : l ∈ logs) :
    ∃ holders, l.holders positions includeZero = .ok holders := by
  obtain ⟨addresses, haddresses⟩ := mapM_isOk (h l hl)
  exact ⟨_, by rw [NormalizedLog.holders, haddresses]; rfl⟩

namespace DiscoveryService

theorem observations_isOk {origin : ScanOrigin} {logs : List NormalizedLog}
    (h : NamesHolders logs origin.holderTopics) :
    ∃ observed, observations origin logs = .ok observed := by
  have heach : ∀ l ∈ logs, ∃ batch, (do
      let holders ← l.holders origin.holderTopics origin.includeZero
      return holders.map fun holder => (holder, l.blockNumber)) =
        (.ok batch : Except DiscoveryException _) := by
    intro l hl
    obtain ⟨holders, hholders⟩ := holders_isOk h origin.includeZero hl
    exact ⟨_, by rw [hholders]; rfl⟩
  obtain ⟨batches, hbatches⟩ := mapM_isOk heach
  exact ⟨_, by rw [observations, hbatches]; rfl⟩

theorem completedRow_isOk {svc : DiscoveryService} {g : GapScan} {scan : DiscoveryScan}
    (scanId startedAt finishedAt : Nat) (completed : CompletedRange)
    (hne : g.origin.holderTopics ≠ []) (hpos : ∀ position ∈ g.origin.holderTopics, 1 ≤ position)
    (h : NamesHolders scan.logs g.origin.holderTopics) :
    ∃ row, svc.completedRow g scanId startedAt finishedAt scan completed = .ok row := by
  have hcheck : (!g.origin.holderTopics.isEmpty &&
      g.origin.holderTopics.all (1 ≤ ·)) = true := by
    simp only [Bool.and_eq_true, Bool.not_eq_true', List.isEmpty_eq_false_iff, List.all_eq_true,
      decide_eq_true_eq]
    exact ⟨hne, hpos⟩
  obtain ⟨holders, hholders⟩ := mapM_isOk fun l (hl : l ∈ scan.logs.filter
      fun log => completed.blockRange.Contains log.blockNumber) =>
    holders_isOk h g.origin.includeZero (List.mem_of_mem_filter hl)
  exact ⟨_, by rw [completedRow, extractHolders, check, hcheck, if_pos rfl, except_ok_bind,
    hholders]; rfl⟩

/-- Against the honest environment a scan of an event returns logs the provider holds. -/
theorem scan_honestLogs {svc : DiscoveryService} {limit : Nat} {logs : List NormalizedLog}
    (hserves : svc.scanner.Serves limit logs) {tokenAddress topic0 : String}
    (haddress : isAddress tokenAddress = true) (hhash : isHash topic0 = true)
    (hlower : topic0.toLower = topic0) (gap : BlockRange) :
    ∃ scan, answeredBy (honestLogs limit logs)
        (svc.scanner.scan tokenAddress topic0 gap.start gap.endExclusive) = .ok scan ∧
      ∀ l ∈ scan.logs, l ∈ logs := by
  have htopic : isTopicWord topic0 = true := isTopicWord_iff.mpr ⟨hhash, hlower⟩
  have hscan : svc.scanner.scan tokenAddress topic0 gap.start gap.endExclusive =
      svc.scanner.scanFilter (.ofEvent tokenAddress topic0 haddress htopic) gap.start
        gap.endExclusive := by
    simp [StrictLogScanner.scan, haddress, parseHash, hhash, hlower, htopic]
  obtain ⟨scan, hok⟩ := StrictLogScanner.scanFilter_honestLogs hserves
    (.ofEvent tokenAddress topic0 haddress htopic) gap.nonempty
  have hrun := runs_answeredBy (honestLogs limit logs)
    (svc.scanner.scanFilter (.ofEvent tokenAddress topic0 haddress htopic) gap.start
      gap.endExclusive)
  rw [hok] at hrun
  refine ⟨scan, by rw [hscan, hok], fun l hl => ?_⟩
  have hlogs := (StrictLogScanner.scanFilter_logs hrun fun r entries endpoint hmem _ =>
    answersExactly_honestLogs hserves.canonical (answer_of_mem_traceOf hmem).symm).1 l
  exact (hlogs.mp hl).1

section Exec

variable {limit : Nat} {logs : List NormalizedLog} {w : DiscoveryStore}

@[simp] theorem exec_uuid4 :
    exec (honestDiscovery limit logs) uuid4 w = (.ok w.ranges.length, w) := rfl

@[simp] theorem exec_now : exec (honestDiscovery limit logs) now w = (.ok 0, w) := rfl

@[simp] theorem exec_insertDiscoveryRanges (rows : List DiscoveryRangeRow) (origin : ScanOrigin) :
    exec (honestDiscovery limit logs) (insertDiscoveryRanges rows origin) w =
      (.ok (), w.addRanges rows origin) := rfl

@[simp] theorem exec_insertHolderObservations (rows : List HolderRow) :
    exec (honestDiscovery limit logs) (insertHolderObservations rows) w =
      (.ok (), w.addHolders rows) := rfl

@[simp] theorem exec_completedDiscoveryRanges (chainId : Nat) (tokenAddress topic0 : String) :
    exec (honestDiscovery limit logs) (completedDiscoveryRanges chainId tokenAddress topic0) w =
      (.ok (w.completedDiscoveryRanges chainId tokenAddress topic0), w) := rfl

theorem exec_runRpc {α : Type} (p : RpcProgram DiscoveryException α) :
    exec (honestDiscovery limit logs) (runRpc p) w =
      ((answeredBy (honestLogs limit logs) p).mapError .discovery, w) :=
  exec_lift (fun _ => ⟨rfl, rfl⟩) p

end Exec

/-- Against the honest environment a gap scan returns. -/
theorem exec_scanGap {svc : DiscoveryService} {limit : Nat} {logs : List NormalizedLog}
    (hserves : svc.scanner.Serves limit logs) {g : GapScan}
    (haddress : isAddress g.tokenAddress = true) (hhash : isHash g.topic0 = true)
    (hlower : g.topic0.toLower = g.topic0) (hne : g.origin.holderTopics ≠ [])
    (hpos : ∀ position ∈ g.origin.holderTopics, 1 ≤ position)
    (hnames : NamesHolders logs g.origin.holderTopics) (w : DiscoveryStore) :
    ∃ w', exec (honestDiscovery limit logs) (svc.scanGap g) w = (.ok (), w') := by
  obtain ⟨scan, hscan, hsub⟩ := scan_honestLogs hserves haddress hhash hlower g.gap
  have hscanned : NamesHolders scan.logs g.origin.holderTopics := fun l hl => hnames l (hsub l hl)
  have hrow : ∀ completed ∈ scan.completedRanges, ∃ row,
      svc.completedRow g w.ranges.length 0 0 scan completed = .ok row := fun completed _ =>
    completedRow_isOk w.ranges.length 0 0 completed hne hpos hscanned
  obtain ⟨rangeRows, hrows⟩ := mapM_isOk hrow
  obtain ⟨observed, hobserved⟩ := observations_isOk hscanned
  simp only [scanGap, persistScan, exec_bind, exec_tryCatch, exec_uuid4, exec_now, exec_runRpc,
    hscan, hrows, hobserved, Except.mapError, exec_ofExcept]
  split
  · simp only [exec_bind, exec_insertHolderObservations, exec_insertDiscoveryRanges]
    exact ⟨_, rfl⟩
  · exact ⟨_, rfl⟩

/-- Ranges on file are not empty, as the constructor of `BlockRange` asks. -/
def RangesOk (w : DiscoveryStore) : Prop :=
  ∀ x ∈ w.ranges, x.1.rangeStartBlock < x.1.rangeEndBlockExclusive

theorem RangesOk.gapEffect {svc : DiscoveryService} {g : GapScan} {chain : Set NormalizedLog}
    {w w' : DiscoveryStore} (h : RangesOk w) (heffect : GapEffect svc g chain w w') :
    RangesOk w' := by
  intro x hx
  cases heffect with
  | none => exact h x hx
  | failed hfailed hnonempty =>
    rcases DiscoveryStore.mem_addRanges.mp hx with hx | ⟨hx, -⟩
    · exact h x hx
    · rwa [List.mem_singleton.mp hx]
  | observed hrows => exact h x hx
  | completed hrows =>
    rcases DiscoveryStore.mem_addRanges.mp hx with hx | ⟨hx, -⟩
    · exact h x hx
    · exact (hrows.ranges_cols _ hx).2.2.2.2

theorem make_isOk {w : DiscoveryStore} (hw : RangesOk w) (chainId : Nat)
    (tokenAddress topic0 : String) :
    ∃ completed, (w.completedDiscoveryRanges chainId tokenAddress topic0).mapM
      (fun range => BlockRange.make range.1 range.2) = .ok completed := by
  refine mapM_isOk fun range hrange => ?_
  rw [DiscoveryStore.completedDiscoveryRanges, mem_sortBy, List.mem_map] at hrange
  obtain ⟨x, hx, rfl⟩ := hrange
  exact ⟨_, dif_pos (hw x (DiscoveryStore.mem_completedRows hx).1)⟩

/-- Advancing an event returns, with any property that finished scans of its gaps keep. -/
theorem exec_advanceEvent {svc : DiscoveryService} {limit : Nat} {logs : List NormalizedLog}
    (hserves : svc.scanner.Serves limit logs) {token : TokenConfig} {eventConfig : EventConfig}
    {event : EventDefinition} (hevent : svc.abiRegistry.validateHolderTopics eventConfig.abi
      eventConfig.event eventConfig.holderTopics = .ok event)
    (hnames : NamesHolders logs eventConfig.holderTopics) (required : BlockRange)
    (anchorBlock : Nat) (anchorHash : String) {I : DiscoveryStore → Prop}
    (hI : ∀ g w w', GapOf svc token required eventConfig g → I w →
      GapDone svc g {l | l ∈ logs} w w' → I w') {w : DiscoveryStore} (hok : RangesOk w)
    (hw : I w) :
    ∃ w', exec (honestDiscovery limit logs)
      (svc.advanceEvent token required anchorBlock anchorHash eventConfig) w = (.ok (), w') ∧
        RangesOk w' ∧ I w' := by
  obtain ⟨completed, hcompleted⟩ := make_isOk hok svc.chainId token.address event.topic0
  simp only [advanceEvent, hevent, Except.mapError, exec_bind, exec_ofExcept,
    exec_completedDiscoveryRanges, hcompleted]
  refine exec_forM (fun w => RangesOk w ∧ I w) (fun gap hgap w₁ hw₁ => ?_) ⟨hok, hw⟩
  obtain ⟨hhash, hlower⟩ := AbiRegistry.topic0_ok hevent
  obtain ⟨w₂, hexec⟩ := exec_scanGap hserves (g := ⟨token.address, event.topic0,
    originOf token eventConfig, gap, anchorBlock, anchorHash⟩) token.address_ok hhash hlower
    eventConfig.topics_nonempty (fun _ h => eventConfig.one_le h) hnames w₁
  refine ⟨w₂, hexec, ?_⟩
  have hreach := reaches_exec (honestDiscovery_allowed svc limit hserves.canonical)
    (svc.scanGap ⟨token.address, event.topic0, originOf token eventConfig, gap, anchorBlock,
      anchorHash⟩) w₁
  rw [hexec] at hreach
  have hdone := (safe_scanGap svc _ {l | l ∈ logs} w₁).returns .none hreach
  exact ⟨hw₁.1.gapEffect hdone.effect, hI _ w₁ w₂ ⟨rfl, rfl, ⟨event, hevent, rfl⟩, fun block hblock =>
    contains_of_mem_coverageGaps hgap hblock⟩ hw₁.2 hdone⟩

/-- An event whose required range is on file is not scanned again, whatever was extracted. -/
theorem exec_advanceEvent_covered {svc : DiscoveryService} {limit : Nat}
    {logs : List NormalizedLog} {token : TokenConfig} {eventConfig : EventConfig}
    {event : EventDefinition} (hevent : svc.abiRegistry.validateHolderTopics eventConfig.abi
      eventConfig.event eventConfig.holderTopics = .ok event) {required : BlockRange}
    (anchorBlock : Nat) (anchorHash : String) {w : DiscoveryStore} (hok : RangesOk w)
    (hcovered : ∀ block, required.Contains block →
      w.Shows svc.chainId token.address event.topic0 block) :
    exec (honestDiscovery limit logs)
      (svc.advanceEvent token required anchorBlock anchorHash eventConfig) w = (.ok (), w) := by
  obtain ⟨completed, hcompleted⟩ := make_isOk hok svc.chainId token.address event.topic0
  have hgaps : coverageGaps required completed = [] :=
    (coverageGaps_eq_nil_iff required completed).mpr fun block hblock =>
      (covered_iff_shows hcompleted).mpr (hcovered block hblock)
  simp only [advanceEvent, hevent, Except.mapError, exec_bind, exec_ofExcept,
    exec_completedDiscoveryRanges, hcompleted, hgaps]
  rfl

/-- Against the honest environment `advance` returns. -/
theorem exec_advance (svc : DiscoveryService) (token : TokenConfig) {limit : Nat}
    {logs : List NormalizedLog} (hserves : svc.scanner.Serves limit logs) {anchorBlock : Nat}
    (hdeployed : token.deploymentBlock ≤ anchorBlock)
    (hevents : ∀ e ∈ token.discoveryEvents, (∃ event, svc.abiRegistry.validateHolderTopics e.abi
      e.event e.holderTopics = .ok event) ∧ NamesHolders logs e.holderTopics)
    (anchorHash : String) {w : DiscoveryStore} (hw : RangesOk w) :
    ∃ w', exec (honestDiscovery limit logs) (svc.advance token anchorBlock anchorHash) w =
      (.ok (), w') ∧ RangesOk w' := by
  have hlt : token.deploymentBlock < anchorBlock + 1 := by omega
  simp only [advance, BlockRange.make, dif_pos hlt, Except.mapError, exec_bind, exec_ofExcept]
  refine exec_forM RangesOk (fun eventConfig hmem w₁ hw₁ => ?_) hw
  obtain ⟨⟨event, hevent⟩, hnames⟩ := hevents eventConfig hmem
  obtain ⟨w', hexec, hok, -⟩ := exec_advanceEvent hserves hevent hnames
    ⟨token.deploymentBlock, anchorBlock + 1, hlt⟩ anchorBlock anchorHash (I := fun _ => True)
    (fun _ _ _ _ _ _ => trivial) hw₁ trivial
  exact ⟨w', hexec, hok⟩

end DiscoveryService

end RpcStateIndexer
