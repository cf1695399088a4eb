import RpcStateIndexer.Discovery.HonestStore

/-!
# What the discovery tables say about the chain

The guarantees of `DiscoveryService` over whole histories: a completed range always has the holders
of its logs on file, and an `advance` that returns has every configured holder on file whenever the
ranges it skips were scanned with the positions it needs.
-/

namespace RpcStateIndexer

open Reasoning Program

/-- In every store reachable by `advance` calls that may crash at any operation, a completed range
written by a scan of some topic positions has every holder at these positions of every matching log
on file by the log's block. -/
theorem completed_range_holders {chains : Nat → Set NormalizedLog} {w : DiscoveryStore}
    (h : DiscoveryReachable chains w) {row : DiscoveryRangeRow} {origin : ScanOrigin}
    (hrow : (row, origin) ∈ w.ranges) (hstatus : row.status = .completed) {l : NormalizedLog}
    (hl : l ∈ eventLogs (chains row.chainId) row.tokenAddress row.topic0)
    (hin : row.Contains l.blockNumber) :
    ∀ position ∈ origin.holderTopics, ∃ holder, l.holderAt position = .ok holder ∧
      (holder = zeroAddress ∧ origin.includeZero = false ∨
        ∃ agg ∈ w.holderUniverse, agg.chainId = row.chainId ∧
          agg.tokenAddress = row.tokenAddress ∧ agg.holderAddress = holder ∧
          agg.firstSeenBlock ≤ l.blockNumber) :=
  h.backed row origin hrow hstatus l hl hin

/-! ## A sample token -/

/-- The committed fragment: one `Transfer` event with two indexed addresses. -/
def sampleFragment : List (List (String × Json)) :=
  [[("type", .str "event"), ("name", .str "Transfer"), ("anonymous", .bool false),
    ("inputs", .arr [
      .obj [("type", .str "address"), ("indexed", .bool true)],
      .obj [("type", .str "address"), ("indexed", .bool true)],
      .obj [("type", .str "uint256"), ("indexed", .bool false)]])]]

def sampleRegistry : AbiRegistry where
  documents _ := .ok sampleFragment
  keccak _ := List.Vector.replicate 32 255

def sampleService : DiscoveryService := ⟨100, sampleRegistry, sampleScanner⟩

def transferEvent (positions : List Nat) (hne : positions ≠ [])
    (hrange : ∀ topic ∈ positions, topic ∈ [1, 2, 3]) (hnodup : positions.Nodup) : EventConfig :=
  ⟨"erc20", "Transfer", positions, hne, hrange, hnodup⟩

def sampleToken (events : List EventConfig) : TokenConfig where
  address := sampleAddress
  symbol := "SMP"
  decimals := 18
  tokenClass := .standardErc20
  deploymentBlock := 10
  dateStart := none
  dateEnd := none
  enabled := true
  zeroAddressRole := .eventSentinel
  balanceFunction := .balanceOf
  supplyFunctions := ["totalSupply"]
  discoveryEvents := events
  seedHolders := []
  universeAliases := []
  indexSource := none
  address_ok := sampleAddress_ok
  decimals_ok := by decide
  seeds_ok := by simp
  aliases_ok := by simp
  not_own_alias := by simp
  aliases_nodup := .nil
  dates_ok := by simp
  atoken_ok := by simp
  index_source_ok := by simp
  zero_seed_ok := by simp

/-- The holders of the sample log at the two positions. -/
theorem sampleLog_holderAt : sampleLog.holderAt 1 = .ok (sampleHolder 'a') ∧
    sampleLog.holderAt 2 = .ok (sampleHolder 'b') :=
  ⟨holderAt_sampleHolderWord (by decide) (by decide) rfl,
    holderAt_sampleHolderWord (by decide) (by decide) rfl⟩

def bothSides : EventConfig := transferEvent [1, 2] (by decide) (by decide) (by decide)

theorem bothSides_event : sampleRegistry.validateHolderTopics bothSides.abi bothSides.event
    bothSides.holderTopics = .ok ⟨"erc20", "Transfer", sampleWord 'f', ["address", "address"]⟩ :=
  rfl

/-- The samples scan the blocks from 10 to 13. -/
theorem sampleRange_nonempty : 10 < 14 := by decide

theorem sample_namesHolders {positions : List Nat} (h : ∀ position ∈ positions, position ∈ [1, 2]) :
    NamesHolders [sampleLog] positions := by
  intro l hl position hposition
  obtain rfl := List.mem_singleton.mp hl
  have := h position hposition
  simp only [List.mem_cons, List.not_mem_nil, or_false] at this
  rcases this with rfl | rfl
  · exact ⟨_, sampleLog_holderAt.1⟩
  · exact ⟨_, sampleLog_holderAt.2⟩

theorem rangesOk_empty : DiscoveryService.RangesOk .empty := by
  simp [DiscoveryService.RangesOk, DiscoveryStore.empty]

/-- The sample token is advanced to an anchor. -/
theorem sample_advance {events : List EventConfig} (hevents : ∀ e ∈ events,
      (∃ event, sampleRegistry.validateHolderTopics e.abi e.event e.holderTopics = .ok event) ∧
        NamesHolders [sampleLog] e.holderTopics) {anchorBlock : Nat} (hdeployed : 10 ≤ anchorBlock)
    {w : DiscoveryStore} (hok : DiscoveryService.RangesOk w) :
    ∃ w', Reaches (discoveryEnv sampleService {l | l ∈ [sampleLog]})
      (sampleService.advance (sampleToken events) anchorBlock "", w) (.ret (), w') ∧
        DiscoveryService.RangesOk w' := by
  obtain ⟨w', hexec, hok'⟩ := DiscoveryService.exec_advance sampleService (sampleToken events)
    sample_serves hdeployed hevents "" hok
  have hreach := reaches_exec (honestDiscovery_allowed sampleService 2 sample_serves.canonical)
    (sampleService.advance (sampleToken events) anchorBlock "") w
  rw [hexec] at hreach
  exact ⟨w', hreach, hok'⟩

theorem sampleLog_mem : sampleLog ∈ eventLogs {l | l ∈ [sampleLog]} sampleAddress
    (sampleWord 'f') := ⟨List.mem_singleton.mpr rfl, rfl, rfl⟩

def fromSide : EventConfig := transferEvent [1] (by decide) (by decide) (by decide)

def toSide : EventConfig := transferEvent [2] (by decide) (by decide) (by decide)

theorem bothSides_ready : ∀ e ∈ [bothSides], (∃ event, sampleRegistry.validateHolderTopics e.abi
    e.event e.holderTopics = .ok event) ∧ NamesHolders [sampleLog] e.holderTopics := by
  intro e he
  obtain rfl := List.mem_singleton.mp he
  exact ⟨⟨_, bothSides_event⟩, sample_namesHolders fun _ h => h⟩

/-- The origin of what is scanned for both sides. -/
def bothSidesOrigin : ScanOrigin := DiscoveryService.originOf (sampleToken [bothSides]) bothSides

/-- A completed range was scanned for both sides and ends with the anchor. -/
def BothSidesThrough (anchorBlock : Nat) (w : DiscoveryStore) : Prop :=
  ∀ x ∈ w.ranges, x.2 = bothSidesOrigin ∧
    (x.1.status = .completed → ∀ block, x.1.Contains block → block < anchorBlock + 1)

theorem BothSidesThrough.gapEffect {anchorBlock : Nat} {h : 10 < anchorBlock + 1} {g : GapScan}
    {w w' : DiscoveryStore} (hof : sampleService.GapOf (sampleToken [bothSides])
      ⟨10, anchorBlock + 1, h⟩ bothSides g) (hw : BothSidesThrough anchorBlock w)
    (heffect : sampleService.GapEffect g {l | l ∈ [sampleLog]} w w') :
    BothSidesThrough anchorBlock w' := by
  intro x hx
  cases heffect with
  | none => exact hw x hx
  | failed hfailed hnonempty =>
    rcases DiscoveryStore.mem_addRanges.mp hx with hx | ⟨hrow, horigin⟩
    · exact hw x hx
    · rw [List.mem_singleton.mp hrow, hfailed, horigin, hof.origin_eq]
      exact ⟨rfl, fun h => RangeStatus.noConfusion h⟩
  | observed hrows => exact hw x hx
  | completed hrows =>
    rcases DiscoveryStore.mem_addRanges.mp hx with hx | ⟨hrow, horigin⟩
    · exact hw x hx
    · refine ⟨horigin.trans hof.origin_eq, fun _ block hblock => ?_⟩
      exact (hof.inside block ((hrows.ranges_cover block).mp ⟨x.1, hrow, hblock⟩)).2

/-- An advance of the sample token files its one log in a range scanned for both sides. -/
theorem bothSides_onFile {anchorBlock : Nat} (hanchor : 11 ≤ anchorBlock) {w : DiscoveryStore}
    (hreach : Reaches (discoveryEnv sampleService {l | l ∈ [sampleLog]})
      (sampleService.advance (sampleToken [bothSides]) anchorBlock "", .empty) (.ret (), w)) :
    BothSidesThrough anchorBlock w ∧
      w.OnFile 100 sampleAddress (sampleWord 'f') bothSidesOrigin 11 := by
  have hkept : ∀ h, ∀ e ∈ [bothSides], DiscoveryService.KeptByScans sampleService
      {l | l ∈ [sampleLog]} (sampleToken [bothSides]) ⟨10, anchorBlock + 1, h⟩ e
        (BothSidesThrough anchorBlock) := by
    intro h e he g w w' hof hw heffect
    obtain rfl := List.mem_singleton.mp he
    exact hw.gapEffect hof heffect
  have hempty : BothSidesThrough anchorBlock .empty := fun _ hx => absurd hx List.not_mem_nil
  obtain ⟨hscanned, hfile⟩ := (DiscoveryService.safe_advance hkept hempty).returns hempty hreach
  obtain ⟨event, hevent, origin, row, hrow, hrest⟩ :=
    hfile bothSides (List.mem_singleton.mpr rfl) 11 (by decide) hanchor
  obtain rfl : _ = event := by simpa [sampleService, bothSides_event] using hevent
  obtain rfl := (hscanned _ hrow).1
  exact ⟨hscanned, row, hrow, hrest⟩

theorem completed_range_holders_sample : ∃ w,
    DiscoveryReachable (fun _ => {l | l ∈ [sampleLog]}) w ∧
    ∃ agg ∈ w.holderUniverse, agg.chainId = 100 ∧ agg.tokenAddress = sampleAddress ∧
      agg.holderAddress = sampleHolder 'b' ∧ agg.firstSeenBlock ≤ 11 := by
  obtain ⟨w, hreach, -⟩ := sample_advance bothSides_ready (by decide : 10 ≤ 13) rangesOk_empty
  have hreachable : DiscoveryReachable (fun _ => {l | l ∈ [sampleLog]}) w :=
    .advance sampleService (sampleToken [bothSides]) 13 "" .refl hreach
  obtain ⟨-, row, hrow, hstatus, hchain, htoken, htopic, hin⟩ := bothSides_onFile (by decide) hreach
  refine ⟨w, hreachable, ?_⟩
  have hl : sampleLog ∈ eventLogs {l | l ∈ [sampleLog]} row.tokenAddress row.topic0 := by
    rw [htoken, htopic]
    exact sampleLog_mem
  obtain ⟨holder, hok, hzero | hagg⟩ :=
    completed_range_holders hreachable hrow hstatus hl hin 2 (by decide)
  · rw [sampleLog_holderAt.2, Except.ok.injEq] at hok
    rw [← hok] at hzero
    exact absurd hzero.1 (by decide)
  · rw [sampleLog_holderAt.2, Except.ok.injEq] at hok
    rwa [← hok, hchain, htoken] at hagg

end RpcStateIndexer
