import RpcStateIndexer.Discovery.ScannerCorrect
import RpcStateIndexer.Discovery.Service

/-!
# What a gap scan does to the store

Every run of `_scan_gap`, stopped at any operation, leaves the store in one of four states: as it
was, with a failed row, with the holder rows of the scan, or with those and the completed rows.
`Extracted` says what the two batches of rows mean on the chain.
-/

namespace RpcStateIndexer

open Reasoning Program

/-- The chain's logs of one event of one contract. -/
def eventLogs (chain : Set NormalizedLog) (address topic0 : String) : Set NormalizedLog :=
  {l | l ∈ chain ∧ l.address = address ∧ l.topics.head? = some topic0}

theorem LogFilter.selects_ofEvent {address topic0 : String} (haddress : isAddress address = true)
    (htopic : isTopicWord topic0 = true) (l : NormalizedLog) :
    (LogFilter.ofEvent address topic0 haddress htopic).Selects l ↔
      l.address = address ∧ l.topics.head? = some topic0 := by
  refine and_congr (by simp [LogFilter.ofEvent]) ?_
  cases htopics : l.topics with
  | nil => simp [LogFilter.matchesTopics, LogFilter.ofEvent, LogFilter.matchesFrom]
  | cons topic rest =>
    simp [LogFilter.matchesTopics, LogFilter.ofEvent, LogFilter.matchesFrom, eq_comm]

namespace StrictLogScanner

/-- A below-cap answer to any `eth_getLogs` of the scanner is exact. -/
def ExactReply (s : StrictLogScanner) (chain : Set NormalizedLog) (x : Sigma RpcReply) : Prop :=
  ∀ f r entries endpoint, x = ⟨getLogs f r, .ok (.arr entries, endpoint)⟩ →
    entries.length < s.resultCap → AnswersExactly chain f r entries

theorem scan_eq_ok {s : StrictLogScanner} {tokenAddress topic0 : String}
    {startBlock endBlock : Nat} {t : List (Sigma RpcReply)} {scan : DiscoveryScan}
    (hrun : Runs (s.scan tokenAddress topic0 startBlock endBlock) t (.ok scan)) :
    ∃ haddress htopic, Runs (s.scanFilter (.ofEvent tokenAddress topic0.toLower haddress htopic)
      startBlock endBlock) t (.ok scan) := by
  unfold StrictLogScanner.scan at hrun
  split at hrun
  · split at hrun
    · simp at hrun
    · rename_i haddress _ normalized hparse
      obtain ⟨raw, hraw, -, rfl⟩ := parseHash_eq_ok hparse
      rw [Json.str.injEq] at hraw
      subst hraw
      split at hrun
      · exact ⟨haddress, by assumption, hrun⟩
      · simp at hrun
  · simp at hrun

/-- A finished scan of an event holds the event's logs in the range and partitions the range. -/
theorem scan_spec {s : StrictLogScanner} {chain : Set NormalizedLog}
    {tokenAddress topic0 : String} {startBlock endBlock : Nat} {t : List (Sigma RpcReply)}
    {scan : DiscoveryScan}
    (hrun : Runs (s.scan tokenAddress topic0 startBlock endBlock) t (.ok scan))
    (hexact : ∀ x ∈ t, s.ExactReply chain x) :
    (∀ l, l ∈ scan.logs ↔ l ∈ eventLogs chain tokenAddress topic0.toLower ∧
      startBlock ≤ l.blockNumber ∧ l.blockNumber < endBlock) ∧
    ∀ block, Covered scan.ranges block ↔ startBlock ≤ block ∧ block < endBlock := by
  obtain ⟨haddress, htopic, hfilter⟩ := scan_eq_ok hrun
  refine ⟨fun l => ?_, (scanFilter_partition hfilter).2⟩
  have hcap : s.ExactBelowCap (.ofEvent tokenAddress topic0.toLower haddress htopic) chain t :=
    fun r entries endpoint hmem hlt => hexact _ hmem _ _ _ _ rfl hlt
  obtain ⟨h, st, -, hrequested, -, -⟩ := scanFilter_eq_ok hfilter
  rw [(scanFilter_logs hfilter hcap).1, hrequested, matchingLogs, Set.mem_ofPred_eq,
    LogFilter.selects_ofEvent, eventLogs, Set.mem_ofPred_eq]
  simp only [BlockRange.Contains, and_assoc]

end StrictLogScanner

/-! ## The environment -/

/-- An insert is applied or fails; a failed insert may have been applied. -/
def Inserts {W : Type} (apply : W → W) (w : W) (reply : Except String Unit) (w' : W) : Prop :=
  (reply = .ok () ∧ w' = apply w) ∨ ∃ e, reply = .error e ∧ (w' = w ∨ w' = apply w)

/-- What the RPC pool, the store and the clock may answer. -/
def discoveryEnv (svc : DiscoveryService) (chain : Set NormalizedLog) :
    (op : DiscoveryOp) → DiscoveryStore → DiscoveryAns op → DiscoveryStore → Prop
  | .rpc request, w, reply, w' => w' = w ∧ svc.scanner.ExactReply chain ⟨request, reply⟩
  | .completedRanges chainId tokenAddress topic0, w, reply, w' =>
    w' = w ∧ (reply = .ok (w.completedDiscoveryRanges chainId tokenAddress topic0) ∨
      ∃ e, reply = .error e)
  | .insertRanges rows origin, w, reply, w' => Inserts (·.addRanges rows origin) w reply w'
  | .insertHolders rows, w, reply, w' => Inserts (·.addHolders rows) w reply w'
  | .uuid4, w, _, w' => w' = w
  | .now, w, _, w' => w' = w

section Primitives

variable {svc : DiscoveryService} {chain : Set NormalizedLog} {C : DiscoveryStore → Prop}
  {w : DiscoveryStore}

theorem safe_insertDiscoveryRanges {rows : List DiscoveryRangeRow} {origin : ScanOrigin}
    {Q : Except AdvanceException Unit → DiscoveryStore → Prop} (hw : C w)
    (hadd : C (w.addRanges rows origin)) (hok : Q (.ok ()) (w.addRanges rows origin))
    (herr : ∀ e, Q (.error (.store e)) w ∧ Q (.error (.store e)) (w.addRanges rows origin)) :
    Safe (discoveryEnv svc chain) C Q (insertDiscoveryRanges rows origin) w := by
  rintro reply w' (⟨rfl, rfl⟩ | ⟨e, rfl, rfl | rfl⟩)
  · exact ⟨hadd, hok⟩
  · exact ⟨hw, (herr e).1⟩
  · exact ⟨hadd, (herr e).2⟩

theorem safe_insertHolderObservations {rows : List HolderRow}
    {Q : Except AdvanceException Unit → DiscoveryStore → Prop} (hw : C w)
    (hadd : C (w.addHolders rows)) (hok : Q (.ok ()) (w.addHolders rows))
    (herr : ∀ e, Q (.error (.store e)) w ∧ Q (.error (.store e)) (w.addHolders rows)) :
    Safe (discoveryEnv svc chain) C Q (insertHolderObservations rows) w := by
  rintro reply w' (⟨rfl, rfl⟩ | ⟨e, rfl, rfl | rfl⟩)
  · exact ⟨hadd, hok⟩
  · exact ⟨hw, (herr e).1⟩
  · exact ⟨hadd, (herr e).2⟩

theorem safe_now {Q : Except AdvanceException Nat → DiscoveryStore → Prop} (hw : C w)
    (hQ : ∀ n, Q (.ok n) w) : Safe (discoveryEnv svc chain) C Q now w := by
  rintro n w' rfl
  exact ⟨hw, hQ n⟩

theorem safe_uuid4 {Q : Except AdvanceException Nat → DiscoveryStore → Prop} (hw : C w)
    (hQ : ∀ n, Q (.ok n) w) : Safe (discoveryEnv svc chain) C Q uuid4 w := by
  rintro n w' rfl
  exact ⟨hw, hQ n⟩

theorem safe_completedDiscoveryRanges {chainId : Nat} {tokenAddress topic0 : String}
    {Q : Except AdvanceException (List (Nat × Nat)) → DiscoveryStore → Prop} (hw : C w)
    (hok : Q (.ok (w.completedDiscoveryRanges chainId tokenAddress topic0)) w)
    (herr : ∀ e, Q (.error (.store e)) w) :
    Safe (discoveryEnv svc chain) C Q (completedDiscoveryRanges chainId tokenAddress topic0) w := by
  rintro reply w' ⟨rfl, rfl | ⟨e, rfl⟩⟩
  · exact ⟨hw, hok⟩
  · exact ⟨hw, herr e⟩

theorem safe_runRpc {α : Type} {p : RpcProgram DiscoveryException α}
    {Q : Except AdvanceException α → DiscoveryStore → Prop} (hw : C w)
    (hrun : ∀ t r, Runs p t r → (∀ x ∈ t, svc.scanner.ExactReply chain x) →
      Q (r.mapError .discovery) w) :
    Safe (discoveryEnv svc chain) C Q (runRpc p) w :=
  safe_lift (svc.scanner.ExactReply chain) hw (fun _ _ _ h => h) hrun

end Primitives

/-! ## What a scan extracts -/

/-- The holder rows and completed rows of a scan, read on the chain. -/
structure Extracted (svc : DiscoveryService) (g : GapScan) (chain : Set NormalizedLog)
    (holders : List HolderRow) (ranges : List DiscoveryRangeRow) : Prop where
  /-- every matching log of the gap names canonical holders, and they are among the rows -/
  complete : ∀ l ∈ eventLogs chain g.tokenAddress g.topic0.toLower, g.gap.Contains l.blockNumber →
    ∀ position ∈ g.origin.holderTopics, ∃ holder, l.holderAt position = .ok holder ∧
      (holder = zeroAddress ∧ g.origin.includeZero = false ∨
        ∃ row ∈ holders, row.holderAddress = holder ∧ row.firstSeenBlock ≤ l.blockNumber)
  /-- every row was seen in a matching log of the gap -/
  sound : ∀ row ∈ holders, row.chainId = svc.chainId ∧ row.tokenAddress = g.tokenAddress ∧
    row.source = "own_scan" ∧ row.sourceDetail = g.origin.eventName ∧
    (g.origin.includeZero = true ∨ row.holderAddress ≠ zeroAddress) ∧
    ∃ l ∈ eventLogs chain g.tokenAddress g.topic0.toLower, g.gap.Contains l.blockNumber ∧
      row.firstSeenBlock = l.blockNumber ∧
      ∃ position ∈ g.origin.holderTopics, l.holderAt position = .ok row.holderAddress
  ranges_cols : ∀ row ∈ ranges, row.chainId = svc.chainId ∧ row.tokenAddress = g.tokenAddress ∧
    row.topic0 = g.topic0 ∧ row.status = .completed ∧
    row.rangeStartBlock < row.rangeEndBlockExclusive
  ranges_cover : ∀ block, (∃ row ∈ ranges, row.Contains block) ↔ g.gap.Contains block

theorem holders_eq_ok {l : NormalizedLog} {positions : List Nat} {includeZero : Bool}
    {holders : List String} (h : l.holders positions includeZero = .ok holders) :
    (∀ position ∈ positions, ∃ holder, l.holderAt position = .ok holder ∧
      (holder = zeroAddress ∧ includeZero = false ∨ holder ∈ holders)) ∧
    ∀ holder ∈ holders, (includeZero = true ∨ holder ≠ zeroAddress) ∧
      ∃ position ∈ positions, l.holderAt position = .ok holder := by
  simp only [NormalizedLog.holders, except_bind_eq_ok_iff, except_pure_eq_ok_iff] at h
  obtain ⟨addresses, haddresses, rfl⟩ := h
  constructor
  · intro position hposition
    obtain ⟨holder, hmem, hok⟩ := exists_of_mem_of_mapM haddresses hposition
    refine ⟨holder, hok, ?_⟩
    by_cases hkeep : includeZero = false ∧ holder = zeroAddress
    · exact .inl hkeep.symm
    · refine .inr (List.mem_filter.mpr ⟨hmem, ?_⟩)
      cases includeZero
      · simpa using hkeep
      · rfl
  · intro holder hholder
    obtain ⟨hmem, hkeep⟩ := List.mem_filter.mp hholder
    obtain ⟨position, hposition, hok⟩ := exists_of_mem_mapM haddresses hmem
    exact ⟨by simpa using hkeep, position, hposition, hok⟩

namespace DiscoveryService

/-- The observed pairs are the holders of the logs, with their blocks. -/
theorem observations_eq_ok {origin : ScanOrigin} {logs : List NormalizedLog}
    {observed : List (String × Nat)} (h : observations origin logs = .ok observed) :
    (∀ l ∈ logs, ∃ holders, l.holders origin.holderTopics origin.includeZero = .ok holders ∧
      ∀ holder ∈ holders, (holder, l.blockNumber) ∈ observed) ∧
    ∀ x ∈ observed, ∃ l ∈ logs, ∃ holders,
      l.holders origin.holderTopics origin.includeZero = .ok holders ∧ x.1 ∈ holders ∧
        x.2 = l.blockNumber := by
  simp only [observations, except_bind_eq_ok_iff, except_pure_eq_ok_iff] at h
  obtain ⟨batches, hbatches, rfl⟩ := h
  constructor
  · intro l hl
    obtain ⟨batch, hbatch, hok⟩ := exists_of_mem_of_mapM hbatches hl
    simp only [except_bind_eq_ok_iff, except_pure_eq_ok_iff] at hok
    obtain ⟨holders, hholders, rfl⟩ := hok
    refine ⟨holders, hholders, fun holder hholder => ?_⟩
    exact List.mem_flatten.mpr ⟨_, hbatch, List.mem_map_of_mem hholder⟩
  · intro x hx
    obtain ⟨batch, hbatch, hx⟩ := List.mem_flatten.mp hx
    obtain ⟨l, hl, hok⟩ := exists_of_mem_mapM hbatches hbatch
    simp only [except_bind_eq_ok_iff, except_pure_eq_ok_iff] at hok
    obtain ⟨holders, hholders, rfl⟩ := hok
    obtain ⟨holder, hholder, rfl⟩ := List.mem_map.mp hx
    exact ⟨l, hl, holders, hholders, hholder, rfl⟩

/-- A holder row opens at the earliest of the holder's blocks. -/
theorem mem_holderRows {svc : DiscoveryService} {g : GapScan} {observed : List (String × Nat)}
    {row : HolderRow} (h : row ∈ svc.holderRows g observed) :
    row.chainId = svc.chainId ∧ row.tokenAddress = g.tokenAddress ∧ row.source = "own_scan" ∧
      row.sourceDetail = g.origin.eventName ∧
      (row.holderAddress, row.firstSeenBlock) ∈ observed ∧
      ∀ block, (row.holderAddress, block) ∈ observed → row.firstSeenBlock ≤ block := by
  obtain ⟨holder, hholder, rfl⟩ := List.mem_map.mp h
  have hblocks : ∀ block, block ∈ ((observed.filter fun x => x.1 = holder).map Prod.snd) ↔
      (holder, block) ∈ observed := by
    intro block
    simp
  have hne : ((observed.filter fun x => x.1 = holder).map Prod.snd) ≠ [] := by
    obtain ⟨⟨_, block⟩, hx, rfl⟩ := List.mem_map.mp (mem_sortedSet.mp hholder)
    exact List.ne_nil_of_mem ((hblocks block).mpr hx)
  obtain ⟨least, hleast⟩ := Option.isSome_iff_exists.mp (List.isSome_min?_of_ne_nil hne)
  obtain ⟨hmem, hle⟩ := List.min?_eq_some_iff.mp hleast
  simp only [hleast, Option.getD_some, true_and]
  exact ⟨(hblocks least).mp hmem, fun block hblock => hle block ((hblocks block).mpr hblock)⟩

theorem exists_holderRow {svc : DiscoveryService} {g : GapScan} {observed : List (String × Nat)}
    {holder : String} {block : Nat} (h : (holder, block) ∈ observed) :
    ∃ row ∈ svc.holderRows g observed, row.holderAddress = holder ∧
      row.firstSeenBlock ≤ block := by
  have hmem : holder ∈ sortedSet (observed.map Prod.fst) :=
    mem_sortedSet.mpr (List.mem_map.mpr ⟨_, h, rfl⟩)
  have hrow := List.mem_map_of_mem (f := fun holder : String => ({
    chainId := svc.chainId
    tokenAddress := g.tokenAddress
    holderAddress := holder
    source := "own_scan"
    sourceDetail := g.origin.eventName
    firstSeenBlock := ((observed.filter fun x => x.1 = holder).map Prod.snd).min?.getD 0
    lastSeenBlock := ((observed.filter fun x => x.1 = holder).map Prod.snd).max?.getD 0
    observations := ((observed.filter fun x => x.1 = holder).map Prod.snd).length } : HolderRow))
    hmem
  exact ⟨_, hrow, rfl, (mem_holderRows hrow).2.2.2.2.2 block h⟩

theorem completedRow_eq_ok {svc : DiscoveryService} {g : GapScan}
    {scanId startedAt finishedAt : Nat} {scan : DiscoveryScan} {completed : CompletedRange}
    {row : DiscoveryRangeRow}
    (h : svc.completedRow g scanId startedAt finishedAt scan completed = .ok row) :
    row.chainId = svc.chainId ∧ row.tokenAddress = g.tokenAddress ∧ row.topic0 = g.topic0 ∧
      row.status = .completed ∧ row.rangeStartBlock = completed.blockRange.start ∧
      row.rangeEndBlockExclusive = completed.blockRange.endExclusive := by
  simp only [completedRow, except_bind_eq_ok_iff, except_pure_eq_ok_iff] at h
  obtain ⟨holders, -, rfl⟩ := h
  exact ⟨rfl, rfl, rfl, rfl, rfl, rfl⟩

/-- The rows a finished scan persists are what its range holds on the chain. -/
theorem extracted_of_scan {svc : DiscoveryService} {g : GapScan} {chain : Set NormalizedLog}
    {t : List (Sigma RpcReply)} {scan : DiscoveryScan} {scanId startedAt finishedAt : Nat}
    {rangeRows : List DiscoveryRangeRow} {observed : List (String × Nat)}
    (hrun : Runs (svc.scanner.scan g.tokenAddress g.topic0 g.gap.start g.gap.endExclusive) t
      (.ok scan))
    (hexact : ∀ x ∈ t, svc.scanner.ExactReply chain x)
    (hrows : scan.completedRanges.mapM (svc.completedRow g scanId startedAt finishedAt scan) =
      .ok rangeRows)
    (hobserved : observations g.origin scan.logs = .ok observed) :
    Extracted svc g chain (svc.holderRows g observed) rangeRows := by
  obtain ⟨hlogs, hcover⟩ := StrictLogScanner.scan_spec hrun hexact
  obtain ⟨hcomplete, hsound⟩ := observations_eq_ok hobserved
  constructor
  · intro l hl hin position hposition
    obtain ⟨holders, hholders, hseen⟩ := hcomplete l ((hlogs l).mpr ⟨hl, hin⟩)
    obtain ⟨holder, hok, hzero | hmem⟩ := (holders_eq_ok hholders).1 position hposition
    · exact ⟨holder, hok, .inl hzero⟩
    · exact ⟨holder, hok, .inr (exists_holderRow (hseen holder hmem))⟩
  · intro row hrow
    obtain ⟨hchain, htoken, hsource, hdetail, hfirst, -⟩ := mem_holderRows hrow
    obtain ⟨l, hl, holders, hholders, hmem, hblock⟩ := hsound _ hfirst
    obtain ⟨hkeep, position, hposition, hok⟩ := (holders_eq_ok hholders).2 _ hmem
    obtain ⟨hevent, hin⟩ := (hlogs l).mp hl
    exact ⟨hchain, htoken, hsource, hdetail, hkeep, l, hevent, hin, hblock, position, hposition,
      hok⟩
  · intro row hrow
    obtain ⟨completed, -, hok⟩ := exists_of_mem_mapM hrows hrow
    obtain ⟨hchain, htoken, htopic, hstatus, hstart, hend⟩ := completedRow_eq_ok hok
    rw [hstart, hend]
    exact ⟨hchain, htoken, htopic, hstatus, completed.blockRange.nonempty⟩
  · intro block
    rw [BlockRange.Contains, ← hcover block]
    constructor
    · rintro ⟨row, hrow, hin⟩
      obtain ⟨completed, hmem, hok⟩ := exists_of_mem_mapM hrows hrow
      obtain ⟨-, -, -, -, hstart, hend⟩ := completedRow_eq_ok hok
      rw [DiscoveryRangeRow.Contains, hstart, hend] at hin
      exact ⟨_, List.mem_map_of_mem hmem, hin⟩
    · rintro ⟨r, hr, hin⟩
      obtain ⟨completed, hmem, rfl⟩ := List.mem_map.mp hr
      obtain ⟨row, hrow, hok⟩ := exists_of_mem_of_mapM hrows hmem
      obtain ⟨-, -, -, -, hstart, hend⟩ := completedRow_eq_ok hok
      refine ⟨row, hrow, ?_⟩
      rw [DiscoveryRangeRow.Contains, hstart, hend]
      exact hin

/-! ## The effect of a gap scan -/

/-- Where a gap scan can have got to; only the last is reached by returning. -/
inductive GapEffect (svc : DiscoveryService) (g : GapScan) (chain : Set NormalizedLog)
    (w : DiscoveryStore) : DiscoveryStore → Prop
  | none : GapEffect svc g chain w w
  | failed {row : DiscoveryRangeRow} (hfailed : row.status = .failed)
    (hnonempty : row.rangeStartBlock < row.rangeEndBlockExclusive) :
    GapEffect svc g chain w (w.addRanges [row] g.origin)
  | observed {holders : List HolderRow} {ranges : List DiscoveryRangeRow}
    (hrows : Extracted svc g chain holders ranges) :
    GapEffect svc g chain w (w.addHolders holders)
  | completed {holders : List HolderRow} {ranges : List DiscoveryRangeRow}
    (hrows : Extracted svc g chain holders ranges) :
    GapEffect svc g chain w ((w.addHolders holders).addRanges ranges g.origin)

/-- The store after a gap scan returned. -/
def GapDone (svc : DiscoveryService) (g : GapScan) (chain : Set NormalizedLog)
    (w w' : DiscoveryStore) : Prop :=
  ∃ holders ranges, Extracted svc g chain holders ranges ∧
    w' = (w.addHolders holders).addRanges ranges g.origin

theorem safe_persistScan {svc : DiscoveryService} {g : GapScan} {chain : Set NormalizedLog}
    {w : DiscoveryStore} {t : List (Sigma RpcReply)} {scan : DiscoveryScan}
    (scanId startedAt finishedAt : Nat)
    (hrun : Runs (svc.scanner.scan g.tokenAddress g.topic0 g.gap.start g.gap.endExclusive) t
      (.ok scan))
    (hexact : ∀ x ∈ t, svc.scanner.ExactReply chain x) :
    Safe (discoveryEnv svc chain) (GapEffect svc g chain w)
      (fun r w' => match r with
        | .ok _ => GapDone svc g chain w w'
        | .error _ => GapEffect svc g chain w w')
      (svc.persistScan g scanId startedAt finishedAt scan) w := by
  unfold persistScan
  cases hrows : scan.completedRanges.mapM
      (svc.completedRow g scanId startedAt finishedAt scan) with
  | error e => exact .none
  | ok rangeRows =>
    cases hobserved : observations g.origin scan.logs with
    | error e => exact .none
    | ok observed =>
      have hextract := extracted_of_scan hrun hexact hrows hobserved
      change Safe _ _ _ (if svc.holderRows g observed ≠ [] then
        insertHolderObservations (svc.holderRows g observed) >>= fun _ =>
          insertDiscoveryRanges rangeRows g.origin
        else insertDiscoveryRanges rangeRows g.origin) w
      have hranges : Safe (discoveryEnv svc chain) (GapEffect svc g chain w)
          (fun r w' => match r with
            | .ok _ => GapDone svc g chain w w'
            | .error _ => GapEffect svc g chain w w')
          (insertDiscoveryRanges rangeRows g.origin)
          (w.addHolders (svc.holderRows g observed)) :=
        safe_insertDiscoveryRanges (.observed hextract) (.completed hextract)
          ⟨_, _, hextract, rfl⟩ fun _ => ⟨.observed hextract, .completed hextract⟩
      split
      · rw [safe_bind]
        exact safe_insertHolderObservations .none (.observed hextract) hranges
          fun _ => ⟨.none, .observed hextract⟩
      · rename_i hempty
        -- without holder rows the insert is skipped and the store is the same
        rw [not_not] at hempty
        rw [hempty] at hranges
        simpa [DiscoveryStore.addHolders] using hranges

theorem safe_recordFailure {svc : DiscoveryService} {g : GapScan} {chain : Set NormalizedLog}
    {w : DiscoveryStore} (scanId startedAt : Nat) (e : AdvanceException) :
    Safe (discoveryEnv svc chain) (GapEffect svc g chain w)
      (fun r w' => match r with
        | .ok _ => False
        | .error _ => GapEffect svc g chain w w')
      (svc.recordFailure g scanId startedAt e) w := by
  have hinsert : ∀ exc, Safe (discoveryEnv svc chain) (GapEffect svc g chain w)
      (fun r w' => match r with
        | .ok _ => False
        | .error _ => GapEffect svc g chain w w')
      (now >>= fun failedAt => insertDiscoveryRanges
        [svc.failedRow g scanId startedAt failedAt exc] g.origin >>= fun _ =>
          (throw (.discovery exc) : DiscoveryProgram DiscoveryScan)) w := by
    intro exc
    rw [safe_bind]
    refine safe_now .none fun failedAt => ?_
    rw [andThen_ok, safe_bind]
    have hfailed : GapEffect svc g chain w
        (w.addRanges [svc.failedRow g scanId startedAt failedAt exc] g.origin) :=
      .failed rfl g.gap.nonempty
    exact safe_insertDiscoveryRanges .none hfailed hfailed fun _ => ⟨.none, hfailed⟩
  cases e with
  | discovery exc =>
    cases exc with
    | cancelled => exact .none
    | rangeFailed message cause => exact hinsert _
    | responseError message => exact hinsert _
    | valueError message => exact hinsert _
  | abi message => exact .none
  | store message => exact .none

/-- The one description of `_scan_gap`: where it can stop, and what holds when it returns. -/
theorem safe_scanGap (svc : DiscoveryService) (g : GapScan) (chain : Set NormalizedLog)
    (w : DiscoveryStore) :
    Safe (discoveryEnv svc chain) (GapEffect svc g chain w)
      (fun r w' => match r with
        | .ok _ => GapDone svc g chain w w'
        | .error _ => GapEffect svc g chain w w') (svc.scanGap g) w := by
  unfold scanGap
  rw [safe_bind]
  refine safe_uuid4 .none fun scanId => ?_
  rw [andThen_ok, safe_bind]
  refine safe_now .none fun startedAt => ?_
  rw [andThen_ok, safe_bind, safe_tryCatch]
  refine safe_runRpc .none fun t r hrun hexact => ?_
  cases r with
  | error e =>
    refine (safe_recordFailure scanId startedAt (.discovery e)).mono (fun _ h => h) ?_
    rintro (e | a) w' h
    · exact h
    · exact h.elim
  | ok scan =>
    change Safe _ _ _ (now >>= fun finishedAt =>
      svc.persistScan g scanId startedAt finishedAt scan) w
    rw [safe_bind]
    exact safe_now .none fun finishedAt => safe_persistScan scanId startedAt finishedAt hrun hexact

end DiscoveryService

end RpcStateIndexer
