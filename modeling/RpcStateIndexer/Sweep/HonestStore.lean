import RpcStateIndexer.Discovery.Contract
import RpcStateIndexer.Sweep.CrashSafety

/-!
# Against an honest environment a sweep completes

A store that applies every insert, fresh identifiers, and the honest provider: then `advance`
returns.  This is what makes the assumptions of the results about sweeps satisfiable.
-/

namespace RpcStateIndexer

open Reasoning Program

/-- An identifier above all that the table holds. -/
def SweepStore.nextScanId (w : SweepStore) : Nat :=
  (w.ranges.map SweepRangeRow.scanId).max?.getD 0 + 1

theorem SweepStore.scanId_ne_nextScanId {w : SweepStore} {row : SweepRangeRow}
    (h : row ∈ w.ranges) : row.scanId ≠ w.nextScanId := by
  have hmem : row.scanId ∈ w.ranges.map SweepRangeRow.scanId := List.mem_map_of_mem h
  obtain ⟨greatest, hgreatest⟩ :=
    Option.isSome_iff_exists.mp (List.isSome_max?_of_ne_nil (List.ne_nil_of_mem hmem))
  have hle := (List.max?_eq_some_iff.mp hgreatest).2 _ hmem
  rw [nextScanId, hgreatest, Option.getD_some]
  omega

/-- Answers from the honest provider and a store whose calls succeed. -/
def honestSweep (limit : Nat) (logs : List NormalizedLog) :
    (op : SweepOp) → SweepStore → SweepAns op × SweepStore
  | .rpc request, w => (honestLogs limit logs request, w)
  | .completedRanges chainId wallet position, w =>
    (.ok (w.completedSweepRanges chainId wallet position), w)
  | .insertRanges rows, w => (.ok (), w.addRanges rows)
  | .insertLogs rows, w => (.ok (), w.addLogs rows)
  | .uuid4, w => (w.nextScanId, w)
  | .now, w => (0, w)

theorem honestSweep_allowed (svc : SweepService) (limit : Nat) {logs : List NormalizedLog}
    (hcanonical : ∀ l ∈ logs, l.Canonical) (op : SweepOp) (w : SweepStore) :
    sweepEnv svc {l | l ∈ logs} op w (honestSweep limit logs op w).1
      (honestSweep limit logs op w).2 := by
  cases op with
  | rpc request =>
    refine ⟨rfl, fun f r entries endpoint heq _ => ?_⟩
    rw [Sigma.mk.injEq] at heq
    obtain ⟨rfl, hreply⟩ := heq
    exact answersExactly_honestLogs hcanonical (eq_of_heq hreply)
  | completedRanges chainId wallet position => exact ⟨rfl, .inl rfl⟩
  | insertRanges rows => exact .inl ⟨rfl, rfl⟩
  | insertLogs rows => exact .inl ⟨rfl, rfl⟩
  | uuid4 => exact ⟨rfl, fun row hrow => SweepStore.scanId_ne_nextScanId hrow⟩
  | now => rfl

/-- Ranges on file are not empty, as the constructor of `BlockRange` asks. -/
def SweepStore.RangesOk (w : SweepStore) : Prop :=
  ∀ row ∈ w.ranges, row.rangeStartBlock < row.rangeEndBlockExclusive

namespace SweepService

variable {svc : SweepService} {limit : Nat} {logs : List NormalizedLog}

/-- Against the honest environment a window scan returns. -/
theorem exec_scanGap (hserves : svc.scanner.Serves limit logs) {g : SweepScan}
    (hposition : g.position ≤ 3) (hne : g.wallets ≠ [])
    (hwallets : ∀ wallet ∈ g.wallets, isAddress wallet = true) {w : SweepStore} (hw : w.RangesOk) :
    ∃ count w', exec (honestSweep limit logs) (svc.scanGap g) w = (.ok count, w') ∧
      w'.RangesOk := by
  obtain ⟨f, hfilter⟩ := LogFilter.make_sweepTopics_isOk hposition hne hwallets
  obtain ⟨scan, hscan⟩ := StrictLogScanner.scanFilter_honestLogs hserves f g.gap.nonempty
  have hrun := runs_answeredBy (honestLogs limit logs)
    (svc.scanner.scanFilter f g.gap.start g.gap.endExclusive)
  rw [hscan] at hrun
  have hselects : ∀ l ∈ scan.logs, f.Selects l := by
    intro l hl
    have hlogs := (StrictLogScanner.scanFilter_logs hrun fun r entries endpoint hmem _ =>
      answersExactly_honestLogs hserves.canonical (answer_of_mem_traceOf hmem).symm).1 l
    exact (hlogs.mp hl).2.1
  -- the filter only lets through logs with a wallet's word
  have hrow : ∀ l ∈ scan.logs, ∃ row, svc.logRow g 0 l = .ok row := by
    intro l hl
    obtain ⟨wallet, hwallet, hword⟩ := (LogFilter.selects_sweep hfilter l).mp (hselects l hl)
    simp only [logRow, hword, walletByTopic_walletTopic hwallets hwallet]
    exact ⟨_, rfl⟩
  obtain ⟨logRows, hrows⟩ := mapM_isOk hrow
  have hpersist : ∀ rangeRows, ∃ w', exec (honestSweep limit logs) (persist logRows rangeRows) w =
      (.ok (), w') ∧ w'.ranges = w.ranges ++ rangeRows := by
    intro rangeRows
    unfold persist
    split
    · exact ⟨_, rfl, rfl⟩
    · exact ⟨_, rfl, rfl⟩
  obtain ⟨w', hexec, hranges⟩ := hpersist
    (svc.completedRowsOf g w.nextScanId 0 0 logRows scan)
  refine ⟨logRows.length, w', ?_, ?_⟩
  · have hrpc : exec (honestSweep limit logs) (SweepProgram.runRpc
        (svc.scanner.scanFilter f g.gap.start g.gap.endExclusive)) w = (.ok scan, w) := by
      have hanswer : ∀ op, (honestSweep limit logs (.rpc op) w).1 = honestLogs limit logs op ∧
          (honestSweep limit logs (.rpc op) w).2 = w := fun _ => ⟨rfl, rfl⟩
      rw [SweepProgram.runRpc, exec_lift hanswer, hscan]
      rfl
    have huuid : exec (honestSweep limit logs) SweepProgram.uuid4 w = (.ok w.nextScanId, w) := rfl
    have hnow : exec (honestSweep limit logs) SweepProgram.now w = (.ok 0, w) := rfl
    simp only [scanGap, exec_bind, huuid, hnow, hfilter, Except.mapError, exec_ofExcept,
      exec_tryCatch, hrpc, hrows, hexec]
    rfl
  · intro row hmem
    rw [hranges] at hmem
    rcases List.mem_append.mp hmem with hold | hnew
    · exact hw row hold
    · obtain ⟨completed, -, wallet, -, rfl⟩ := mem_completedRowsOf.mp hnew
      exact completed.blockRange.nonempty

/-- Reading a wallet's gaps returns when the ranges on file are not empty. -/
theorem exec_walletGaps {w : SweepStore} (hw : w.RangesOk) (required : BlockRange) (position : Nat)
    (wallet : String) : ∃ x, exec (honestSweep limit logs) (svc.walletGaps required position wallet)
      w = (.ok x, w) ∧ x.1 = wallet := by
  have hmake : ∀ range ∈ w.completedSweepRanges svc.chainId wallet position,
      ∃ r, BlockRange.make range.1 range.2 = .ok r := by
    intro range hrange
    obtain ⟨row, hrow, rfl⟩ := SweepStore.mem_completedSweepRanges.mp hrange
    exact ⟨_, dif_pos (hw row (mem_of_mem_final (SweepStore.mem_completedRows.mp hrow).1))⟩
  obtain ⟨completed, hcompleted⟩ := mapM_isOk hmake
  have hread : exec (honestSweep limit logs)
      (SweepProgram.completedSweepRanges svc.chainId wallet position) w =
        (.ok (w.completedSweepRanges svc.chainId wallet position), w) := rfl
  refine ⟨(wallet, coverageGaps required completed), ?_, rfl⟩
  simp only [walletGaps, exec_bind, hread, hcompleted, Except.mapError, exec_ofExcept]
  rfl

theorem exec_scanGroup (hserves : svc.scanner.Serves limit logs) (sweep : SweepConfig)
    (anchorBlock : Nat) (anchorHash : String) {position : Nat} (hposition : position ≤ 3)
    {group : List BlockRange × List String} (hne : group.2 ≠ [])
    (hwallets : ∀ wallet ∈ group.2, isAddress wallet = true) {w : SweepStore} (hw : w.RangesOk) :
    ∃ w', exec (honestSweep limit logs)
      (svc.scanGroup sweep anchorBlock anchorHash position group) w = (.ok (), w') ∧
        w'.RangesOk := by
  obtain ⟨windows, hwindows⟩ := mapM_isOk (f := fun gap => scanWindows gap sweep.checkpointBlocks)
    (l := group.1) fun gap _ => ⟨_, dif_pos sweep.checkpointBlocks_pos⟩
  simp only [scanGroup, exec_bind, hwindows, Except.mapError, exec_ofExcept]
  refine exec_forM SweepStore.RangesOk (fun window _ w₁ hw₁ => ?_) hw
  obtain ⟨count, w₂, hexec, hw₂⟩ := exec_scanGap hserves (g := ⟨position, group.2, window,
    anchorBlock, anchorHash⟩) hposition hne hwallets hw₁
  refine ⟨w₂, ?_, hw₂⟩
  rw [exec_bind, hexec]
  rfl

/-- Against the honest environment `advance` returns. -/
theorem exec_advance (hserves : svc.scanner.Serves limit logs) (sweep : SweepConfig)
    {wallets : List String} (hne : wallets ≠ [])
    (hwallets : ∀ wallet ∈ wallets, isAddress wallet = true) {anchorBlock : Nat}
    (hstart : sweep.startBlock ≤ anchorBlock) (anchorHash : String) {w : SweepStore}
    (hw : w.RangesOk) :
    ∃ w', exec (honestSweep limit logs) (svc.advance sweep wallets anchorBlock anchorHash) w =
      (.ok (), w') ∧ w'.RangesOk := by
  have hlt : sweep.startBlock < anchorBlock + 1 := by omega
  rw [advance, if_neg hne]
  simp only [BlockRange.make, dif_pos hlt, Except.mapError, exec_bind, exec_ofExcept]
  refine exec_forM SweepStore.RangesOk (fun position hmem w₁ hw₁ => ?_) hw
  have hposition : position ≤ 3 := by
    have := sweep.topicPositions_ok position (mem_sortBy.mp hmem)
    omega
  have hgaps : ∀ wallet ∈ sortedSet wallets, ∃ x, exec (honestSweep limit logs)
      (svc.walletGaps ⟨sweep.startBlock, anchorBlock + 1, hlt⟩ position wallet) w₁ = (.ok x, w₁) ∧
      x.1 = wallet :=
    fun wallet _ => exec_walletGaps hw₁ _ position wallet
  obtain ⟨gapsOf, hreads, hnames⟩ := exec_mapM (S := fun wallet (x : String × List BlockRange) => x.1 = wallet) hgaps
  simp only [advancePosition, exec_bind, hreads]
  refine exec_forM SweepStore.RangesOk (fun group hgroup w₂ hw₂ => ?_) hw₁
  obtain ⟨-, hgroupne, hmembers⟩ := mem_gapGroups hgroup
  refine exec_scanGroup hserves sweep anchorBlock anchorHash hposition hgroupne ?_ hw₂
  intro wallet hwallet
  obtain ⟨name, hname, rfl⟩ := forall₂_right hnames (hmembers wallet hwallet)
  exact hwallets _ (mem_sortedSet.mp hname)

end SweepService

end RpcStateIndexer
