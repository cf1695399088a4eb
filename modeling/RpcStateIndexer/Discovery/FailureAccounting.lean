import RpcStateIndexer.Discovery.GapRuns

/-!
# Which failures of a gap scan are recorded

A gap scan records a failed row for what its guarded part raises, and that part ends with the scan.  A
log that names no holder is met after it: the exception leaves no row at all.
-/

namespace RpcStateIndexer

open Reasoning Program

/-! ## Logs that name no holder -/

theorem holderAt_error {l : NormalizedLog} {position : Nat} {e : DiscoveryException}
    (h : l.holderAt position = .error e) : ∃ message, e = .responseError message := by
  unfold NormalizedLog.holderAt at h
  split at h
  · exact ⟨_, (Except.error.inj h).symm⟩
  · split at h
    · exact ⟨_, (Except.error.inj h).symm⟩
    · cases h

theorem exists_of_holders_error {l : NormalizedLog} {positions : List Nat} {includeZero : Bool}
    {e : DiscoveryException} (h : l.holders positions includeZero = .error e) :
    ∃ position ∈ positions, l.holderAt position = .error e := by
  rcases except_bind_eq_error_iff.mp h with haddresses | ⟨addresses, -, hret⟩
  · exact exists_of_mapM_eq_error haddresses
  · cases hret

/-- The positions name no topic that may hold a holder. -/
def PositionsRefused (positions : List Nat) : Prop :=
  positions = [] ∨ ∃ position ∈ positions, position < 1

theorem exists_of_extractHolders_error {logs : List NormalizedLog} {positions : List Nat}
    {includeZero : Bool} {e : DiscoveryException} (h : extractHolders logs positions includeZero = .error e) :
    (PositionsRefused positions ∧ ∃ message, e = .valueError message) ∨
      ∃ l ∈ logs, ∃ position ∈ positions, l.holderAt position = .error e := by
  rcases except_bind_eq_error_iff.mp h with hcheck | ⟨_, -, hrest⟩
  · left
    unfold check at hcheck
    split at hcheck
    · cases hcheck
    · next hbad =>
      refine ⟨?_, _, (Except.error.inj hcheck).symm⟩
      by_contra hgood
      obtain ⟨hne, hall⟩ := not_or.mp hgood
      push Not at hall
      apply hbad
      rw [Bool.and_eq_true, List.all_eq_true, Bool.not_eq_true', List.isEmpty_eq_false_iff]
      exact ⟨hne, fun position hposition => decide_eq_true (hall position hposition)⟩
  · right
    rcases except_bind_eq_error_iff.mp hrest with hholders | ⟨holders, -, hret⟩
    · obtain ⟨l, hl, hlog⟩ := exists_of_mapM_eq_error hholders
      exact ⟨l, hl, exists_of_holders_error hlog⟩
    · cases hret

namespace DiscoveryService

variable {svc : DiscoveryService} {g : GapScan}

/-- The two passes of the extraction raise for the same reasons. -/
def ExtractionRefused (g : GapScan) (logs : List NormalizedLog) : Prop :=
  PositionsRefused g.origin.holderTopics ∨
    ∃ l ∈ logs, ∃ position ∈ g.origin.holderTopics, ∃ e, l.holderAt position = .error e

theorem refused_of_completedRows {scanId startedAt finishedAt : Nat} {scan : DiscoveryScan}
    {e : DiscoveryException}
    (h : scan.completedRanges.mapM (svc.completedRow g scanId startedAt finishedAt scan) = .error e) :
    ExtractionRefused g scan.logs ∧ e ≠ .cancelled := by
  obtain ⟨completed, -, hrow⟩ := exists_of_mapM_eq_error h
  rcases except_bind_eq_error_iff.mp hrow with hholders | ⟨holders, -, hret⟩
  · rcases exists_of_extractHolders_error hholders with ⟨hpositions, message, rfl⟩ |
      ⟨l, hl, position, hposition, hrefused⟩
    · exact ⟨.inl hpositions, DiscoveryException.noConfusion⟩
    · obtain ⟨message, rfl⟩ := holderAt_error hrefused
      exact ⟨.inr ⟨l, List.mem_of_mem_filter hl, position, hposition, _, hrefused⟩,
        DiscoveryException.noConfusion⟩
  · cases hret

theorem refused_of_observations {logs : List NormalizedLog} {e : DiscoveryException}
    (h : observations g.origin logs = .error e) : ExtractionRefused g logs ∧ e ≠ .cancelled := by
  rcases except_bind_eq_error_iff.mp h with hlogs | ⟨observed, -, hret⟩
  · obtain ⟨l, hl, hlog⟩ := exists_of_mapM_eq_error hlogs
    rcases except_bind_eq_error_iff.mp hlog with hholders | ⟨holders, -, hret⟩
    · obtain ⟨position, hposition, hrefused⟩ := exists_of_holders_error hholders
      obtain ⟨message, rfl⟩ := holderAt_error hrefused
      exact ⟨.inr ⟨l, hl, position, hposition, _, hrefused⟩, DiscoveryException.noConfusion⟩
    · cases hret
  · cases hret

/-! ## What is recorded -/

/-- The answers let the scan return, and no holders can be extracted from what it returns. -/
def HolderRefused (svc : DiscoveryService) (g : GapScan) (t : List (Sigma DiscoveryAns)) : Prop :=
  ∃ scan, Runs (svc.scanner.scan g.tokenAddress g.topic0 g.gap.start g.gap.endExclusive) (exchanged t)
      (.ok scan) ∧
    ExtractionRefused g scan.logs

/-- The row says that the gap failed, and with which class of exception. -/
structure RecordsFailure (svc : DiscoveryService) (g : GapScan) (e : DiscoveryException)
    (row : DiscoveryRangeRow) : Prop where
  status : row.status = .failed
  chainId : row.chainId = svc.chainId
  tokenAddress : row.tokenAddress = g.tokenAddress
  topic0 : row.topic0 = g.topic0
  start : row.rangeStartBlock = g.gap.start
  stop : row.rangeEndBlockExclusive = g.gap.endExclusive
  errorClass : row.errorClass = e.className

/-- All that the run put into the store is one row that records the failure. -/
def FailureRecorded (svc : DiscoveryService) (g : GapScan) (t : List (Sigma DiscoveryAns))
    (e : DiscoveryException) : Prop :=
  ∃ row, rangeInserts t = [([row], .ok ())] ∧ RecordsFailure svc g e row ∧ holderInserts t = []

/-- A run that raises ended either in the scan, with the failed row, or in the extraction, with no row. -/
theorem failed_or_refused {t : List (Sigma DiscoveryAns)} {e : DiscoveryException}
    (h : Runs (svc.scanGap g) t (.error (.discovery e))) (hcause : e ≠ .cancelled) :
    (FailureRecorded svc g t e ∧
        Runs (svc.scanner.scan g.tokenAddress g.topic0 g.gap.start g.gap.endExclusive) (exchanged t)
          (.error e)) ∨
      (rangeInserts t = [] ∧ HolderRefused svc g t) := by
  cases gapRun_of_runs h with
  | cancelled _ => exact absurd rfl hcause
  | @recorded scanId startedAt t' _ failed _ failedAt =>
    left
    have hexchanged : exchanged (opening scanId startedAt t' ++ [⟨.now, failedAt⟩,
        ⟨.insertRanges [svc.failedRow g scanId startedAt failedAt e] g.origin, .ok ()⟩]) = t' := by
      rw [exchanged_append, exchanged_opening]
      exact List.append_nil t'
    rw [hexchanged]
    refine ⟨⟨svc.failedRow g scanId startedAt failedAt e, ?_, ⟨rfl, rfl, rfl, rfl, rfl, rfl, rfl⟩, ?_⟩, failed⟩
    · rw [rangeInserts_append, rangeInserts_opening]
      rfl
    · rw [holderInserts_append, holderInserts_opening]
      rfl
  | @scanned scanId startedAt finishedAt t' scan t'' _ hscan persists =>
    right
    rcases runs_persistScan persists with ⟨e', rfl, he, hrefused⟩ | ⟨rows, observed, -, -, hinserts⟩
    · have hextraction : ExtractionRefused g scan.logs := by
        rcases hrefused with hrows | hobserved
        · exact (refused_of_completedRows hrows).1
        · exact (refused_of_observations hobserved).1
      refine ⟨?_, scan, ?_, hextraction⟩
      · rw [rangeInserts_append, rangeInserts_opening]
        rfl
      · rw [exchanged_append, exchanged_opening]
        exact (List.append_nil t').symm ▸ hscan
    · rcases (runs_inserts hinserts).2 with ⟨hr, -⟩ | ⟨message, hr⟩
      · cases hr
      · cases hr

/-! ## A log without its holder topic -/

/-- A transfer names its holders in the first two topics; this scan looks for one in the third. -/
def thirdTopic : GapScan where
  tokenAddress := sampleAddress
  topic0 := sampleWord 'f'
  origin := ⟨"Transfer", [3], false⟩
  gap := ⟨10, 14, sampleRange_nonempty⟩
  anchorBlock := 13
  anchorHash := sampleWord 'e'

theorem scan_sampleLog : ∃ t scan,
    Runs (sampleService.scanner.scan sampleAddress (sampleWord 'f') 10 14) t (.ok scan) ∧
      sampleLog ∈ scan.logs ∧ Covered scan.ranges sampleLog.blockNumber := by
  obtain ⟨hhash, hlower⟩ := isTopicWord_iff.mp (sampleWord_ok (by decide : isLowerHexDigit 'f' = true))
  have hserves : sampleService.scanner.Serves 2 [sampleLog] := sample_serves
  obtain ⟨scan, hscan, -⟩ := scan_honestLogs hserves sampleAddress_ok hhash hlower thirdTopic.gap
  have hrun := runs_answeredBy (honestLogs 2 [sampleLog])
    (sampleService.scanner.scan sampleAddress (sampleWord 'f') 10 14)
  rw [show answeredBy _ (sampleService.scanner.scan sampleAddress (sampleWord 'f') 10 14) = _ from hscan] at hrun
  have hexact : ∀ x ∈ traceOf (honestLogs 2 [sampleLog])
      (sampleService.scanner.scan sampleAddress (sampleWord 'f') 10 14),
      sampleService.scanner.ExactReply {l | l ∈ [sampleLog]} x := by
    rintro x hx f r entries endpoint rfl -
    exact answersExactly_honestLogs sample_serves.canonical (answer_of_mem_traceOf hx).symm
  obtain ⟨hlogs, hcover⟩ := StrictLogScanner.scan_spec hrun hexact
  refine ⟨_, scan, hrun, (hlogs _).mpr ⟨⟨List.mem_singleton.mpr rfl, rfl, ?_⟩, by decide, by decide⟩,
    (hcover _).mpr ⟨by decide, by decide⟩⟩
  rw [hlower]
  rfl

theorem thirdTopic_refused {scan : DiscoveryScan} (hmem : sampleLog ∈ scan.logs)
    (hcover : Covered scan.ranges sampleLog.blockNumber) :
    ∃ e, scan.completedRanges.mapM (sampleService.completedRow thirdTopic 0 0 0 scan) = .error e := by
  cases hrows : scan.completedRanges.mapM (sampleService.completedRow thirdTopic 0 0 0 scan) with
  | error e => exact ⟨e, rfl⟩
  | ok rows =>
    exfalso
    obtain ⟨range, hrange, hin⟩ := hcover
    obtain ⟨completed, hcompleted, rfl⟩ := List.mem_map.mp hrange
    obtain ⟨row, -, hrow⟩ := exists_of_mem_of_mapM hrows hcompleted
    obtain ⟨holders, hholders, -⟩ := except_bind_eq_ok_iff.mp hrow
    obtain ⟨_, -, hextract⟩ := except_bind_eq_ok_iff.mp hholders
    obtain ⟨named, hnamed, -⟩ := except_bind_eq_ok_iff.mp hextract
    obtain ⟨found, -, hlog⟩ := exists_of_mem_of_mapM hnamed (List.mem_filter.mpr ⟨hmem, decide_eq_true hin⟩)
    obtain ⟨holder, hholder, -⟩ := (holders_eq_ok hlog).1 3 List.mem_cons_self
    cases hholder

theorem runs_of_refused {t : List (Sigma RpcReply)} {scan : DiscoveryScan} {e : DiscoveryException}
    (hscan : Runs (svc.scanner.scan g.tokenAddress g.topic0 g.gap.start g.gap.endExclusive) t (.ok scan))
    (hrows : scan.completedRanges.mapM (svc.completedRow g 0 0 0 scan) = .error e) :
    Runs (svc.scanGap g) (opening 0 0 t ++ [⟨.now, 0⟩]) (.error (.discovery e)) := by
  refine runs_uuid4_bind_iff.mpr ⟨0, _, rfl, runs_now_bind_iff.mpr ⟨0, _, rfl, ?_⟩⟩
  refine runs_bind_iff.mpr (.inl ⟨scan, t.map asked, [⟨.now, 0⟩], rfl, ?_, ?_⟩)
  · exact runs_tryCatch_iff.mpr (.inl ⟨scan, rfl, runs_runRpc_iff.mpr ⟨t, .ok scan, hscan, rfl, rfl⟩⟩)
  · refine runs_now_bind_iff.mpr ⟨0, [], rfl, runs_bind_iff.mpr (.inr ⟨.discovery e, ?_, rfl⟩)⟩
    rw [hrows]
    exact .raise _

/-! ## Which failures are recorded -/

/-- An exception of the scan is recorded as a failed row of the gap, and nothing else is persisted, unless
the scan returned and its logs were refused. -/
theorem failure_recorded_iff {t : List (Sigma DiscoveryAns)} {e : DiscoveryException}
    (h : Runs (svc.scanGap g) t (.error (.discovery e))) (hcause : e ≠ .cancelled) :
    FailureRecorded svc g t e ↔ ¬ HolderRefused svc g t := by
  rcases failed_or_refused h hcause with ⟨hrecorded, hscan⟩ | ⟨hnone, hrefused⟩
  · refine iff_of_true hrecorded ?_
    rintro ⟨scan, hscan', -⟩
    cases hscan.unique hscan'
  · refine iff_of_false ?_ (not_not_intro hrefused)
    rintro ⟨row, hrow, -⟩
    rw [hnone] at hrow
    cases hrow

/-- The scan of the sample log for a third topic is such a run. -/
theorem failure_recorded_iff_sample : ∃ t e,
    Runs (sampleService.scanGap thirdTopic) t (.error (.discovery e)) ∧
      (FailureRecorded sampleService thirdTopic t e ↔ ¬ HolderRefused sampleService thirdTopic t) := by
  obtain ⟨t, scan, hscan, hmem, hcover⟩ := scan_sampleLog
  obtain ⟨e, hrows⟩ := thirdTopic_refused hmem hcover
  have hrun := runs_of_refused hscan hrows
  exact ⟨_, e, hrun, failure_recorded_iff hrun (refused_of_completedRows hrows).2⟩

/-- The scan of the sample log for a third topic raises, and no row says so. -/
theorem holder_refusal_is_not_recorded : ∃ t e,
    Runs (sampleService.scanGap thirdTopic) t (.error (.discovery e)) ∧ e ≠ .cancelled ∧
      rangeInserts t = [] ∧ ¬ FailureRecorded sampleService thirdTopic t e := by
  obtain ⟨t, scan, hscan, hmem, hcover⟩ := scan_sampleLog
  obtain ⟨e, hrows⟩ := thirdTopic_refused hmem hcover
  have hnone : rangeInserts (opening 0 0 t ++ [⟨.now, 0⟩]) = [] := by
    rw [rangeInserts_append, rangeInserts_opening]
    rfl
  refine ⟨_, e, runs_of_refused hscan hrows, (refused_of_completedRows hrows).2, hnone, ?_⟩
  rintro ⟨row, hrow, -⟩
  rw [hnone] at hrow
  cases hrow

end DiscoveryService

end RpcStateIndexer
