import RpcStateIndexer.Discovery.RangeAccounting
import RpcStateIndexer.Sweep.Contract

/-!
# What the counts of a sweep count

A sweep counts its logs after they are deduplicated: each row counts the distinct logs of its wallet in its
range, whatever the provider repeats.  The discovery service takes its counts from the answers, and they
are those of distinct logs only where no answer repeats one.
-/

namespace RpcStateIndexer

open Reasoning Program SweepProgram

/-! ## Counting two lists side by side -/

theorem countP_eq_of_forall₂ {α β : Type} {p : α → Bool} {q : β → Bool} {as : List α} {bs : List β}
    (h : List.Forall₂ (fun a b => p a = q b) as bs) : as.countP p = bs.countP q := by
  induction h with
  | nil => rfl
  | cons hhead _ ih => rw [List.countP_cons, List.countP_cons, ih, hhead]

/-- The log carries the wallet's word at the scanned position. -/
def SweepScan.carries (g : SweepScan) (wallet : String) (l : NormalizedLog) : Bool :=
  l.topics[g.position]? = some (walletTopic wallet)

/-- Each row counts the logs of its wallet in its range, and the rows of a wallet count all of its logs. -/
structure CountsCarried (g : SweepScan) (logs : List NormalizedLog) (rows : List SweepRangeRow) : Prop where
  each : ∀ row ∈ rows, row.logCount = logs.countP fun l => g.carries row.walletAddress l &&
    (row.rangeStartBlock ≤ l.blockNumber ∧ l.blockNumber < row.rangeEndBlockExclusive)
  total : ∀ wallet ∈ g.wallets,
    ((rows.filter fun row => row.walletAddress = wallet).map SweepRangeRow.logCount).sum =
      logs.countP (g.carries wallet)

namespace SweepService

variable {svc : SweepService} {g : SweepScan}

/-! ## The trace of the service -/

/-- An exchange with the RPC pool, in the trace of the sweep. -/
def asked (x : Sigma RpcReply) : Sigma SweepAns := ⟨.rpc x.1, x.2⟩

/-- The exchanges with the RPC pool. -/
def exchanged (t : List (Sigma SweepAns)) : List (Sigma RpcReply) :=
  t.filterMap fun
    | ⟨.rpc request, reply⟩ => some ⟨request, reply⟩
    | _ => none

/-- The range rows that were sent to the store, with its answers. -/
def rangeInserts (t : List (Sigma SweepAns)) : List (List SweepRangeRow × Except String Unit) :=
  t.filterMap fun
    | ⟨.insertRanges rows, reply⟩ => some (rows, reply)
    | _ => none

theorem exchanged_asked (t : List (Sigma RpcReply)) : exchanged (t.map asked) = t := by
  rw [exchanged, List.filterMap_map]
  exact List.filterMap_some

theorem rangeInserts_asked (t : List (Sigma RpcReply)) : rangeInserts (t.map asked) = [] := by
  rw [rangeInserts, List.filterMap_map, List.filterMap_eq_nil_iff]
  exact fun x _ => rfl

theorem exchanged_append (t t' : List (Sigma SweepAns)) :
    exchanged (t ++ t') = exchanged t ++ exchanged t' := List.filterMap_append

theorem rangeInserts_append (t t' : List (Sigma SweepAns)) :
    rangeInserts (t ++ t') = rangeInserts t ++ rangeInserts t' := List.filterMap_append

theorem runs_runRpc_iff {α : Type} {p : RpcProgram DiscoveryException α} {t : List (Sigma SweepAns)}
    {r : Except SweepException α} :
    Runs (SweepProgram.runRpc p) t r ↔
      ∃ t' r', Runs p t' r' ∧ t = t'.map asked ∧ r = r'.mapError .discovery :=
  @runs_lift_iff _ _ _ _ _ SweepAns _ .rpc (fun _ reply => reply) SweepException.discovery
    (fun _ reply => reply) (fun _ _ => rfl) (fun _ _ => rfl) p t r

theorem runs_now_bind_iff {α : Type} {f : Nat → SweepProgram α} {t : List (Sigma SweepAns)}
    {r : Except SweepException α} :
    Runs (SweepProgram.now >>= f) t r ↔ ∃ n t', t = ⟨.now, n⟩ :: t' ∧ Runs (f n) t' r := runs_call_iff

theorem runs_uuid4_bind_iff {α : Type} {f : Nat → SweepProgram α} {t : List (Sigma SweepAns)}
    {r : Except SweepException α} :
    Runs (SweepProgram.uuid4 >>= f) t r ↔ ∃ n t', t = ⟨.uuid4, n⟩ :: t' ∧ Runs (f n) t' r := runs_call_iff

theorem runs_insertSweepRanges_iff {rows : List SweepRangeRow} {t : List (Sigma SweepAns)}
    {r : Except SweepException Unit} :
    Runs (insertSweepRanges rows) t r ↔
      ∃ reply, t = [⟨.insertRanges rows, reply⟩] ∧ r = reply.mapError .store := by
  refine runs_call_ofExcept_iff fun reply => ?_
  cases reply <;> rfl

theorem runs_insertWalletInteractionLogs_iff {rows : List WalletInteractionRow}
    {t : List (Sigma SweepAns)} {r : Except SweepException Unit} :
    Runs (insertWalletInteractionLogs rows) t r ↔
      ∃ reply, t = [⟨.insertLogs rows, reply⟩] ∧ r = reply.mapError .store := by
  refine runs_call_ofExcept_iff fun reply => ?_
  cases reply <;> rfl

/-! ## The runs that return -/

/-- The handler of a failed scan raises whatever the store does. -/
theorem not_runs_recordFailure_ok {scanId startedAt : Nat} {e : SweepException}
    {t : List (Sigma SweepAns)} {scan : DiscoveryScan} :
    ¬ Runs (svc.recordFailure g scanId startedAt e) t (.ok scan) := by
  have hinsert : ∀ exc, ¬ Runs (SweepProgram.now >>= fun failedAt => insertSweepRanges
      (g.wallets.map (svc.failedRow g scanId startedAt failedAt exc)) >>= fun _ =>
        (throw (.discovery exc) : SweepProgram DiscoveryScan)) t (.ok scan) := by
    intro exc h
    obtain ⟨failedAt, t', -, h⟩ := runs_now_bind_iff.mp h
    obtain ⟨_, t₁, t₂, -, -, h⟩ := runs_bind_ok_iff.mp h
    exact not_runs_raise_ok h
  cases e with
  | discovery exc =>
    cases exc with
    | cancelled => exact not_runs_raise_ok
    | rangeFailed message cause => exact hinsert _
    | responseError message => exact hinsert _
    | valueError message => exact hinsert _
  | valueError message => exact not_runs_raise_ok
  | indexError => exact not_runs_raise_ok
  | store message => exact not_runs_raise_ok

theorem runs_guarded_ok {p : RpcProgram DiscoveryException DiscoveryScan} {scanId startedAt : Nat}
    {t : List (Sigma SweepAns)} {scan : DiscoveryScan}
    (h : Runs (tryCatch (SweepProgram.runRpc p) (svc.recordFailure g scanId startedAt)) t (.ok scan)) :
    ∃ t', t = t'.map asked ∧ Runs p t' (.ok scan) := by
  rcases runs_tryCatch_iff.mp h with ⟨scan', heq, hscan⟩ | ⟨e, t₁, t₂, -, -, hrecord⟩
  · cases heq
    obtain ⟨t', r', hrun, rfl, hr⟩ := runs_runRpc_iff.mp hscan
    obtain rfl := except_mapError_eq_ok_iff.mp hr.symm
    exact ⟨t', rfl, hrun⟩
  · exact absurd hrecord not_runs_recordFailure_ok

theorem runs_insertSweepRanges_ok {rows : List SweepRangeRow} {t : List (Sigma SweepAns)}
    (h : Runs (insertSweepRanges rows) t (.ok ())) :
    exchanged t = [] ∧ rangeInserts t = [(rows, .ok ())] := by
  obtain ⟨reply, rfl, hreply⟩ := runs_insertSweepRanges_iff.mp h
  obtain rfl := except_mapError_eq_ok_iff.mp hreply.symm
  exact ⟨rfl, rfl⟩

theorem runs_persist_ok {logRows : List WalletInteractionRow} {rows : List SweepRangeRow}
    {t : List (Sigma SweepAns)} (h : Runs (persist logRows rows) t (.ok ())) :
    exchanged t = [] ∧ rangeInserts t = [(rows, .ok ())] := by
  unfold persist at h
  split at h
  · obtain ⟨_, t₁, t₂, rfl, hlogs, hranges⟩ := runs_bind_ok_iff.mp h
    obtain ⟨reply, rfl, -⟩ := runs_insertWalletInteractionLogs_iff.mp hlogs
    show exchanged t₂ = [] ∧ rangeInserts t₂ = [(rows, .ok ())]
    exact runs_insertSweepRanges_ok hranges
  · exact runs_insertSweepRanges_ok h

/-- A window scan that returns has inserted the completed rows of its scan. -/
theorem rows_of_runs {t : List (Sigma SweepAns)} {n : Nat} (hrun : Runs (svc.scanGap g) t (.ok n)) :
    ∃ f scan scanId startedAt finishedAt logRows,
      Runs (svc.scanner.scanFilter f g.gap.start g.gap.endExclusive) (exchanged t) (.ok scan) ∧
      scan.logs.mapM (svc.logRow g finishedAt) = .ok logRows ∧
      rangeInserts t = [(svc.completedRowsOf g scanId startedAt finishedAt logRows scan, .ok ())] := by
  obtain ⟨scanId, t₁, rfl, hstarted⟩ := runs_uuid4_bind_iff.mp hrun
  obtain ⟨startedAt, t₂, rfl, hfiltered⟩ := runs_now_bind_iff.mp hstarted
  obtain ⟨f, t₃, t₄, rfl, hfilter, hguarded⟩ := runs_bind_ok_iff.mp hfiltered
  obtain ⟨rfl, -⟩ := runs_ofExcept_iff.mp hfilter
  obtain ⟨scan, t₅, t₆, rfl, hscanned, hfinished⟩ := runs_bind_ok_iff.mp hguarded
  obtain ⟨t₇, rfl, hscan⟩ := runs_guarded_ok hscanned
  obtain ⟨finishedAt, t₈, rfl, hlogged⟩ := runs_now_bind_iff.mp hfinished
  obtain ⟨logRows, t₉, t₁₀, rfl, hrows, hpersisted⟩ := runs_bind_ok_iff.mp hlogged
  obtain ⟨rfl, hlogRows⟩ := runs_ofExcept_iff.mp hrows
  obtain ⟨_, t₁₁, t₁₂, rfl, hpersist, hreturned⟩ := runs_bind_ok_iff.mp hpersisted
  obtain ⟨rfl, -⟩ := runs_ret_iff.mp hreturned
  obtain ⟨hasked, hranges⟩ := runs_persist_ok hpersist
  refine ⟨f, scan, scanId, startedAt, finishedAt, logRows, ?_, hlogRows.symm, ?_⟩
  · have hexchanged : exchanged (t₇.map asked ++ ⟨.now, finishedAt⟩ :: (t₁₁ ++ [])) = t₇ := by
      rw [exchanged_append, exchanged_asked, List.append_nil]
      show t₇ ++ exchanged t₁₁ = t₇
      rw [hasked, List.append_nil]
    show Runs _ (exchanged (t₇.map asked ++ ⟨.now, finishedAt⟩ :: (t₁₁ ++ []))) _
    rw [hexchanged]
    exact hscan
  · show rangeInserts (t₇.map asked ++ ⟨.now, finishedAt⟩ :: (t₁₁ ++ [])) = _
    rw [rangeInserts_append, rangeInserts_asked, List.append_nil]
    exact hranges

/-! ## The rows of a window -/

/-- Every log is attributed to the one wallet whose word it carries. -/
theorem logRows_carry {finishedAt : Nat} {logs : List NormalizedLog} {logRows : List WalletInteractionRow}
    (hwallets : ∀ wallet ∈ g.wallets, isAddress wallet = true)
    (h : logs.mapM (svc.logRow g finishedAt) = .ok logRows) {wallet : String} (hwallet : wallet ∈ g.wallets) :
    List.Forall₂ (fun l row => row.blockNumber = l.blockNumber ∧
      decide (row.walletAddress = wallet) = g.carries wallet l) logs logRows := by
  refine (mapM_eq_ok_iff.mp h).imp fun l row hrow => ?_
  obtain ⟨named, hnamed, hword, -, hrecords⟩ := logRow_eq_ok hrow
  refine ⟨hrecords.blockNumber_eq, decide_eq_decide.mpr ?_⟩
  rw [hrecords.walletAddress_eq, hword, Option.some.injEq]
  constructor
  · rintro rfl
    rfl
  · intro hsame
    exact walletTopic_inj (hwallets named hnamed) (hwallets wallet hwallet) hsame

/-- The rows of one wallet, one for each range. -/
theorem filter_completedRowsOf {scanId startedAt finishedAt : Nat} {logRows : List WalletInteractionRow}
    {scan : DiscoveryScan} (hnodup : g.wallets.Nodup) {wallet : String} (hwallet : wallet ∈ g.wallets) :
    ((svc.completedRowsOf g scanId startedAt finishedAt logRows scan).filter fun row =>
        row.walletAddress = wallet) =
      scan.completedRanges.map fun completed =>
        svc.completedRow g scanId startedAt finishedAt logRows completed wallet := by
  have hone : g.wallets.filter (fun other => other = wallet) = [wallet] := by
    rw [List.filter_eq, List.count_eq_one_of_mem hnodup hwallet]
    rfl
  rw [completedRowsOf, List.filter_flatMap, ← List.flatMap_pure_eq_map]
  refine List.flatMap_congr fun completed _ => ?_
  rw [List.filter_map]
  show (g.wallets.filter fun other => other = wallet).map _ = _
  rw [hone]
  rfl

/-- The rows count the logs as they were after deduplication. -/
theorem countsCarried_of_scan {scanId startedAt finishedAt : Nat} {logRows : List WalletInteractionRow}
    {scan : DiscoveryScan} (hwallets : ∀ wallet ∈ g.wallets, isAddress wallet = true)
    (hnodup : g.wallets.Nodup) (hrows : scan.logs.mapM (svc.logRow g finishedAt) = .ok logRows)
    (hpartition : Partitions StrictLogScanner.within scan.completedRanges scan.logs) :
    CountsCarried g scan.logs (svc.completedRowsOf g scanId startedAt finishedAt logRows scan) := by
  have hcount : ∀ completed, ∀ wallet ∈ g.wallets,
      (svc.completedRow g scanId startedAt finishedAt logRows completed wallet).logCount =
        scan.logs.countP fun l => g.carries wallet l && StrictLogScanner.within completed l := by
    intro completed wallet hwallet
    rw [completedRow, ← List.countP_eq_length_filter]
    refine (countP_eq_of_forall₂ ?_).symm
    refine (logRows_carry hwallets hrows hwallet).imp fun l row hrow => ?_
    rw [hrow.1, hrow.2]
    rfl
  constructor
  · intro row hrow
    obtain ⟨completed, -, wallet, hwallet, rfl⟩ := mem_completedRowsOf.mp hrow
    exact hcount completed wallet hwallet
  · intro wallet hwallet
    have hcarried : Partitions StrictLogScanner.within scan.completedRanges
        (scan.logs.filter (g.carries wallet)) := hpartition.sublist fun l hl => List.mem_of_mem_filter hl
    rw [filter_completedRowsOf hnodup hwallet, List.map_map, List.countP_eq_length_filter, ← hcarried.sum]
    congr 1
    refine List.map_congr_left fun completed _ => ?_
    rw [Function.comp_apply, hcount completed wallet hwallet, List.countP_filter]
    exact List.countP_congr fun l _ => by rw [Bool.and_comm]

/-- The completed rows of the run count the distinct logs that its answers showed, wallet by wallet. -/
def Accounted (svc : SweepService) (g : SweepScan) (t : List (Sigma SweepAns)) : Prop :=
  ∃ logs rows, svc.scanner.Deduplicated (exchanged t) logs ∧ rangeInserts t = [(rows, .ok ())] ∧
    (∀ row ∈ rows, row.status = .completed ∧ row.walletAddress ∈ g.wallets) ∧ CountsCarried g logs rows

theorem accounted {t : List (Sigma SweepAns)} {n : Nat}
    (hwallets : ∀ wallet ∈ g.wallets, isAddress wallet = true) (hnodup : g.wallets.Nodup)
    (hrun : Runs (svc.scanGap g) t (.ok n)) : svc.Accounted g t := by
  obtain ⟨f, scan, scanId, startedAt, finishedAt, logRows, hscan, hrows, hranges⟩ := rows_of_runs hrun
  obtain ⟨batches, hcollected⟩ := StrictLogScanner.collected_of_scanFilter hscan
  refine ⟨scan.logs, _, hcollected.deduplicated, hranges, fun row hrow => ?_,
    countsCarried_of_scan hwallets hnodup hrows hcollected.partitions⟩
  obtain ⟨completed, -, wallet, hwallet, rfl⟩ := mem_completedRowsOf.mp hrow
  exact ⟨rfl, hwallet⟩

end SweepService

/-! ## An answer that repeats a log -/

theorem repeatedChunk_pos : 0 < 4 := by decide

theorem repeatedCap_pos : 0 < 3 := by decide

/-- The sample service, with a cap that two logs do not reach. -/
def repeatedService : DiscoveryService :=
  ⟨100, sampleRegistry, ⟨4, 3, repeatedChunk_pos, repeatedCap_pos⟩⟩

def bothTopics : GapScan where
  tokenAddress := sampleAddress
  topic0 := sampleWord 'f'
  origin := ⟨"Transfer", [1, 2], false⟩
  gap := ⟨10, 14, sampleRange_nonempty⟩
  anchorBlock := 13
  anchorHash := sampleWord 'e'

/-- The provider holds the sample log twice. -/
theorem repeated_serves : repeatedService.scanner.Serves 2 [sampleLog, sampleLog] where
  limit_pos := by decide
  canonical := by simpa using sampleLog_canonical
  identity := by simp
  below_cap block := (List.length_filter_le _ _).trans_lt (by decide : 2 < 3)

theorem bothTopics_names : NamesHolders [sampleLog, sampleLog] bothTopics.origin.holderTopics := by
  intro l hl position hposition
  refine sample_namesHolders (fun _ h => h) l ?_ position hposition
  simpa using hl

/-- It answers with both copies, or with none. -/
theorem repeated_of_answer {f : LogFilter} {r : BlockRange} {entries : List Json} {endpoint : RpcEndpoint}
    (h : honestLogs 2 [sampleLog, sampleLog] (getLogs f r) = .ok (.arr entries, endpoint)) :
    entries = [] ∨ entries = [.obj (logFields sampleLog), .obj (logFields sampleLog)] := by
  rw [honestLogs_getLogs] at h
  split at h
  · cases h
  · cases h
    by_cases hserved : ∃ l, l ∈ servedLogs [sampleLog, sampleLog] f r
    · obtain ⟨l, hl⟩ := hserved
      have heach : ∀ other ∈ [sampleLog, sampleLog], other = sampleLog := by simp
      obtain ⟨hmem, hpass⟩ := List.mem_filter.mp hl
      rw [heach l hmem] at hpass
      have hall : servedLogs [sampleLog, sampleLog] f r = [sampleLog, sampleLog] :=
        List.filter_eq_self.mpr fun other hother => heach other hother ▸ hpass
      rw [hall]
      exact .inr rfl
    · have hnone : servedLogs [sampleLog, sampleLog] f r = [] :=
        List.eq_nil_iff_forall_not_mem.mpr fun l hl => hserved ⟨l, hl⟩
      rw [hnone]
      exact .inl rfl

theorem repeated_run : ∃ t, Runs (repeatedService.scanGap bothTopics) t (.ok ()) ∧
    ¬ repeatedService.scanner.NoRepeats (exchanged t) := by
  obtain ⟨hhash, hlower⟩ := isTopicWord_iff.mp (sampleWord_ok (by decide : isLowerHexDigit 'f' = true))
  obtain ⟨w, hexec⟩ := DiscoveryService.exec_scanGap repeated_serves (g := bothTopics) sampleAddress_ok
    hhash hlower (by decide) (by decide) bothTopics_names .empty
  obtain ⟨t, hrun, hanswers⟩ := exists_runs_exec (honestDiscovery 2 [sampleLog, sampleLog])
    (repeatedService.scanGap bothTopics) .empty
  rw [hexec] at hrun
  have hhonest : ∀ x ∈ exchanged t, x.2 = honestLogs 2 [sampleLog, sampleLog] x.1 := by
    intro x hx
    obtain ⟨w', hanswer⟩ := hanswers _ (mem_exchanged.mp hx)
    exact hanswer
  refine ⟨t, hrun, fun hnone => ?_⟩
  obtain ⟨scan, rows, hscan, -⟩ := DiscoveryService.rows_of_runs hrun
  obtain ⟨f, batches, hcollected⟩ := StrictLogScanner.collected_of_scan hscan
  have hexact : ∀ x ∈ exchanged t,
      repeatedService.scanner.ExactReply {l | l ∈ [sampleLog, sampleLog]} x := by
    rintro x hx f r entries endpoint rfl -
    exact answersExactly_honestLogs repeated_serves.canonical (hhonest _ hx).symm
  have hmem : sampleLog ∈ scan.logs := by
    have hevent : sampleLog ∈ eventLogs {l | l ∈ [sampleLog, sampleLog]} sampleAddress
        (sampleWord 'f').toLower := by
      refine ⟨List.mem_cons_self, rfl, ?_⟩
      rw [hlower]
      rfl
    exact ((StrictLogScanner.scan_spec hscan hexact).1 _).mpr ⟨hevent, by decide, by decide⟩
  obtain ⟨x, hx, hbatch⟩ := (hcollected.logs _).mp hmem
  obtain ⟨entries, endpoint, hasked, hlt, -, hparse⟩ := hcollected.accepted hx
  rcases repeated_of_answer (hhonest _ hasked).symm with rfl | rfl
  · obtain ⟨entry, hentry, -⟩ := exists_of_mem_mapM hparse hbatch
    cases hentry
  · have hpair := hnone _ _ endpoint hasked hlt
    have hshows : Shows (.obj (logFields sampleLog)) sampleLog :=
      ⟨_, rfl, describes_logFields sampleLog_canonical⟩
    exact (List.pairwise_cons.mp hpair).1 _ List.mem_cons_self ⟨sampleLog, hshows, hshows⟩

/-- A window of the sample sweep. -/
def senderWindow : SweepScan := ⟨1, [sampleHolder 'a'], ⟨10, 13, by decide⟩, 13, sampleWord 'e'⟩

theorem senderWindow_addresses : ∀ wallet ∈ senderWindow.wallets, isAddress wallet = true := by
  simpa [senderWindow] using sampleHolder_ok (by decide : isLowerHexDigit 'a' = true)

/-! ## The counts of both services -/

/-- A gap scan of an event that returned has counted the distinct logs of each range exactly if no answer
below the cap showed one log twice; a window scan of a sweep that returned always has. -/
theorem range_accounting_iff {svc : DiscoveryService} {g : GapScan} {t : List (Sigma DiscoveryAns)}
    (hrun : Runs (svc.scanGap g) t (.ok ())) {sweep : SweepService} {window : SweepScan}
    (hwallets : ∀ wallet ∈ window.wallets, isAddress wallet = true) (hnodup : window.wallets.Nodup)
    {u : List (Sigma SweepAns)} {n : Nat} (hsweep : Runs (sweep.scanGap window) u (.ok n)) :
    (svc.Accounted t ↔ svc.scanner.NoRepeats (exchanged t)) ∧ sweep.Accounted window u :=
  ⟨DiscoveryService.accounted_iff hrun, SweepService.accounted hwallets hnodup hsweep⟩

/-- The scan of an event whose log is answered twice, and a sweep of the sender. -/
theorem range_accounting_iff_sample : ∃ t u n,
    Runs (repeatedService.scanGap bothTopics) t (.ok ()) ∧
      Runs (sampleSweepService.scanGap senderWindow) u (.ok n) ∧
      (repeatedService.Accounted t ↔ repeatedService.scanner.NoRepeats (exchanged t)) ∧
      sampleSweepService.Accounted senderWindow u := by
  obtain ⟨t, ht, -⟩ := repeated_run
  have hempty : SweepStore.empty.RangesOk := by simp [SweepStore.RangesOk, SweepStore.empty]
  have hserves : sampleSweepService.scanner.Serves 2 [sampleLog] := sample_serves
  obtain ⟨n, w, hexec, -⟩ := SweepService.exec_scanGap hserves (g := senderWindow) (by decide)
    (List.cons_ne_nil _ _) senderWindow_addresses hempty
  obtain ⟨u, hu, -⟩ := exists_runs_exec (honestSweep 2 [sampleLog])
    (sampleSweepService.scanGap senderWindow) .empty
  rw [hexec] at hu
  exact ⟨t, u, n, ht, hu, range_accounting_iff ht senderWindow_addresses (List.nodup_singleton _) hu⟩

/-- Where the provider answers with both copies, the counts of the event are not those of distinct logs. -/
theorem repeated_logs_are_counted_twice : ∃ t, Runs (repeatedService.scanGap bothTopics) t (.ok ()) ∧
    ¬ repeatedService.Accounted t := by
  obtain ⟨t, hrun, hrepeats⟩ := repeated_run
  exact ⟨t, hrun, fun haccounted => hrepeats ((DiscoveryService.accounted_iff hrun).mp haccounted)⟩

end RpcStateIndexer
