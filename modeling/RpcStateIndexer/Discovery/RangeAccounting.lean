import RpcStateIndexer.Discovery.GapRuns
import RpcStateIndexer.Reasoning.Partition

/-!
# What the counts of a scan count

Every answer below the cap completes one range, and the counts of the ranges are those of the answers.
The logs are deduplicated afterwards, so the counts are those of distinct logs exactly when no answer
repeats an entry.
-/

namespace RpcStateIndexer

open Reasoning Program

/-! ## Entries and logs -/

/-- The entry describes the log. -/
def Shows (entry : Json) (l : NormalizedLog) : Prop :=
  ∃ fields, entry = .obj fields ∧ Describes fields l

theorem Shows.unique {entry : Json} {l l' : NormalizedLog} (h : Shows entry l) (h' : Shows entry l') :
    l = l' := by
  obtain ⟨fields, rfl, hl⟩ := h
  obtain ⟨fields', hsame, hl'⟩ := h'
  cases hsame
  exact hl.unique hl'

theorem shows_of_parseLog {entry : Json} {f : LogFilter} {r : BlockRange} {l : NormalizedLog}
    (h : parseLog entry f r = .ok l) : Shows entry l := by
  obtain ⟨fields, rfl, hparsed⟩ := parseLog_eq_ok h
  exact ⟨fields, rfl, hparsed.describes⟩

/-- The logs of an answer are those that its entries describe. -/
theorem mem_parsed_iff_shows {f : LogFilter} {r : BlockRange} {entries : List Json}
    {parsed : List NormalizedLog} (h : entries.mapM (fun entry => parseLog entry f r) = .ok parsed)
    (l : NormalizedLog) : l ∈ parsed ↔ ∃ entry ∈ entries, Shows entry l := by
  constructor
  · intro hl
    obtain ⟨entry, hentry, hok⟩ := exists_of_mem_mapM h hl
    exact ⟨entry, hentry, shows_of_parseLog hok⟩
  · rintro ⟨entry, hentry, hshows⟩
    obtain ⟨l', hl', hok⟩ := exists_of_mem_of_mapM h hentry
    rw [hshows.unique (shows_of_parseLog hok)]
    exact hl'

/-- Two entries show the same log. -/
def SameLog (a b : Json) : Prop := ∃ l, Shows a l ∧ Shows b l

theorem nodup_parsed_iff {f : LogFilter} {r : BlockRange} {entries : List Json}
    {parsed : List NormalizedLog} (h : entries.mapM (fun entry => parseLog entry f r) = .ok parsed) :
    parsed.Nodup ↔ entries.Pairwise fun a b => ¬ SameLog a b := by
  have hall := mapM_eq_ok_iff.mp h
  clear h
  induction hall with
  | nil => exact iff_of_true .nil .nil
  | @cons entry l entries parsed hentry hrest ih =>
    refine List.nodup_cons.trans ((and_congr ?_ ih).trans List.pairwise_cons.symm)
    rw [mem_parsed_iff_shows (mapM_eq_ok_iff.mpr hrest)]
    constructor
    · rintro hnone other hother ⟨l', hl, hl'⟩
      rw [hl.unique (shows_of_parseLog hentry)] at hl'
      exact hnone ⟨other, hother, hl'⟩
    · rintro hnone ⟨other, hother, hl⟩
      exact hnone other hother ⟨l, shows_of_parseLog hentry, hl⟩

namespace StrictLogScanner

variable {s : StrictLogScanner} {f : LogFilter}

/-! ## The answers of a scan -/

/-- The answer is an array below the cap. -/
def belowCap (s : StrictLogScanner) (x : Sigma RpcReply) : Bool :=
  match x.2 with
  | .ok (.arr entries, _) => entries.length < s.resultCap
  | _ => false

theorem belowCap_iff {x : Sigma RpcReply} : s.belowCap x = true ↔
    ∃ entries endpoint, x = ⟨x.1, .ok (.arr entries, endpoint)⟩ ∧ entries.length < s.resultCap := by
  obtain ⟨request, reply⟩ := x
  unfold belowCap
  constructor
  · intro h
    split at h
    · next entries endpoint heq =>
      obtain rfl : reply = _ := heq
      exact ⟨entries, endpoint, rfl, of_decide_eq_true h⟩
    · cases h
  · rintro ⟨entries, endpoint, heq, hlt⟩
    cases heq
    exact decide_eq_true hlt

/-- The answer completes the range, and parses to the logs. -/
def AcceptedAs (f : LogFilter) (x : Sigma RpcReply) (p : CompletedRange × List NormalizedLog) : Prop :=
  ∃ entries endpoint, x = ⟨getLogs f p.1.blockRange, .ok (.arr entries, endpoint)⟩ ∧
    p.1.logCount = entries.length ∧
    entries.mapM (fun entry => parseLog entry f p.1.blockRange) = .ok p.2

/-- A pass completes a range exactly if the answer is below the cap. -/
theorem afterReply_accepts {r : BlockRange} {st st' : ScanState} {reply : RpcReply (getLogs f r)}
    (h : s.afterReply f r st reply = .ok st') :
    (s.belowCap ⟨getLogs f r, reply⟩ = false ∧ st'.completed = st.completed ∧ st'.logs = st.logs) ∨
      s.belowCap ⟨getLogs f r, reply⟩ = true ∧ ∃ p, AcceptedAs f ⟨getLogs f r, reply⟩ p ∧
        st'.completed = st.completed ++ [p.1] ∧ st'.logs = st.logs ++ p.2 := by
  cases hcap : s.belowCap ⟨getLogs f r, reply⟩ with
  | true =>
    obtain ⟨entries, endpoint, heq, hlt⟩ := belowCap_iff.mp hcap
    obtain rfl : reply = .ok (.arr entries, endpoint) := by
      cases heq
      rfl
    rw [afterReply, if_neg (not_le.mpr hlt)] at h
    obtain ⟨parsed, hparse, hret⟩ := except_bind_eq_ok_iff.mp h
    obtain rfl := except_pure_eq_ok_iff.mp hret
    exact .inr ⟨rfl, (⟨r, parsed.length, endpoint.fingerprint⟩, parsed),
      ⟨entries, endpoint, rfl, mapM_eq_ok_length hparse, hparse⟩, rfl, rfl⟩
  | false =>
    left
    rcases afterReply_cases h with ⟨_, rfl⟩ | ⟨rawLogs, endpoint, parsed, rfl, hlt, -, -⟩
    · exact ⟨rfl, rfl, rfl⟩
    · rw [belowCap_iff.mpr ⟨rawLogs, endpoint, rfl, hlt⟩] at hcap
      cases hcap

/-- The loop completes one range for each answer below the cap, in order. -/
theorem scanLoop_accepts {t : List (Sigma RpcReply)} {st st' : ScanState}
    (hrun : Runs (s.scanLoop f st) t (.ok st')) :
    ∃ batches, List.Forall₂ (AcceptedAs f) (t.filter s.belowCap) batches ∧
      st'.completed = st.completed ++ batches.map Prod.fst ∧
      st'.logs = st.logs ++ (batches.map Prod.snd).flatten := by
  induction st using scanLoop.induct s f generalizing t with
  | case1 completed logs =>
    rw [StrictLogScanner.scanLoop, runs_ret_iff] at hrun
    obtain ⟨rfl, heq⟩ := hrun
    obtain rfl := Except.ok.inj heq
    exact ⟨[], .nil, (List.append_nil _).symm, (List.append_nil _).symm⟩
  | case2 r pending completed logs ih =>
    rw [StrictLogScanner.scanLoop, runs_call_iff] at hrun
    obtain ⟨reply, rest, rfl, hrest⟩ := hrun
    split at hrest
    · cases (runs_raise_iff.mp hrest).2
    · rename_i st₁ hpass
      obtain ⟨batches, hall, hcompleted, hlogs⟩ := ih reply st₁ hpass hrest
      rcases afterReply_accepts hpass with ⟨hcap, hkeep, hkeep'⟩ | ⟨hcap, p, hp, hnew, hnew'⟩
      · refine ⟨batches, ?_, ?_, ?_⟩
        · rw [List.filter_cons_of_neg (by rw [hcap]; exact Bool.false_ne_true)]
          exact hall
        · rw [hcompleted, hkeep]
        · rw [hlogs, hkeep']
      · refine ⟨p :: batches, ?_, ?_, ?_⟩
        · rw [List.filter_cons_of_pos hcap]
          exact .cons hp hall
        · rw [hcompleted, hnew, List.append_assoc]
          rfl
        · rw [hlogs, hnew', List.append_assoc]
          rfl

/-! ## The logs of a scan -/

/-- The log lies in the completed range. -/
def within (c : CompletedRange) (l : NormalizedLog) : Bool := c.blockRange.Contains l.blockNumber

/-- The logs that the answers below the cap show, one of each identity. -/
structure Deduplicated (s : StrictLogScanner) (t : List (Sigma RpcReply)) (logs : List NormalizedLog) :
    Prop where
  mem : ∀ l, l ∈ logs ↔ ∃ request entries endpoint, ⟨request, .ok (.arr entries, endpoint)⟩ ∈ t ∧
    entries.length < s.resultCap ∧ ∃ entry ∈ entries, Shows entry l
  distinct : logs.Pairwise fun a b => a.identity ≠ b.identity

theorem Deduplicated.nodup {t : List (Sigma RpcReply)} {logs : List NormalizedLog}
    (h : s.Deduplicated t logs) : logs.Nodup :=
  h.distinct.imp fun hne heq => hne (congrArg NormalizedLog.identity heq)

theorem Deduplicated.perm {t : List (Sigma RpcReply)} {logs logs' : List NormalizedLog}
    (h : s.Deduplicated t logs) (h' : s.Deduplicated t logs') : logs.Perm logs' :=
  (List.perm_ext_iff_of_nodup h.nodup h'.nodup).mpr fun l => (h.mem l).trans (h'.mem l).symm

/-- No answer below the cap shows one log twice. -/
def NoRepeats (s : StrictLogScanner) (t : List (Sigma RpcReply)) : Prop :=
  ∀ request entries endpoint, ⟨request, .ok (.arr entries, endpoint)⟩ ∈ t →
    entries.length < s.resultCap → entries.Pairwise fun a b => ¬ SameLog a b

/-- What a scan made of the answers: one batch of logs for each completed range. -/
structure Collected (s : StrictLogScanner) (f : LogFilter) (t : List (Sigma RpcReply)) (scan : DiscoveryScan)
    (batches : List (CompletedRange × List NormalizedLog)) : Prop where
  answers : List.Forall₂ (AcceptedAs f) (t.filter s.belowCap) batches
  completed : scan.completedRanges.Perm (batches.map Prod.fst)
  disjoined : Disjoined within (batches.map Prod.fst)
  logs : ∀ l, l ∈ scan.logs ↔ ∃ x ∈ batches, l ∈ x.2
  distinct : scan.logs.Pairwise fun a b => a.identity ≠ b.identity

theorem collected_of_scanFilter {startBlock endBlock : Nat} {t : List (Sigma RpcReply)}
    {scan : DiscoveryScan} (hrun : Runs (s.scanFilter f startBlock endBlock) t (.ok scan)) :
    ∃ batches, s.Collected f t scan batches := by
  obtain ⟨h, st, hloop, -, hcompleted, hlogs⟩ := runs_scanFilter_ok hrun
  obtain ⟨batches, hanswers, hranges, hbatches⟩ := scanLoop_accepts hloop
  have hranges' : st.completed = batches.map Prod.fst := hranges
  have hbatches' : st.logs = (batches.map Prod.snd).flatten := hbatches
  have hperm : scan.completedRanges.Perm (batches.map Prod.fst) := by
    rw [hcompleted, ← hranges']
    exact sortCompleted_perm st.completed
  refine ⟨batches, hanswers, hperm, ?_, fun l => ?_, deduplicateLogs_identity hlogs⟩
  · have hpartition := List.pairwise_map.mp (scanFilter_partition hrun).1
    refine (hperm.pairwise_iff fun hdisjoint l hl => hdisjoint l hl.symm).mp (hpartition.imp ?_)
    intro c c' hdisjoint l hl
    exact hdisjoint l.blockNumber ⟨of_decide_eq_true hl.1, of_decide_eq_true hl.2⟩
  · rw [(deduplicateLogs_eq_ok hlogs).1, hbatches', List.mem_flatten]
    constructor
    · rintro ⟨batch, hbatch, hl⟩
      obtain ⟨x, hx, rfl⟩ := List.mem_map.mp hbatch
      exact ⟨x, hx, hl⟩
    · rintro ⟨x, hx, hl⟩
      exact ⟨x.2, List.mem_map_of_mem hx, hl⟩

theorem collected_of_scan {tokenAddress topic0 : String} {startBlock endBlock : Nat}
    {t : List (Sigma RpcReply)} {scan : DiscoveryScan}
    (hrun : Runs (s.scan tokenAddress topic0 startBlock endBlock) t (.ok scan)) :
    ∃ f batches, s.Collected f t scan batches := by
  obtain ⟨haddress, htopic, hfilter⟩ := scan_eq_ok hrun
  exact ⟨_, collected_of_scanFilter hfilter⟩

namespace Collected

variable {t : List (Sigma RpcReply)} {scan : DiscoveryScan}
  {batches : List (CompletedRange × List NormalizedLog)}

/-- Every batch comes from an answer below the cap, and every such answer makes one. -/
theorem accepted (h : s.Collected f t scan batches) {x : CompletedRange × List NormalizedLog}
    (hx : x ∈ batches) : ∃ entries endpoint,
      ⟨getLogs f x.1.blockRange, .ok (.arr entries, endpoint)⟩ ∈ t ∧ entries.length < s.resultCap ∧
      x.1.logCount = entries.length ∧
      entries.mapM (fun entry => parseLog entry f x.1.blockRange) = .ok x.2 := by
  obtain ⟨answer, hanswer, entries, endpoint, rfl, hcount, hparse⟩ := forall₂_right h.answers hx
  obtain ⟨hmem, hcap⟩ := List.mem_filter.mp hanswer
  obtain ⟨entries', endpoint', heq, hlt⟩ := belowCap_iff.mp hcap
  cases heq
  exact ⟨entries, endpoint, hmem, hlt, hcount, hparse⟩

theorem batch_of_answer (h : s.Collected f t scan batches) {request : RpcRequest} {entries : List Json}
    {endpoint : RpcEndpoint} (hmem : ⟨request, .ok (.arr entries, endpoint)⟩ ∈ t)
    (hlt : entries.length < s.resultCap) :
    ∃ x ∈ batches, entries.mapM (fun entry => parseLog entry f x.1.blockRange) = .ok x.2 := by
  have hanswer := List.mem_filter.mpr ⟨hmem, belowCap_iff.mpr ⟨entries, endpoint, rfl, hlt⟩⟩
  obtain ⟨x, hx, entries', endpoint', heq, -, hparse⟩ := forall₂_left h.answers hanswer
  cases heq
  exact ⟨x, hx, hparse⟩

theorem inside (h : s.Collected f t scan batches) : ∀ x ∈ batches, ∀ l ∈ x.2, within x.1 l = true := by
  intro x hx l hl
  obtain ⟨entries, endpoint, -, -, -, hparse⟩ := h.accepted hx
  obtain ⟨entry, -, hok⟩ := exists_of_mem_mapM hparse hl
  obtain ⟨fields, -, hparsed⟩ := parseLog_eq_ok hok
  exact decide_eq_true hparsed.inRange

theorem deduplicated (h : s.Collected f t scan batches) : s.Deduplicated t scan.logs where
  mem l := by
    rw [h.logs]
    constructor
    · rintro ⟨x, hx, hl⟩
      obtain ⟨entries, endpoint, hmem, hlt, -, hparse⟩ := h.accepted hx
      exact ⟨_, entries, endpoint, hmem, hlt, (mem_parsed_iff_shows hparse l).mp hl⟩
    · rintro ⟨request, entries, endpoint, hmem, hlt, hshown⟩
      obtain ⟨x, hx, hparse⟩ := h.batch_of_answer hmem hlt
      exact ⟨x, hx, (mem_parsed_iff_shows hparse l).mpr hshown⟩
  distinct := h.distinct

theorem noRepeats_iff (h : s.Collected f t scan batches) : s.NoRepeats t ↔ ∀ x ∈ batches, x.2.Nodup := by
  constructor
  · intro hnone x hx
    obtain ⟨entries, endpoint, hmem, hlt, -, hparse⟩ := h.accepted hx
    exact (nodup_parsed_iff hparse).mpr (hnone _ entries endpoint hmem hlt)
  · intro hnodup request entries endpoint hmem hlt
    obtain ⟨x, hx, hparse⟩ := h.batch_of_answer hmem hlt
    exact (nodup_parsed_iff hparse).mp (hnodup x hx)

/-- A range's count is that of its distinct logs exactly if its answer repeats none. -/
theorem logCount_eq_iff (h : s.Collected f t scan batches) {x : CompletedRange × List NormalizedLog}
    (hx : x ∈ batches) : x.1.logCount = scan.logs.countP (within x.1) ↔ x.2.Nodup := by
  obtain ⟨entries, endpoint, -, -, hcount, hparse⟩ := h.accepted hx
  rw [hcount, ← mapM_eq_ok_length hparse, countP_collected h.disjoined h.inside h.deduplicated.nodup h.logs hx]
  exact length_dedup_eq_iff

theorem partitions (h : s.Collected f t scan batches) : Partitions within scan.completedRanges scan.logs := by
  have hbatches : Partitions within (batches.map Prod.fst) scan.logs := by
    refine h.disjoined.partitions fun l hl => ?_
    obtain ⟨x, hx, hbatch⟩ := (h.logs l).mp hl
    exact ⟨x.1, List.mem_map_of_mem hx, h.inside x hx l hbatch⟩
  intro l hl
  rw [h.completed.countP_eq]
  exact hbatches l hl

end Collected

end StrictLogScanner

/-! ## The rows of a gap -/

/-- Each row counts the distinct logs of its range, and together the rows count them all. -/
structure CountsDistinct (logs : List NormalizedLog) (rows : List DiscoveryRangeRow) : Prop where
  each : ∀ row ∈ rows, row.logCount = logs.countP fun l =>
    row.rangeStartBlock ≤ l.blockNumber ∧ l.blockNumber < row.rangeEndBlockExclusive
  total : (rows.map DiscoveryRangeRow.logCount).sum = logs.length

theorem CountsDistinct.perm {logs logs' : List NormalizedLog} {rows : List DiscoveryRangeRow}
    (h : CountsDistinct logs rows) (hperm : logs.Perm logs') : CountsDistinct logs' rows where
  each row hrow := by rw [h.each row hrow, hperm.countP_eq]
  total := by rw [h.total, hperm.length_eq]

namespace DiscoveryService

variable {svc : DiscoveryService} {g : GapScan} {t : List (Sigma DiscoveryAns)}

/-- The row takes over the range and its count. -/
theorem completedRow_range {scanId startedAt finishedAt : Nat} {scan : DiscoveryScan}
    {completed : CompletedRange} {row : DiscoveryRangeRow}
    (h : svc.completedRow g scanId startedAt finishedAt scan completed = .ok row) :
    row.status = .completed ∧ row.logCount = completed.logCount ∧
      (fun l : NormalizedLog => decide (row.rangeStartBlock ≤ l.blockNumber ∧
        l.blockNumber < row.rangeEndBlockExclusive)) = StrictLogScanner.within completed := by
  obtain ⟨holders, -, hret⟩ := except_bind_eq_ok_iff.mp h
  obtain rfl := except_pure_eq_ok_iff.mp hret
  exact ⟨rfl, rfl, rfl⟩

/-- A gap scan that returns has inserted the rows of its completed ranges. -/
theorem rows_of_runs (hrun : Runs (svc.scanGap g) t (.ok ())) :
    ∃ scan rows,
      Runs (svc.scanner.scan g.tokenAddress g.topic0 g.gap.start g.gap.endExclusive) (exchanged t)
        (.ok scan) ∧
      rangeInserts t = [(rows, .ok ())] ∧
      List.Forall₂ (fun completed row => row.status = .completed ∧ row.logCount = completed.logCount ∧
        (fun l : NormalizedLog => decide (row.rangeStartBlock ≤ l.blockNumber ∧
          l.blockNumber < row.rangeEndBlockExclusive)) = StrictLogScanner.within completed)
        scan.completedRanges rows := by
  cases gapRun_of_runs hrun with
  | @scanned scanId startedAt finishedAt t' scan t'' _ hscan persists =>
    rcases runs_persistScan persists with ⟨e, -, hno, -⟩ | ⟨rows, observed, hrows, -, hinserts⟩
    · cases hno
    · obtain ⟨hexchanged, ⟨-, hranges⟩ | ⟨e, hno⟩⟩ := runs_inserts hinserts
      · have hasked : exchanged (opening scanId startedAt t' ++ ⟨.now, finishedAt⟩ :: t'') = t' := by
          rw [exchanged_append, exchanged_opening]
          show t' ++ exchanged t'' = t'
          rw [hexchanged, List.append_nil]
        refine ⟨scan, rows, hasked.symm ▸ hscan, ?_,
          (mapM_eq_ok_iff.mp hrows).imp fun completed row hrow => completedRow_range hrow⟩
        rw [rangeInserts_append, rangeInserts_opening]
        exact hranges
      · cases hno

/-- The rows of a gap count distinct logs exactly if no answer below the cap repeats a log. -/
theorem countsDistinct_iff (hrun : Runs (svc.scanGap g) t (.ok ())) :
    ∃ logs rows, svc.scanner.Deduplicated (exchanged t) logs ∧ rangeInserts t = [(rows, .ok ())] ∧
      (∀ row ∈ rows, row.status = .completed) ∧
      (CountsDistinct logs rows ↔ svc.scanner.NoRepeats (exchanged t)) := by
  obtain ⟨scan, rows, hscan, hranges, hrows⟩ := rows_of_runs hrun
  obtain ⟨f, batches, hcollected⟩ := StrictLogScanner.collected_of_scan hscan
  refine ⟨scan.logs, rows, hcollected.deduplicated, hranges, fun row hrow => ?_, ?_⟩
  · obtain ⟨completed, -, hstatus, -⟩ := forall₂_right hrows hrow
    exact hstatus
  rw [hcollected.noRepeats_iff]
  constructor
  · intro hcounts x hx
    have hcompleted := hcollected.completed.mem_iff.mpr (List.mem_map_of_mem hx)
    obtain ⟨row, hrow, -, hcount, hwithin⟩ := forall₂_left hrows hcompleted
    have heach := hcounts.each row hrow
    rw [hcount, hwithin] at heach
    exact (hcollected.logCount_eq_iff hx).mp heach
  · intro hnodup
    have hcount : ∀ completed ∈ scan.completedRanges,
        completed.logCount = scan.logs.countP (StrictLogScanner.within completed) := by
      intro completed hcompleted
      obtain ⟨x, hx, rfl⟩ := List.mem_map.mp (hcollected.completed.mem_iff.mp hcompleted)
      exact (hcollected.logCount_eq_iff hx).mpr (hnodup x hx)
    constructor
    · intro row hrow
      obtain ⟨completed, hcompleted, -, hlogCount, hwithin⟩ := forall₂_right hrows hrow
      rw [hlogCount, hwithin]
      exact hcount completed hcompleted
    · have hsame : List.Forall₂ Eq (scan.completedRanges.map CompletedRange.logCount)
          (rows.map DiscoveryRangeRow.logCount) := by
        rw [List.forall₂_map_left_iff, List.forall₂_map_right_iff]
        exact hrows.imp fun completed row hrow => hrow.2.1.symm
      rw [List.forall₂_eq_eq_eq] at hsame
      rw [← hsame, List.map_congr_left hcount, hcollected.partitions.sum]

/-- The completed rows of the run count the distinct logs that its answers showed. -/
def Accounted (svc : DiscoveryService) (t : List (Sigma DiscoveryAns)) : Prop :=
  ∃ logs rows, svc.scanner.Deduplicated (exchanged t) logs ∧ rangeInserts t = [(rows, .ok ())] ∧
    (∀ row ∈ rows, row.status = .completed) ∧ CountsDistinct logs rows

theorem accounted_iff (hrun : Runs (svc.scanGap g) t (.ok ())) :
    svc.Accounted t ↔ svc.scanner.NoRepeats (exchanged t) := by
  obtain ⟨logs, rows, hlogs, hranges, hstatus, hiff⟩ := countsDistinct_iff hrun
  rw [← hiff]
  constructor
  · rintro ⟨logs', rows', hlogs', hranges', -, hcounts⟩
    -- the run fixes the rows, and the logs up to their order
    rw [hranges] at hranges'
    cases hranges'
    exact hcounts.perm (hlogs'.perm hlogs)
  · intro hcounts
    exact ⟨logs, rows, hlogs, hranges, hstatus, hcounts⟩

end DiscoveryService

end RpcStateIndexer
