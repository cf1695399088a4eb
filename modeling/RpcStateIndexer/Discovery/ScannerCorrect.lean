import RpcStateIndexer.Discovery.Scanner

/-!
# The scanner covers its range and returns exactly its logs

The invariant of the work loop ties completed ranges, pending ranges and collected logs to the
trace of answers: completed and pending ranges tile the request in order, and the logs are the
parsed answers of the completed ranges.
-/

namespace RpcStateIndexer

open Reasoning Program

/-! ## Deduplication -/

theorem deduplicateFrom_eq_ok {seen logs out : List NormalizedLog}
    (h : deduplicateFrom seen logs = .ok out)
    (hseen : seen.Pairwise fun a b => a.identity ≠ b.identity) :
    (∀ l, l ∈ out ↔ l ∈ seen ∨ l ∈ logs) ∧ out.Pairwise fun a b => a.identity ≠ b.identity := by
  induction logs generalizing seen with
  | nil =>
    obtain rfl : seen = out := by simpa [deduplicateFrom] using h
    simpa using hseen
  | cons log logs ih =>
    unfold deduplicateFrom at h
    split at h
    · rename_i previous hfind
      split at h
      · simp at h
      · rename_i heq
        obtain rfl : previous = log := by simpa using heq
        obtain ⟨hmem, hpair⟩ := ih h hseen
        have hold := List.mem_of_find?_eq_some hfind
        refine ⟨fun l => (hmem l).trans ?_, hpair⟩
        rw [List.mem_cons]
        constructor
        · exact Or.imp_right .inr
        · rintro (hl | rfl | hl)
          · exact .inl hl
          · exact .inl hold
          · exact .inr hl
    · rename_i hfind
      have hnew := List.find?_eq_none.mp hfind
      obtain ⟨hmem, hpair⟩ := ih h (List.pairwise_append.mpr ⟨hseen, by simp, fun a ha b hb => by
        obtain rfl := List.mem_singleton.mp hb
        simpa using hnew a ha⟩)
      exact ⟨fun l => by rw [hmem]; simp [or_assoc], hpair⟩

/-- Deduplication keeps every log once, in canonical order. -/
theorem deduplicateLogs_eq_ok {logs out : List NormalizedLog}
    (h : deduplicateLogs logs = .ok out) :
    (∀ l, l ∈ out ↔ l ∈ logs) ∧ out.Nodup ∧ out.Pairwise fun a b => a.sortKey ≤ b.sortKey := by
  unfold deduplicateLogs at h
  simp only [except_bind_eq_ok_iff, except_pure_eq_ok_iff] at h
  obtain ⟨values, hvalues, rfl⟩ := h
  obtain ⟨hmem, hpair⟩ := deduplicateFrom_eq_ok hvalues .nil
  refine ⟨fun l => ?_, ?_, ?_⟩
  · rw [mem_sortBy, hmem]
    simp
  · rw [(sortBy_perm NormalizedLog.sortKey values).nodup_iff]
    exact hpair.imp fun hne heq => hne (by rw [heq])
  · exact sortBy_pairwise NormalizedLog.sortKey values

theorem deduplicateLogs_identity {logs out : List NormalizedLog} (h : deduplicateLogs logs = .ok out) :
    out.Pairwise fun a b => a.identity ≠ b.identity := by
  obtain ⟨values, hvalues, hsorted⟩ := except_bind_eq_ok_iff.mp h
  obtain rfl := Except.ok.inj hsorted
  refine ((sortBy_perm NormalizedLog.sortKey values).pairwise_iff fun hne heq => hne heq.symm).mpr ?_
  exact (deduplicateFrom_eq_ok hvalues .nil).2

namespace StrictLogScanner

/-! ## The initial chunks -/

theorem tiles_chunks (s : StrictLogScanner) (cursor stop : Nat) (h : cursor ≤ stop) :
    TilesRange cursor stop (s.chunks cursor stop) := by
  induction cursor using chunks.induct s stop with
  | case1 cursor hlt hpos ih =>
    rw [chunks, dif_pos hlt]
    exact Tiles.cons_iff.mpr ⟨rfl, ih (min_le_right _ _)⟩
  | case2 cursor hnot =>
    rw [chunks, dif_neg hnot]
    exact Tiles.nil_iff.mpr (by omega)

/-! ## The loop -/

/-- The trace answers the completed range below the cap, and the answer parses to the logs. -/
def Completes (s : StrictLogScanner) (f : LogFilter) (t : List (Sigma RpcReply))
    (c : CompletedRange) (parsed : List NormalizedLog) : Prop :=
  ∃ entries endpoint, ⟨getLogs f c.blockRange, .ok (.arr entries, endpoint)⟩ ∈ t ∧
    entries.length < s.resultCap ∧ c.logCount = entries.length ∧
    c.endpointFingerprint = endpoint.fingerprint ∧
    entries.mapM (fun entry => parseLog entry f c.blockRange) = .ok parsed

theorem Completes.mono {s : StrictLogScanner} {f : LogFilter} {t t' : List (Sigma RpcReply)}
    {c : CompletedRange} {parsed : List NormalizedLog} (h : s.Completes f t c parsed)
    (hsub : t ⊆ t') : s.Completes f t' c parsed := by
  obtain ⟨entries, endpoint, hmem, hrest⟩ := h
  exact ⟨entries, endpoint, hsub hmem, hrest⟩

/-- The invariant of the work loop over the answers received so far. -/
structure LoopInvariant (s : StrictLogScanner) (f : LogFilter) (start stop : Nat)
    (t : List (Sigma RpcReply)) (st : ScanState) : Prop where
  tiles : TilesRange start stop (st.completed.map CompletedRange.blockRange ++ st.pending)
  accounted : ∃ batches, List.Forall₂ (s.Completes f t) st.completed batches ∧
    st.logs = batches.flatten

/-- One pass keeps the invariant. -/
theorem LoopInvariant.afterReply {s : StrictLogScanner} {f : LogFilter} {start stop : Nat}
    {t : List (Sigma RpcReply)} {r : BlockRange} {pending : List BlockRange}
    {completed : List CompletedRange} {logs : List NormalizedLog} {st' : ScanState}
    {reply : RpcReply (getLogs f r)}
    (hinv : s.LoopInvariant f start stop t ⟨r :: pending, completed, logs⟩)
    (h : s.afterReply f r ⟨pending, completed, logs⟩ reply = .ok st') :
    s.LoopInvariant f start stop (t ++ [⟨getLogs f r, reply⟩]) st' := by
  obtain ⟨htiles, batches, hall, hlogs⟩ := hinv
  have hkeep : List.Forall₂ (s.Completes f (t ++ [⟨getLogs f r, reply⟩])) completed batches :=
    hall.imp fun c parsed hc => hc.mono (by simp)
  rcases afterReply_cases h with
    ⟨hsize, rfl⟩ | ⟨rawLogs, endpoint, parsed, rfl, hcap, hparse, rfl⟩
  · refine ⟨?_, batches, hkeep, hlogs⟩
    -- the halves take the place of the range
    simp only [TilesRange, Tiles.append_iff] at htiles ⊢
    obtain ⟨middle, hleft, hright⟩ := htiles
    exact ⟨middle, hleft, by simpa using hright⟩
  · refine ⟨by simpa using htiles, batches ++ [parsed], List.rel_append hkeep ?_, ?_⟩
    · refine .cons ⟨rawLogs, endpoint, by simp, hcap, rfl, rfl, hparse⟩ .nil
    · simp only at hlogs
      simp [hlogs]

/-- A whole run of the loop keeps the invariant and empties the stack. -/
theorem LoopInvariant.scanLoop {s : StrictLogScanner} {f : LogFilter} {start stop : Nat}
    {t t' : List (Sigma RpcReply)} {st st' : ScanState}
    (hinv : s.LoopInvariant f start stop t st) (hrun : Runs (s.scanLoop f st) t' (.ok st')) :
    s.LoopInvariant f start stop (t ++ t') st' ∧ st'.pending = [] := by
  induction st using scanLoop.induct s f generalizing t t' with
  | case1 completed logs =>
    rw [StrictLogScanner.scanLoop, runs_ret_iff] at hrun
    obtain ⟨rfl, heq⟩ := hrun
    rw [Except.ok.injEq] at heq
    subst heq
    exact ⟨by simpa using hinv, rfl⟩
  | case2 r pending completed logs ih =>
    rw [StrictLogScanner.scanLoop, runs_call_iff] at hrun
    obtain ⟨reply, rest, rfl, hrest⟩ := hrun
    split at hrest
    · simp at hrest
    · rename_i st₁ hpass
      have := ih reply st₁ hpass (hinv.afterReply hpass) hrest
      simpa using this

/-- The answer leaves a single block without a complete result. -/
def Refuses (s : StrictLogScanner) (r : BlockRange)
    (reply : Except RpcException (Json × RpcEndpoint)) : Prop :=
  r.size = 1 ∧ ((∃ message, reply = .error (.providerLimit message)) ∨
    ∃ entries endpoint, reply = .ok (.arr entries, endpoint) ∧ s.resultCap ≤ entries.length)

theorem afterReply_of_refuses {s : StrictLogScanner} (f : LogFilter) {r : BlockRange}
    (st : ScanState) {reply : Except RpcException (Json × RpcEndpoint)}
    (h : s.Refuses r reply) :
    ∃ message cause, s.afterReply f r st reply = .error (.rangeFailed message cause) := by
  obtain ⟨hsize, ⟨message, rfl⟩ | ⟨entries, endpoint, rfl, hcap⟩⟩ := h
  · simp [StrictLogScanner.afterReply, splitOr, hsize]
  · simp [StrictLogScanner.afterReply, splitOr, hsize, hcap]

/-- A refused block ends the loop with an exception. -/
theorem scanLoop_of_refuses {s : StrictLogScanner} {f : LogFilter} {st : ScanState}
    {t : List (Sigma RpcReply)} {result : Except DiscoveryException ScanState}
    (hrun : Runs (s.scanLoop f st) t result) {r : BlockRange} {reply : RpcReply (getLogs f r)}
    (hmem : ⟨getLogs f r, reply⟩ ∈ t) (hrefuse : s.Refuses r reply) :
    ∃ message cause, result = .error (.rangeFailed message cause) := by
  induction st using scanLoop.induct s f generalizing t with
  | case1 completed logs =>
    rw [StrictLogScanner.scanLoop, runs_ret_iff] at hrun
    simp [hrun.1] at hmem
  | case2 r' pending completed logs ih =>
    rw [StrictLogScanner.scanLoop, runs_call_iff] at hrun
    obtain ⟨reply', rest, rfl, hrest⟩ := hrun
    rcases List.mem_cons.mp hmem with heq | hmem
    · -- this pass asked for the refused block
      rw [Sigma.mk.injEq] at heq
      obtain rfl := getLogs_injective f heq.1
      obtain rfl := eq_of_heq heq.2
      obtain ⟨message, cause, hpass⟩ :=
        afterReply_of_refuses f ⟨pending, completed, logs⟩ hrefuse
      split at hrest
      · rename_i e he
        rw [hpass, Except.error.injEq] at he
        exact ⟨message, cause, by rw [(runs_raise_iff.mp hrest).2, he]⟩
      · rename_i st₁ hok
        rw [hpass] at hok
        simp at hok
    · split at hrest
      · rw [runs_raise_iff] at hrest
        simp [hrest.1] at hmem
      · rename_i st₁ hpass
        exact ih reply' st₁ hpass hrest hmem

/-! ## The whole scan -/

/-- What the trace accounts for once the loop has returned. -/
structure LoopResult (s : StrictLogScanner) (f : LogFilter) (requested : BlockRange)
    (t : List (Sigma RpcReply)) (st : ScanState) : Prop where
  tiles : TilesRange requested.start requested.endExclusive
    (st.completed.map CompletedRange.blockRange)
  accounted : ∃ batches, List.Forall₂ (s.Completes f t) st.completed batches ∧
    st.logs = batches.flatten

theorem loopResult {s : StrictLogScanner} {f : LogFilter} {requested : BlockRange}
    {t : List (Sigma RpcReply)} {st : ScanState}
    (hrun : Runs (s.scanLoop f (s.initialState requested)) t (.ok st)) :
    s.LoopResult f requested t st := by
  have hinit : s.LoopInvariant f requested.start requested.endExclusive []
      (s.initialState requested) := by
    refine ⟨?_, [], .nil, rfl⟩
    simpa [initialState] using s.tiles_chunks _ _ requested.nonempty.le
  obtain ⟨⟨htiles, haccounted⟩, hpending⟩ := hinit.scanLoop hrun
  exact ⟨by simpa [hpending] using htiles, by simpa using haccounted⟩

theorem sortCompleted_perm (completed : List CompletedRange) :
    (sortCompleted completed).Perm completed := sortBy_perm _ _

/-- The final check never finds a gap. -/
theorem LoopResult.finalGaps_eq_nil {s : StrictLogScanner} {f : LogFilter}
    {requested : BlockRange} {t : List (Sigma RpcReply)} {st : ScanState}
    (h : s.LoopResult f requested t st) : finalGaps requested st = [] := by
  rw [finalGaps, coverageGaps_eq_nil_iff]
  intro block hblock
  rw [covered_congr fun r => ((sortCompleted_perm st.completed).map _).mem_iff]
  exact (h.tiles.covered_iff block).mpr hblock

/-- A scan that returns ran its loop to the end. -/
theorem runs_scanFilter_ok {s : StrictLogScanner} {f : LogFilter} {startBlock endBlock : Nat}
    {t : List (Sigma RpcReply)} {scan : DiscoveryScan}
    (hrun : Runs (s.scanFilter f startBlock endBlock) t (.ok scan)) :
    ∃ (h : startBlock < endBlock) (st : ScanState),
      Runs (s.scanLoop f (s.initialState ⟨startBlock, endBlock, h⟩)) t (.ok st) ∧
      scan.requestedRange = ⟨startBlock, endBlock, h⟩ ∧
      scan.completedRanges = sortCompleted st.completed ∧
      deduplicateLogs st.logs = .ok scan.logs := by
  unfold scanFilter BlockRange.make at hrun
  split at hrun
  · rename_i h
    simp only [runs_bind_iff, runs_ofExcept_iff, Except.ok.injEq, reduceCtorEq, and_false,
      exists_false, or_false] at hrun
    obtain ⟨requested, t₁, t₂, rfl, ⟨rfl, rfl⟩, st, t₃, t₄, rfl, hloop, rfl, hfinish⟩ := hrun
    unfold finishScan at hfinish
    simp only [except_bind_eq_ok_iff, except_pure_eq_ok_iff, eq_comm (a := Except.ok scan)]
      at hfinish
    obtain ⟨-, -, logs, hlogs, rfl⟩ := hfinish
    rw [List.nil_append, List.append_nil]
    exact ⟨h, st, hloop, rfl, rfl, hlogs⟩
  · simp [runs_bind_iff] at hrun

theorem scanFilter_eq_ok {s : StrictLogScanner} {f : LogFilter} {startBlock endBlock : Nat}
    {t : List (Sigma RpcReply)} {scan : DiscoveryScan}
    (hrun : Runs (s.scanFilter f startBlock endBlock) t (.ok scan)) :
    ∃ (h : startBlock < endBlock) (st : ScanState),
      s.LoopResult f ⟨startBlock, endBlock, h⟩ t st ∧
      scan.requestedRange = ⟨startBlock, endBlock, h⟩ ∧
      scan.completedRanges = sortCompleted st.completed ∧
      deduplicateLogs st.logs = .ok scan.logs := by
  obtain ⟨h, st, hloop, hrest⟩ := runs_scanFilter_ok hrun
  exact ⟨h, st, loopResult hloop, hrest⟩

/-- The trace answers the range below the cap. -/
def AnsweredBelowCap (s : StrictLogScanner) (f : LogFilter) (t : List (Sigma RpcReply))
    (c : CompletedRange) : Prop :=
  ∃ entries endpoint, ⟨getLogs f c.blockRange, .ok (.arr entries, endpoint)⟩ ∈ t ∧
    entries.length < s.resultCap ∧ c.logCount = entries.length

/-- Every answer below the cap is exact. -/
def ExactBelowCap (s : StrictLogScanner) (f : LogFilter) (chain : Set NormalizedLog)
    (t : List (Sigma RpcReply)) : Prop :=
  ∀ r entries endpoint, ⟨getLogs f r, .ok (.arr entries, endpoint)⟩ ∈ t →
    entries.length < s.resultCap → AnswersExactly chain f r entries

/-- The logs collected by a finished loop are the matching logs of the request. -/
theorem LoopResult.mem_logs_iff {s : StrictLogScanner} {f : LogFilter} {requested : BlockRange}
    {t : List (Sigma RpcReply)} {st : ScanState} (h : s.LoopResult f requested t st)
    {chain : Set NormalizedLog} (hexact : s.ExactBelowCap f chain t) (l : NormalizedLog) :
    l ∈ st.logs ↔ l ∈ matchingLogs chain f requested := by
  obtain ⟨batches, hall, hlogs⟩ := h.accounted
  have hbatch : ∀ c parsed, s.Completes f t c parsed →
      (l ∈ parsed ↔ l ∈ matchingLogs chain f c.blockRange) := by
    rintro c parsed ⟨entries, endpoint, hmem, hcap, -, -, hparse⟩
    exact mem_parsed_iff hparse (hexact _ _ _ hmem hcap) l
  have hcover := h.tiles.covered_iff l.blockNumber
  have hunion : l ∈ batches.flatten ↔
      ∃ c ∈ st.completed, l ∈ matchingLogs chain f c.blockRange := by
    rw [List.mem_flatten]
    constructor
    · rintro ⟨parsed, hparsed, hl⟩
      obtain ⟨c, hc, hcomplete⟩ := forall₂_right hall hparsed
      exact ⟨c, hc, (hbatch c parsed hcomplete).mp hl⟩
    · rintro ⟨c, hc, hl⟩
      obtain ⟨parsed, hparsed, hcomplete⟩ := forall₂_left hall hc
      exact ⟨parsed, hparsed, (hbatch c parsed hcomplete).mpr hl⟩
  rw [hlogs, hunion]
  constructor
  · rintro ⟨c, hc, hin, hsel, hblock⟩
    exact ⟨hin, hsel, hcover.mp ⟨_, List.mem_map_of_mem hc, hblock⟩⟩
  · rintro ⟨hin, hsel, hblock⟩
    obtain ⟨r, hr, hblock⟩ := hcover.mpr hblock
    obtain ⟨c, hc, rfl⟩ := List.mem_map.mp hr
    exact ⟨c, hc, hin, hsel, hblock⟩

theorem scanFilter_answered {s : StrictLogScanner} {f : LogFilter} {startBlock endBlock : Nat}
    {t : List (Sigma RpcReply)} {scan : DiscoveryScan}
    (hrun : Runs (s.scanFilter f startBlock endBlock) t (.ok scan)) :
    ∀ c ∈ scan.completedRanges, s.AnsweredBelowCap f t c := by
  obtain ⟨h, st, hloop, -, hcompleted, -⟩ := scanFilter_eq_ok hrun
  obtain ⟨batches, hall, -⟩ := hloop.accounted
  intro c hc
  rw [hcompleted, (sortCompleted_perm st.completed).mem_iff] at hc
  obtain ⟨parsed, -, entries, endpoint, hmem, hcap, hcount, -⟩ := forall₂_left hall hc
  exact ⟨entries, endpoint, hmem, hcap, hcount⟩

/-- The completed ranges are disjoint and cover the request. -/
theorem scanFilter_partition {s : StrictLogScanner} {f : LogFilter} {startBlock endBlock : Nat}
    {t : List (Sigma RpcReply)} {scan : DiscoveryScan}
    (hrun : Runs (s.scanFilter f startBlock endBlock) t (.ok scan)) :
    scan.ranges.Pairwise (fun a b => ∀ block, ¬ (a.Contains block ∧ b.Contains block)) ∧
      ∀ block, Covered scan.ranges block ↔ startBlock ≤ block ∧ block < endBlock := by
  obtain ⟨h, st, hloop, -, hcompleted, -⟩ := scanFilter_eq_ok hrun
  have hperm := (sortCompleted_perm st.completed).map CompletedRange.blockRange
  rw [DiscoveryScan.ranges, hcompleted]
  constructor
  · refine (hperm.pairwise_iff fun hab block hblock => hab block hblock.symm).mpr ?_
    refine (hloop.tiles.pairwise fun r _ => r.nonempty).imp fun hle block hblock => ?_
    obtain ⟨⟨-, hlt⟩, hge, -⟩ := hblock
    omega
  · intro block
    rw [covered_congr fun r => hperm.mem_iff]
    exact hloop.tiles.covered_iff block

/-- Under exact answers the scan returns the range's matching logs, once each and sorted. -/
theorem scanFilter_logs {s : StrictLogScanner} {f : LogFilter} {startBlock endBlock : Nat}
    {t : List (Sigma RpcReply)} {scan : DiscoveryScan}
    (hrun : Runs (s.scanFilter f startBlock endBlock) t (.ok scan)) {chain : Set NormalizedLog}
    (hexact : s.ExactBelowCap f chain t) :
    (∀ l, l ∈ scan.logs ↔ l ∈ matchingLogs chain f scan.requestedRange) ∧ scan.logs.Nodup ∧
      scan.logs.Pairwise fun a b => a.sortKey ≤ b.sortKey := by
  obtain ⟨h, st, hloop, hrequested, -, hlogs⟩ := scanFilter_eq_ok hrun
  obtain ⟨hmem, hnodup, hsorted⟩ := deduplicateLogs_eq_ok hlogs
  refine ⟨fun l => ?_, hnodup, hsorted⟩
  rw [hmem, hrequested, hloop.mem_logs_iff hexact]

/-- A refused block anywhere in the run ends the scan with an exception. -/
theorem scanFilter_of_refuses {s : StrictLogScanner} {f : LogFilter} {startBlock endBlock : Nat}
    {t : List (Sigma RpcReply)} {result : Except DiscoveryException DiscoveryScan}
    (hrun : Runs (s.scanFilter f startBlock endBlock) t result) {r : BlockRange}
    {reply : RpcReply (getLogs f r)} (hmem : ⟨getLogs f r, reply⟩ ∈ t)
    (hrefuse : s.Refuses r reply) :
    ∃ message cause, result = .error (.rangeFailed message cause) := by
  unfold scanFilter at hrun
  rw [runs_bind_iff] at hrun
  rcases hrun with ⟨requested, t₁, t₂, rfl, hmake, hrun⟩ | ⟨e, hmake, rfl⟩
  · obtain ⟨rfl, -⟩ := runs_ofExcept_iff.mp hmake
    rw [runs_bind_iff] at hrun
    rcases hrun with ⟨st, t₃, t₄, rfl, hloop, hfinish⟩ | ⟨e, hloop, rfl⟩
    · obtain ⟨rfl, -⟩ := runs_ofExcept_iff.mp hfinish
      obtain ⟨_, _, habsurd⟩ := scanLoop_of_refuses hloop (by simpa using hmem) hrefuse
      simp at habsurd
    · obtain ⟨message, cause, heq⟩ := scanLoop_of_refuses hloop hmem hrefuse
      exact ⟨message, cause, by simpa using heq⟩
  · obtain ⟨rfl, -⟩ := runs_ofExcept_iff.mp hmake
    simp at hmem

/-! ## What a scan asks -/

/-- The request is the filter's `eth_getLogs` of a range inside the bounds. -/
def AsksInside (f : LogFilter) (start stop : Nat) (request : RpcRequest) : Prop :=
  ∃ r : BlockRange, request = getLogs f r ∧ start ≤ r.start ∧ r.endExclusive ≤ stop

/-- The ranges left to scan stay inside the bounds, and so does every request. -/
theorem asks_scanLoop {s : StrictLogScanner} {f : LogFilter} {start stop : Nat} {st : ScanState}
    (h : ∀ r ∈ st.pending, start ≤ r.start ∧ r.endExclusive ≤ stop) :
    Asks (AsksInside f start stop) (s.scanLoop f st) := by
  induction st using scanLoop.induct s f with
  | case1 completed logs =>
    rw [StrictLogScanner.scanLoop]
    trivial
  | case2 r pending completed logs ih =>
    rw [StrictLogScanner.scanLoop]
    refine ⟨⟨r, rfl, h r List.mem_cons_self⟩, ?_⟩
    intro reply
    beta_reduce
    split
    · trivial
    · rename_i st' hpass
      apply ih reply st' hpass
      intro r' hr'
      have hrest := fun x hx => h x (List.mem_cons_of_mem r hx)
      rcases afterReply_cases hpass with ⟨hsize, rfl⟩ | ⟨_, _, _, -, -, -, rfl⟩
      · -- the halves lie inside the range they replace
        obtain ⟨hlo, hhi⟩ := h r List.mem_cons_self
        have hleft := (r.split hsize).1.nonempty
        have hright := (r.split hsize).2.nonempty
        simp only [BlockRange.split_fst_start, BlockRange.split_snd_start,
          BlockRange.split_snd_endExclusive] at hleft hright
        simp only [List.mem_cons] at hr'
        rcases hr' with rfl | rfl | hr'
        · rw [BlockRange.split_fst_start]
          omega
        · rw [BlockRange.split_snd_start, BlockRange.split_snd_endExclusive]
          omega
        · exact hrest r' hr'
      · exact hrest r' hr'

theorem asks_scanFilter (s : StrictLogScanner) (f : LogFilter) (start stop : Nat) :
    Asks (AsksInside f start stop) (s.scanFilter f start stop) := by
  unfold scanFilter BlockRange.make
  split
  · rename_i hlt
    change Asks _ (s.scanLoop f (s.initialState ⟨start, stop, hlt⟩) >>= fun st =>
      ofExcept (finishScan ⟨start, stop, hlt⟩ st))
    apply Asks.bind _ fun st => Asks.ofExcept _
    apply asks_scanLoop
    intro r hr
    have htiles := s.tiles_chunks start stop hlt.le
    have hin := (htiles.covered_iff r.start).mp ⟨r, hr, le_rfl, r.nonempty⟩
    have hlast := (htiles.covered_iff (r.endExclusive - 1)).mp
      ⟨r, hr, by have := r.nonempty; omega, by have := r.nonempty; omega⟩
    omega
  · trivial

end StrictLogScanner

end RpcStateIndexer
