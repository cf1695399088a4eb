import RpcStateIndexer.Discovery.ServiceCorrect
import RpcStateIndexer.Discovery.Provider
import RpcStateIndexer.Sweep.Service

/-!
# What a window scan does to the sweep tables

The words of distinct addresses differ, so a log of the scan belongs to the wallet whose word it
carries.  Every run of `_scan_gap`, stopped at any operation, leaves the store in one of four
states: as it was, with failed rows, with the log rows of the window, or with those and the
completed rows of every wallet.
-/

namespace RpcStateIndexer

open Reasoning Program

/-! ## Words of wallets -/

theorem walletTopic_eq_hexText {address : String} (h : isAddress address = true) :
    ∃ body, body.length = 40 ∧ body.all isLowerHexDigit = true ∧ address = hexText body ∧
      walletTopic address = hexText (List.replicate 24 '0' ++ body) := by
  obtain ⟨body, htext, hlen, hhex⟩ := isAddress_iff.mp h
  refine ⟨body, hlen, List.all_eq_true.mpr hhex, ?_, ?_⟩
  · rw [← String.toList_inj, htext, hexText, String.toList_ofList]
  · rw [← String.toList_inj, walletTopic, htext]
    simp only [String.toList_append, String.toList_ofList, hexText]
    rfl

/-- The word of an address is a word. -/
theorem isTopicWord_walletTopic {address : String} (h : isAddress address = true) :
    isTopicWord (walletTopic address) = true := by
  obtain ⟨body, hlen, hhex, -, hword⟩ := walletTopic_eq_hexText h
  have hall : (List.replicate 24 '0' ++ body).all isLowerHexDigit = true := by
    rw [List.all_append, hhex, Bool.and_true]
    decide
  rw [hword]
  apply isTopicWord_iff.mpr
  exact ⟨isHash_hexText (by simp [hlen]) hall, toLower_hexText hall⟩

/-- Addresses with one word are one address. -/
theorem walletTopic_inj {a b : String} (ha : isAddress a = true) (hb : isAddress b = true)
    (h : walletTopic a = walletTopic b) : a = b := by
  obtain ⟨x, -, -, rfl, hx⟩ := walletTopic_eq_hexText ha
  obtain ⟨y, -, -, rfl, hy⟩ := walletTopic_eq_hexText hb
  rw [hx, hy] at h
  rw [List.append_cancel_left (hexText_injective h)]

theorem walletByTopic_eq_some {wallets : List String} {topic wallet : String}
    (h : walletByTopic wallets topic = some wallet) :
    wallet ∈ wallets ∧ walletTopic wallet = topic := by
  refine ⟨List.mem_reverse.mp (List.mem_of_find?_eq_some h), ?_⟩
  simpa using List.find?_some h

/-- Among addresses the word names its wallet. -/
theorem walletByTopic_walletTopic {wallets : List String}
    (hwallets : ∀ wallet ∈ wallets, isAddress wallet = true) {wallet : String}
    (h : wallet ∈ wallets) : walletByTopic wallets (walletTopic wallet) = some wallet := by
  cases hfound : walletByTopic wallets (walletTopic wallet) with
  | none =>
    have hnone := List.find?_eq_none.mp hfound wallet (List.mem_reverse.mpr h)
    simp at hnone
  | some other =>
    obtain ⟨hother, hword⟩ := walletByTopic_eq_some hfound
    rw [walletTopic_inj (hwallets other hother) (hwallets wallet h) hword]

/-! ## The filter -/

theorem LogFilter.make_eq_ok {address : Option String} {topics : List (Option (List String))}
    {f : LogFilter} (h : LogFilter.make address topics = .ok f) :
    f.address = address ∧ f.topics = topics := by
  unfold LogFilter.make at h
  -- the four checks of the constructor, in the source's order
  split at h
  · split at h
    · split at h
      · split at h
        · obtain rfl := Except.ok.inj h
          exact ⟨rfl, rfl⟩
        · cases h
      · cases h
    · cases h
  · cases h

theorem LogFilter.matchesFrom_sweepTopics (position : Nat) (words topics : List String) :
    LogFilter.matchesFrom (List.replicate position none ++ [some words]) topics = true ↔
      ∃ topic ∈ words, topics[position]? = some topic := by
  induction position generalizing topics with
  | zero =>
    cases topics with
    | nil => simp [LogFilter.matchesFrom]
    | cons topic rest => simp [LogFilter.matchesFrom, eq_comm]
  | succ position ih =>
    rw [List.replicate_succ, List.cons_append, LogFilter.matchesFrom, ih]
    cases topics with
    | nil => simp
    | cons topic rest => simp

/-- A sweep's filter selects the logs that carry a wallet's word at the position. -/
theorem LogFilter.selects_sweep {f : LogFilter} {position : Nat} {wallets : List String}
    (h : LogFilter.make none (sweepTopics position wallets) = .ok f) (l : NormalizedLog) :
    f.Selects l ↔ ∃ wallet ∈ wallets, l.topics[position]? = some (walletTopic wallet) := by
  obtain ⟨haddress, htopics⟩ := LogFilter.make_eq_ok h
  have hfrom := matchesFrom_sweepTopics position (sortedSet (wallets.map walletTopic)) l.topics
  rw [LogFilter.Selects, haddress, LogFilter.matchesTopics, htopics, sweepTopics, hfrom]
  constructor
  · rintro ⟨-, topic, hmem, htopic⟩
    obtain ⟨wallet, hwallet, rfl⟩ := List.mem_map.mp (mem_sortedSet.mp hmem)
    exact ⟨wallet, hwallet, htopic⟩
  · rintro ⟨wallet, hwallet, htopic⟩
    refine ⟨by rintro a ⟨⟩, walletTopic wallet, ?_, htopic⟩
    exact mem_sortedSet.mpr (List.mem_map_of_mem hwallet)

/-- For wallets that are addresses, at a position of a log, the filter is accepted. -/
theorem LogFilter.make_sweepTopics_isOk {position : Nat} {wallets : List String}
    (hposition : position ≤ 3) (hne : wallets ≠ [])
    (hwallets : ∀ wallet ∈ wallets, isAddress wallet = true) :
    ∃ f, LogFilter.make none (sweepTopics position wallets) = .ok f := by
  have hwords : ∀ constraint ∈ sweepTopics position wallets, ∀ words ∈ constraint,
      words ≠ [] ∧ ∀ word ∈ words, isTopicWord word = true := by
    intro constraint hconstraint words hwords
    rcases List.mem_append.mp hconstraint with hnone | hsome
    · rw [List.eq_of_mem_replicate hnone] at hwords
      cases hwords
    · rw [List.mem_singleton.mp hsome] at hwords
      obtain rfl := Option.some.inj hwords
      constructor
      · obtain ⟨wallet, hwallet⟩ := List.exists_mem_of_ne_nil wallets hne
        exact List.ne_nil_of_mem (mem_sortedSet.mpr (List.mem_map_of_mem hwallet))
      · intro word hword
        obtain ⟨wallet, hwallet, rfl⟩ := List.mem_map.mp (mem_sortedSet.mp hword)
        exact isTopicWord_walletTopic (hwallets wallet hwallet)
  have hlength : (sweepTopics position wallets).length ≤ 4 := by
    rw [sweepTopics, List.length_append, List.length_replicate, List.length_singleton]
    omega
  have hconstrained : ∃ constraint ∈ sweepTopics position wallets, constraint.isSome = true :=
    ⟨_, List.mem_append_right _ (List.mem_singleton.mpr rfl), rfl⟩
  exact ⟨_, by rw [LogFilter.make, dif_pos (fun a ha => by cases ha), dif_pos hlength,
    dif_pos hconstrained, dif_pos hwords]⟩

/-! ## Windows and groups -/

/-- The windows of a gap are cut as a scanner of that chunk size cuts it. -/
theorem windowsFrom_eq_chunks (size : Nat) (hsize : 1 ≤ size) (cursor stop : Nat) :
    windowsFrom size hsize cursor stop =
      StrictLogScanner.chunks ⟨size, 1, hsize, Nat.one_pos⟩ cursor stop := by
  induction cursor using windowsFrom.induct size hsize stop with
  | case1 cursor hlt ih =>
    rw [windowsFrom, StrictLogScanner.chunks, dif_pos hlt, dif_pos hlt, ih]
  | case2 cursor hnot => rw [windowsFrom, StrictLogScanner.chunks, dif_neg hnot, dif_neg hnot]

/-- The windows of a range cover just its blocks. -/
theorem covered_scanWindows {r : BlockRange} {size : Nat} {windows : List BlockRange}
    (h : scanWindows r size = .ok windows) (block : Nat) :
    Covered windows block ↔ r.Contains block := by
  unfold scanWindows at h
  split at h
  · rename_i hsize
    obtain rfl := Except.ok.inj h
    rw [windowsFrom_eq_chunks]
    exact (StrictLogScanner.tiles_chunks _ r.start r.endExclusive r.nonempty.le).covered_iff block
  · cases h

/-- So the windows of the gaps cover just the gaps. -/
theorem covered_windows {gaps : List BlockRange} {size : Nat} {windows : List (List BlockRange)}
    (h : gaps.mapM (fun gap => scanWindows gap size) = .ok windows) (block : Nat) :
    Covered windows.flatten block ↔ Covered gaps block := by
  constructor
  · rintro ⟨window, hwindow, hblock⟩
    obtain ⟨batch, hbatch, hwindow⟩ := List.mem_flatten.mp hwindow
    obtain ⟨gap, hgap, hok⟩ := exists_of_mem_mapM h hbatch
    exact ⟨gap, hgap, (covered_scanWindows hok block).mp ⟨window, hwindow, hblock⟩⟩
  · rintro ⟨gap, hgap, hblock⟩
    obtain ⟨batch, hbatch, hok⟩ := exists_of_mem_of_mapM h hgap
    obtain ⟨window, hwindow, hin⟩ := (covered_scanWindows hok block).mpr hblock
    exact ⟨window, List.mem_flatten.mpr ⟨batch, hbatch, hwindow⟩, hin⟩

/-- A group holds just the wallets with its gaps. -/
theorem SweepService.mem_gapGroups {gapsOf : List (String × List BlockRange)}
    {group : List BlockRange × List String} : group ∈ gapGroups gapsOf →
      group.1 ≠ [] ∧ group.2 ≠ [] ∧ ∀ wallet ∈ group.2, (wallet, group.1) ∈ gapsOf := by
  simp only [gapGroups, mem_sortBy, List.mem_map, List.mem_dedup, List.mem_filter]
  rintro ⟨gaps, ⟨x, ⟨hx, hne⟩, rfl⟩, rfl⟩
  rw [decide_eq_true_eq] at hne
  refine ⟨hne, ?_, ?_⟩
  · apply List.ne_nil_of_mem (a := x.1)
    exact List.mem_map_of_mem (List.mem_filter.mpr ⟨List.mem_filter.mpr ⟨hx, by simpa using hne⟩,
      by simp⟩)
  · intro wallet hwallet
    obtain ⟨y, hy, rfl⟩ := List.mem_map.mp hwallet
    obtain ⟨hmissing, hgaps⟩ := List.mem_filter.mp hy
    rw [decide_eq_true_eq] at hgaps
    rw [← hgaps]
    exact (List.mem_filter.mp hmissing).1

/-- A wallet with gaps is in the group of those gaps. -/
theorem SweepService.exists_gapGroup {gapsOf : List (String × List BlockRange)} {wallet : String}
    {gaps : List BlockRange} (h : (wallet, gaps) ∈ gapsOf) (hne : gaps ≠ []) :
    ∃ group ∈ gapGroups gapsOf, group.1 = gaps ∧ wallet ∈ group.2 := by
  have hmissing : (wallet, gaps) ∈ gapsOf.filter fun x => x.2 ≠ [] :=
    List.mem_filter.mpr ⟨h, by simpa using hne⟩
  refine ⟨(gaps, ((gapsOf.filter fun x => x.2 ≠ []).filter fun x => x.2 = gaps).map Prod.fst),
    ?_, rfl, ?_⟩
  · simp only [gapGroups, mem_sortBy, List.mem_map, List.mem_dedup]
    exact ⟨gaps, ⟨_, hmissing, rfl⟩, rfl⟩
  · exact List.mem_map.mpr ⟨_, List.mem_filter.mpr ⟨hmissing, by simp⟩, rfl⟩

/-! ## The environment -/

/-- What the RPC pool, the store and the clock may answer. -/
def sweepEnv (svc : SweepService) (chain : Set NormalizedLog) :
    (op : SweepOp) → SweepStore → SweepAns op → SweepStore → Prop
  | .rpc request, w, reply, w' => w' = w ∧ svc.scanner.ExactReply chain ⟨request, reply⟩
  | .completedRanges chainId wallet position, w, reply, w' =>
    w' = w ∧ (reply = .ok (w.completedSweepRanges chainId wallet position) ∨
      ∃ e, reply = .error e)
  | .insertRanges rows, w, reply, w' => Inserts (·.addRanges rows) w reply w'
  | .insertLogs rows, w, reply, w' => Inserts (·.addLogs rows) w reply w'
  -- a random identifier has not been used before
  | .uuid4, w, scanId, w' => w' = w ∧ ∀ row ∈ w.ranges, row.scanId ≠ scanId
  | .now, w, _, w' => w' = w

namespace SweepProgram

variable {svc : SweepService} {chain : Set NormalizedLog} {C : SweepStore → Prop}
  {w : SweepStore}

theorem returns_insertSweepRanges {rows : List SweepRangeRow} {P : Unit → SweepStore → Prop}
    (hw : C w) (hadd : C (w.addRanges rows)) (hP : P () (w.addRanges rows)) :
    Returns (sweepEnv svc chain) C P (insertSweepRanges rows) w := by
  rintro reply w' (⟨rfl, rfl⟩ | ⟨e, rfl, rfl | rfl⟩)
  · exact ⟨hadd, hP⟩
  · exact ⟨hw, hw⟩
  · exact ⟨hadd, hadd⟩

theorem returns_insertWalletInteractionLogs {rows : List WalletInteractionRow}
    {P : Unit → SweepStore → Prop} (hw : C w) (hadd : C (w.addLogs rows))
    (hP : P () (w.addLogs rows)) :
    Returns (sweepEnv svc chain) C P (insertWalletInteractionLogs rows) w := by
  rintro reply w' (⟨rfl, rfl⟩ | ⟨e, rfl, rfl | rfl⟩)
  · exact ⟨hadd, hP⟩
  · exact ⟨hw, hw⟩
  · exact ⟨hadd, hadd⟩

theorem returns_now {P : Nat → SweepStore → Prop} (hw : C w) (hP : ∀ n, P n w) :
    Returns (sweepEnv svc chain) C P now w := by
  rintro n w' rfl
  exact ⟨hw, hP n⟩

theorem returns_uuid4 {P : Nat → SweepStore → Prop} (hw : C w)
    (hP : ∀ n, (∀ row ∈ w.ranges, row.scanId ≠ n) → P n w) :
    Returns (sweepEnv svc chain) C P uuid4 w := by
  rintro n w' ⟨rfl, hfresh⟩
  exact ⟨hw, hP n hfresh⟩

theorem returns_completedSweepRanges {chainId : Nat} {wallet : String} {position : Nat}
    {P : List (Nat × Nat) → SweepStore → Prop} (hw : C w)
    (hP : P (w.completedSweepRanges chainId wallet position) w) :
    Returns (sweepEnv svc chain) C P (completedSweepRanges chainId wallet position) w := by
  rintro reply w' ⟨rfl, rfl | ⟨e, rfl⟩⟩
  · exact ⟨hw, hP⟩
  · exact ⟨hw, hw⟩

/-- A guarded scan either returns a scan that its answers allow or runs its handler. -/
theorem returns_guarded {α : Type} {p : RpcProgram DiscoveryException α}
    {handler : SweepException → SweepProgram α} {P : α → SweepStore → Prop} (hw : C w)
    (hrun : ∀ t a, Runs p t (.ok a) → (∀ x ∈ t, svc.scanner.ExactReply chain x) → P a w)
    (hhandler : ∀ e, Returns (sweepEnv svc chain) C P (handler e) w) :
    Returns (sweepEnv svc chain) C P (tryCatch (runRpc p) handler) w := by
  apply safe_tryCatch.mpr
  apply safe_lift (svc.scanner.ExactReply chain) hw
  · intro op a w' h
    exact h
  · intro t r hr ht
    cases r with
    | error e => exact hhandler (.discovery e)
    | ok a => exact hrun t a hr ht

end SweepProgram

open SweepProgram

namespace SweepService

/-! ## What a scan writes -/

/-- The log rows and completed rows of a window, read on the chain. -/
structure Swept (svc : SweepService) (g : SweepScan) (chain : Set NormalizedLog) (scanId : Nat)
    (logs : List WalletInteractionRow) (ranges : List SweepRangeRow) : Prop where
  /-- every log of the window that carries a wallet's word is attributed to that wallet -/
  complete : ∀ l ∈ chain, g.gap.Contains l.blockNumber → ∀ wallet ∈ g.wallets,
    l.topics[g.position]? = some (walletTopic wallet) →
      ∃ row ∈ logs, row.Records svc.chainId wallet g.position l
  /-- and nothing else is -/
  sound : ∀ row ∈ logs, ∃ l ∈ chain, g.gap.Contains l.blockNumber ∧ ∃ wallet ∈ g.wallets,
    l.topics[g.position]? = some (walletTopic wallet) ∧
      row.Records svc.chainId wallet g.position l
  ranges_cols : ∀ row ∈ ranges, row.chainId = svc.chainId ∧ row.walletAddress ∈ g.wallets ∧
    row.topicPosition = g.position ∧ row.status = .completed ∧ row.scanId = scanId
  ranges_cover : ∀ wallet ∈ g.wallets, ∀ block,
    (∃ row ∈ ranges, row.walletAddress = wallet ∧ row.Contains block) ↔ g.gap.Contains block

/-- The row of a log names the wallet of its word. -/
theorem logRow_eq_ok {svc : SweepService} {g : SweepScan} {finishedAt : Nat} {l : NormalizedLog}
    {row : WalletInteractionRow} (h : svc.logRow g finishedAt l = .ok row) :
    ∃ wallet ∈ g.wallets, l.topics[g.position]? = some (walletTopic wallet) ∧
      walletByTopic g.wallets (walletTopic wallet) = some wallet ∧
      row.Records svc.chainId wallet g.position l := by
  unfold logRow at h
  split at h
  · cases h
  · rename_i topic htopic
    split at h
    · cases h
    · rename_i wallet hfound
      obtain ⟨hwallet, rfl⟩ := walletByTopic_eq_some hfound
      obtain rfl := Except.ok.inj h
      exact ⟨wallet, hwallet, htopic, hfound, ⟨rfl, rfl, rfl, rfl, rfl, rfl, rfl, rfl, rfl, rfl, rfl⟩⟩

theorem mem_completedRowsOf {svc : SweepService} {g : SweepScan} {scanId startedAt finishedAt : Nat}
    {logRows : List WalletInteractionRow} {scan : DiscoveryScan} {row : SweepRangeRow} :
    row ∈ svc.completedRowsOf g scanId startedAt finishedAt logRows scan ↔
      ∃ completed ∈ scan.completedRanges, ∃ wallet ∈ g.wallets,
        svc.completedRow g scanId startedAt finishedAt logRows completed wallet = row := by
  simp only [completedRowsOf, List.mem_flatMap, List.mem_map]

/-- The rows a finished scan persists are what its window holds on the chain. -/
theorem swept_of_scan {svc : SweepService} {g : SweepScan} {chain : Set NormalizedLog}
    {f : LogFilter} {t : List (Sigma RpcReply)} {scan : DiscoveryScan}
    {scanId startedAt finishedAt : Nat} {logRows : List WalletInteractionRow}
    (hwallets : ∀ wallet ∈ g.wallets, isAddress wallet = true)
    (hfilter : LogFilter.make none (sweepTopics g.position g.wallets) = .ok f)
    (hrun : Runs (svc.scanner.scanFilter f g.gap.start g.gap.endExclusive) t (.ok scan))
    (hexact : ∀ x ∈ t, svc.scanner.ExactReply chain x)
    (hrows : scan.logs.mapM (svc.logRow g finishedAt) = .ok logRows) :
    Swept svc g chain scanId logRows
      (svc.completedRowsOf g scanId startedAt finishedAt logRows scan) := by
  have hcap : svc.scanner.ExactBelowCap f chain t :=
    fun r entries endpoint hmem hlt => hexact _ hmem _ _ _ _ rfl hlt
  obtain ⟨hbounds, st, -, hrequested, -, -⟩ := StrictLogScanner.scanFilter_eq_ok hrun
  have hlogs : ∀ l, l ∈ scan.logs ↔ l ∈ chain ∧ f.Selects l ∧ g.gap.Contains l.blockNumber := by
    intro l
    rw [(StrictLogScanner.scanFilter_logs hrun hcap).1, hrequested]
    rfl
  have hcover := (StrictLogScanner.scanFilter_partition hrun).2
  constructor
  · intro l hl hin wallet hwallet hword
    have hmem := (hlogs l).mpr ⟨hl, (LogFilter.selects_sweep hfilter l).mpr ⟨wallet, hwallet, hword⟩,
      hin⟩
    obtain ⟨row, hrow, hok⟩ := exists_of_mem_of_mapM hrows hmem
    -- the word decides the wallet, since the wallets are addresses
    obtain ⟨other, hother, htopic, -, hrecords⟩ := logRow_eq_ok hok
    rw [hword, Option.some.injEq] at htopic
    obtain rfl := walletTopic_inj (hwallets wallet hwallet) (hwallets other hother) htopic
    exact ⟨row, hrow, hrecords⟩
  · intro row hrow
    obtain ⟨l, hl, hok⟩ := exists_of_mem_mapM hrows hrow
    obtain ⟨hchain, -, hin⟩ := (hlogs l).mp hl
    obtain ⟨wallet, hwallet, htopic, -, hrecords⟩ := logRow_eq_ok hok
    exact ⟨l, hchain, hin, wallet, hwallet, htopic, hrecords⟩
  · intro row hrow
    obtain ⟨completed, -, wallet, hwallet, rfl⟩ := mem_completedRowsOf.mp hrow
    exact ⟨rfl, hwallet, rfl, rfl, rfl⟩
  · intro wallet hwallet block
    rw [BlockRange.Contains, ← hcover block]
    constructor
    · rintro ⟨row, hrow, -, hin⟩
      obtain ⟨completed, hmem, other, -, rfl⟩ := mem_completedRowsOf.mp hrow
      exact ⟨_, List.mem_map_of_mem hmem, hin⟩
    · rintro ⟨r, hr, hin⟩
      obtain ⟨completed, hmem, rfl⟩ := List.mem_map.mp hr
      exact ⟨_, mem_completedRowsOf.mpr ⟨completed, hmem, wallet, hwallet, rfl⟩, rfl, hin⟩

/-! ## The effect of a window scan -/

/-- Where a window scan can have got to; only the last is reached by returning. -/
inductive WindowEffect (svc : SweepService) (g : SweepScan) (chain : Set NormalizedLog)
    (w : SweepStore) : SweepStore → Prop
  | none : WindowEffect svc g chain w w
  | failed {scanId : Nat} {rows : List SweepRangeRow}
    (hfresh : ∀ row ∈ w.ranges, row.scanId ≠ scanId)
    (hrows : ∀ row ∈ rows, row.status = .failed ∧ row.scanId = scanId) :
    WindowEffect svc g chain w (w.addRanges rows)
  | logged {scanId : Nat} {logs : List WalletInteractionRow} {ranges : List SweepRangeRow}
    (hrows : Swept svc g chain scanId logs ranges) :
    WindowEffect svc g chain w (w.addLogs logs)
  | completed {scanId : Nat} {logs : List WalletInteractionRow} {ranges : List SweepRangeRow}
    (hfresh : ∀ row ∈ w.ranges, row.scanId ≠ scanId)
    (hrows : Swept svc g chain scanId logs ranges) :
    WindowEffect svc g chain w ((w.addLogs logs).addRanges ranges)

/-- The store after a window scan returned. -/
def WindowDone (svc : SweepService) (g : SweepScan) (chain : Set NormalizedLog)
    (w w' : SweepStore) : Prop :=
  ∃ scanId logs ranges, (∀ row ∈ w.ranges, row.scanId ≠ scanId) ∧
    Swept svc g chain scanId logs ranges ∧ w' = (w.addLogs logs).addRanges ranges

theorem returns_persist {svc : SweepService} {g : SweepScan} {chain : Set NormalizedLog}
    {w : SweepStore} {scanId : Nat} {logs : List WalletInteractionRow}
    {ranges : List SweepRangeRow} (hfresh : ∀ row ∈ w.ranges, row.scanId ≠ scanId)
    (hrows : Swept svc g chain scanId logs ranges) :
    Returns (sweepEnv svc chain) (WindowEffect svc g chain w)
      (fun _ w' => WindowDone svc g chain w w') (persist logs ranges) w := by
  have hdone : Returns (sweepEnv svc chain) (WindowEffect svc g chain w)
      (fun _ w' => WindowDone svc g chain w w') (insertSweepRanges ranges) (w.addLogs logs) :=
    returns_insertSweepRanges (.logged hrows) (.completed hfresh hrows)
      ⟨scanId, logs, ranges, hfresh, hrows, rfl⟩
  unfold persist
  split
  · apply Returns.bind (P := fun _ w' => w' = w.addLogs logs)
      (returns_insertWalletInteractionLogs .none (.logged hrows) rfl)
    rintro _ w' rfl
    exact hdone
  · rename_i hempty
    -- without log rows the insert is skipped and the store is the same
    rw [not_not] at hempty
    subst hempty
    rw [SweepStore.addLogs_nil] at hdone
    exact hdone

theorem returns_recordFailure {svc : SweepService} {g : SweepScan} {chain : Set NormalizedLog}
    {w : SweepStore} {scanId : Nat} (startedAt : Nat)
    (hfresh : ∀ row ∈ w.ranges, row.scanId ≠ scanId) {P : DiscoveryScan → SweepStore → Prop}
    (e : SweepException) :
    Returns (sweepEnv svc chain) (WindowEffect svc g chain w) P
      (svc.recordFailure g scanId startedAt e) w := by
  have hinsert : ∀ exc, Returns (sweepEnv svc chain) (WindowEffect svc g chain w) P
      (SweepProgram.now >>= fun failedAt => insertSweepRanges
        (g.wallets.map (svc.failedRow g scanId startedAt failedAt exc)) >>= fun _ =>
          (throw (.discovery exc) : SweepProgram DiscoveryScan)) w := by
    intro exc
    apply Returns.bind (P := fun _ w' => w' = w) (SweepProgram.returns_now .none fun _ => rfl)
    rintro failedAt w' rfl
    have hfailed : WindowEffect svc g chain w'
        (w'.addRanges (g.wallets.map (svc.failedRow g scanId startedAt failedAt exc))) := by
      apply WindowEffect.failed hfresh
      intro row hrow
      obtain ⟨wallet, -, rfl⟩ := List.mem_map.mp hrow
      exact ⟨rfl, rfl⟩
    apply Returns.bind (P := fun _ w'' => WindowEffect svc g chain w' w'')
      (returns_insertSweepRanges .none hfailed hfailed)
    intro _ w'' heffect
    exact heffect
  cases e with
  | discovery exc =>
    cases exc with
    | cancelled => exact WindowEffect.none
    | rangeFailed message cause => exact hinsert _
    | responseError message => exact hinsert _
    | valueError message => exact hinsert _
  | valueError message => exact WindowEffect.none
  | indexError => exact WindowEffect.none
  | store message => exact WindowEffect.none

/-- The one description of `_scan_gap`: where it can stop, and what holds when it returns. -/
theorem returns_scanGap (svc : SweepService) {g : SweepScan}
    (hwallets : ∀ wallet ∈ g.wallets, isAddress wallet = true) (chain : Set NormalizedLog)
    (w : SweepStore) :
    Returns (sweepEnv svc chain) (WindowEffect svc g chain w)
      (fun _ w' => WindowDone svc g chain w w') (svc.scanGap g) w := by
  unfold scanGap
  apply Returns.bind (P := fun n w' => w' = w ∧ ∀ row ∈ w.ranges, row.scanId ≠ n)
    (SweepProgram.returns_uuid4 .none fun n hfresh => ⟨rfl, hfresh⟩)
  rintro scanId w' ⟨rfl, hfresh⟩
  apply Returns.bind (P := fun _ w'' => w'' = w') (SweepProgram.returns_now .none fun _ => rfl)
  rintro startedAt w' rfl
  apply Returns.ofExcept_bind WindowEffect.none
  intro f hfilter
  rw [except_mapError_eq_ok_iff] at hfilter
  apply Returns.bind (P := fun scan w'' => w'' = w' ∧ ∃ t, Runs (svc.scanner.scanFilter f
    g.gap.start g.gap.endExclusive) t (.ok scan) ∧ ∀ x ∈ t, svc.scanner.ExactReply chain x)
  · apply returns_guarded WindowEffect.none
    · intro t scan hrun hexact
      exact ⟨rfl, t, hrun, hexact⟩
    · exact returns_recordFailure startedAt hfresh
  rintro scan w' ⟨rfl, t, hrun, hexact⟩
  apply Returns.bind (P := fun _ w'' => w'' = w') (SweepProgram.returns_now .none fun _ => rfl)
  rintro finishedAt w' rfl
  apply Returns.ofExcept_bind WindowEffect.none
  intro logRows hrows
  apply Returns.bind (returns_persist hfresh
    (swept_of_scan hwallets hfilter hrun hexact hrows))
  intro _ w'' hdone
  exact hdone

end SweepService

end RpcStateIndexer
