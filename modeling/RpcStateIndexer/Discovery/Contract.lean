import RpcStateIndexer.Discovery.Provider

/-!
# The contract of the strict log scanner

One statement over every run of `scanFilter`, and a run that satisfies it.
-/

namespace RpcStateIndexer

open Reasoning Program

/-- The contract of the scanner, for any provider.  A scan that returns has partitioned its range
into ranges answered below the cap and, where such answers are exact, holds exactly the matching
logs; a block refused at size one raises; and the final gap check never fires. -/
theorem StrictLogScanner.scanFilter_contract (s : StrictLogScanner) (f : LogFilter) (startBlock endBlock : Nat)
    {t : List (Sigma RpcReply)} {result : Except DiscoveryException DiscoveryScan}
    (hrun : Runs (s.scanFilter f startBlock endBlock) t result) :
    (∀ scan, result = .ok scan →
      scan.ranges.Pairwise (fun a b => ∀ block, ¬ (a.Contains block ∧ b.Contains block)) ∧
      (∀ block, Covered scan.ranges block ↔ startBlock ≤ block ∧ block < endBlock) ∧
      (∀ c ∈ scan.completedRanges, s.AnsweredBelowCap f t c) ∧
      ∀ chain, s.ExactBelowCap f chain t →
        (∀ l, l ∈ scan.logs ↔
          l ∈ chain ∧ f.Selects l ∧ startBlock ≤ l.blockNumber ∧ l.blockNumber < endBlock) ∧
        scan.logs.Nodup ∧ scan.logs.Pairwise fun a b => a.sortKey ≤ b.sortKey) ∧
    (∀ r (reply : RpcReply (getLogs f r)), ⟨getLogs f r, reply⟩ ∈ t → s.Refuses r reply →
      ∃ message cause, result = .error (.rangeFailed message cause)) ∧
    ∀ (h : startBlock < endBlock) t' st,
      Runs (s.scanLoop f (s.initialState ⟨startBlock, endBlock, h⟩)) t' (.ok st) →
      finalGaps ⟨startBlock, endBlock, h⟩ st = [] := by
  refine ⟨?_, fun r reply hmem hrefuse => scanFilter_of_refuses hrun hmem hrefuse,
    fun h t' st hloop => (loopResult hloop).finalGaps_eq_nil⟩
  rintro scan rfl
  obtain ⟨hdisjoint, hcover⟩ := scanFilter_partition hrun
  refine ⟨hdisjoint, hcover, scanFilter_answered hrun, fun chain hexact => ?_⟩
  obtain ⟨hmem, hnodup, hsorted⟩ := scanFilter_logs hrun hexact
  obtain ⟨h, st, -, hrequested, -, -⟩ := scanFilter_eq_ok hrun
  refine ⟨fun l => ?_, hnodup, hsorted⟩
  rw [hmem, hrequested]
  rfl

/-! ## A run -/

def sampleAddress : String := hexText (List.replicate 40 'a')

/-- The word of one digit throughout. -/
def sampleWord (digit : Char) : String := hexText (List.replicate 64 digit)

def sampleHolder (digit : Char) : String := hexText (List.replicate 40 digit)

/-- The address padded to a word. -/
def sampleHolderWord (digit : Char) : String :=
  hexText (List.replicate 24 '0' ++ List.replicate 40 digit)

theorem sampleAddress_ok : isAddress sampleAddress = true :=
  isAddress_hexText (by decide) (by decide)

theorem sampleWord_ok {digit : Char} (h : isLowerHexDigit digit = true) :
    isTopicWord (sampleWord digit) = true := by
  have hall : (List.replicate 64 digit).all isLowerHexDigit = true := by simp [h]
  exact isTopicWord_iff.mpr ⟨isHash_hexText (by simp) hall, toLower_hexText hall⟩

theorem sampleHolderWord_ok {digit : Char} (h : isLowerHexDigit digit = true) :
    isTopicWord (sampleHolderWord digit) = true := by
  have hzero : isLowerHexDigit '0' = true := by decide
  have hall : (List.replicate 24 '0' ++ List.replicate 40 digit).all isLowerHexDigit = true := by
    simp [h, hzero]
  exact isTopicWord_iff.mpr ⟨isHash_hexText (by simp) hall, toLower_hexText hall⟩

def sampleFilter : LogFilter :=
  .ofEvent sampleAddress (sampleWord 'f') sampleAddress_ok (sampleWord_ok (by decide))

/-- A transfer between two holders in block 11. -/
def sampleLog : NormalizedLog where
  address := sampleAddress
  topic0 := sampleWord 'f'
  topics := [sampleWord 'f', sampleHolderWord 'a', sampleHolderWord 'b']
  data := "0x"
  blockNumber := 11
  blockHash := sampleWord 'c'
  transactionHash := sampleWord 'd'
  transactionIndex := 0
  logIndex := 2

theorem sampleLog_canonical : sampleLog.Canonical where
  address_ok := sampleAddress_ok
  topic0 := rfl
  topics_ok := by simp [sampleLog]
  words_ok := by
    simp only [sampleLog, List.forall_mem_cons, List.not_mem_nil, false_imp_iff, implies_true,
      and_true]
    exact ⟨sampleWord_ok (by decide), sampleWord_ok (by decide), sampleWord_ok (by decide),
      sampleHolderWord_ok (by decide), sampleHolderWord_ok (by decide)⟩
  data_ok := by decide
  data_lower := by decide +kernel

theorem sampleLog_selects : sampleFilter.Selects sampleLog := by
  simp [LogFilter.Selects, sampleFilter, LogFilter.ofEvent, sampleLog, LogFilter.matchesTopics,
    LogFilter.matchesFrom]

theorem holderAt_sampleHolderWord {l : NormalizedLog} {position : Nat} {digit : Char}
    (hdigit : isLowerHexDigit digit = true) (hpos : 1 ≤ position)
    (h : l.topics[position]? = some (sampleHolderWord digit)) :
    l.holderAt position = .ok (sampleHolder digit) := by
  have hlower : (List.replicate 40 digit).map Char.toLower = List.replicate 40 digit := by
    rw [List.map_replicate, toLower_of_isLowerHexDigit hdigit]
  have hslice : slice (sampleHolderWord digit) 2 26 = String.ofList (List.replicate 24 '0') := by
    rw [slice, sampleHolderWord, hexText, String.toList_ofList]
    rfl
  have hsuffix : suffix (sampleHolderWord digit) 40 = String.ofList (List.replicate 40 digit) := by
    rw [suffix, sampleHolderWord, hexText, String.toList_ofList]
    rfl
  have htext : "0x" ++ (String.ofList (List.replicate 40 digit)).toLower = sampleHolder digit := by
    simp only [← String.toList_inj, String.toList_append, toLower_toList, String.toList_ofList,
      hlower, sampleHolder, hexText]
    rfl
  rw [NormalizedLog.holderAt, if_neg (by omega), h]
  simp only [hslice, hsuffix, htext, ne_eq, not_true_eq_false, if_false]

def sampleScanner : StrictLogScanner := ⟨4, 2, by decide, by decide⟩

/-- The provider answers at most two blocks at once, so the scan splits its chunk. -/
theorem sample_serves : sampleScanner.Serves 2 [sampleLog] where
  limit_pos := by decide
  canonical := by simpa using sampleLog_canonical
  identity := by simp
  below_cap block := by
    refine (List.length_filter_le _ _).trans_lt ?_
    simp [sampleScanner]

theorem scanFilter_contract_honest : ∃ t scan,
    Runs (sampleScanner.scanFilter sampleFilter 10 14) t (.ok scan) ∧
      (∀ block, Covered scan.ranges block ↔ 10 ≤ block ∧ block < 14) ∧
      ∀ l, l ∈ scan.logs ↔ l = sampleLog := by
  obtain ⟨scan, hscan⟩ := StrictLogScanner.scanFilter_honestLogs sample_serves
    sampleFilter (by decide : 10 < 14)
  have hrun := runs_answeredBy (honestLogs 2 [sampleLog])
    (sampleScanner.scanFilter sampleFilter 10 14)
  rw [hscan] at hrun
  have hspec := (sampleScanner.scanFilter_contract sampleFilter 10 14 hrun).1 scan rfl
  refine ⟨_, scan, hrun, hspec.2.1, fun l => ?_⟩
  have hlogs := (hspec.2.2.2 {l | l ∈ [sampleLog]} fun r entries endpoint hmem _ =>
    answersExactly_honestLogs sample_serves.canonical (answer_of_mem_traceOf hmem).symm).1 l
  rw [hlogs]
  constructor
  · rintro ⟨hl, -⟩
    exact List.mem_singleton.mp hl
  · rintro rfl
    exact ⟨List.mem_singleton.mpr rfl, sampleLog_selects, by decide, by decide⟩

end RpcStateIndexer
