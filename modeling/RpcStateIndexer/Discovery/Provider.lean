import RpcStateIndexer.Discovery.ScannerCorrect

/-!
# An honest provider

A provider over a list of logs that refuses long ranges and otherwise answers every matching log of
the requested range.  Its answers are exact and every one of them parses, so a scan against it
returns as long as no single block reaches the cap.
-/

namespace RpcStateIndexer

open Reasoning Program

/-- A log in the form `parseLog` returns: canonical lower-case texts. -/
structure NormalizedLog.Canonical (l : NormalizedLog) : Prop where
  address_ok : isAddress l.address = true
  topic0 : l.topic0 = l.topics.headD ""
  topics_ok : l.topics ≠ []
  words_ok : ∀ text ∈ l.blockHash :: l.transactionHash :: l.topics, isTopicWord text = true
  data_ok : isHexData l.data = true
  data_lower : l.data.toLower = l.data

theorem isTopicWord_iff {text : String} :
    isTopicWord text = true ↔ isHash text = true ∧ text.toLower = text := by
  rw [isTopicWord, Bool.and_eq_true, decide_eq_true_eq]
  exact and_congr_right fun _ => eq_comm

theorem NormalizedLog.Canonical.topics_toLower {l : NormalizedLog} (h : l.Canonical) :
    l.topics.map String.toLower = l.topics := by
  calc l.topics.map String.toLower = l.topics.map id :=
        List.map_congr_left fun text htext =>
          (isTopicWord_iff.mp (h.words_ok text (by simp [htext]))).2
    _ = l.topics := List.map_id _

/-- The `eth_getLogs` entry of a log. -/
def logFields (l : NormalizedLog) : List (String × Json) :=
  [("address", .str l.address), ("topics", .arr (l.topics.map Json.str)), ("data", .str l.data),
    ("blockNumber", .str (hex l.blockNumber)),
    ("transactionIndex", .str (hex l.transactionIndex)), ("logIndex", .str (hex l.logIndex)),
    ("blockHash", .str l.blockHash), ("transactionHash", .str l.transactionHash),
    ("removed", .bool false)]

/-- The node's reading of a `topics` parameter. -/
def matchesJson : List Json → List String → Bool
  | [], _ => true
  | .arr _ :: _, [] => false
  | .arr words :: constraints, topic :: topics =>
    (words.any fun | .str word => word = topic | _ => false) && matchesJson constraints topics
  | _ :: constraints, topics => matchesJson constraints topics.tail

/-- The node's reading of a filter object, its block range aside. -/
def asksFor (fields : List (String × Json)) (l : NormalizedLog) : Bool :=
  (match Json.get fields "address" with
    | .str address => l.address = address
    | _ => true) &&
  match Json.get fields "topics" with
  | .arr constraints => matchesJson constraints l.topics
  | _ => true

/-- Answers any range of at most `limit` blocks with the logs it holds there. -/
def honestLogs (limit : Nat) (logs : List NormalizedLog) (request : RpcRequest) :
    RpcReply request :=
  match request.params with
  | .arr [.obj fields] =>
    match Json.get fields "fromBlock", Json.get fields "toBlock" with
    | .str first, .str last =>
      if limit < hexValue last + 1 - hexValue first then
        .error (.providerLimit "query exceeds max block range")
      else
        .ok (.arr ((logs.filter fun l => asksFor fields l && (hexValue first ≤ l.blockNumber ∧
          l.blockNumber ≤ hexValue last)).map fun l => .obj (logFields l)), ⟨"honest"⟩)
    | _, _ => .error (.failure "RpcResponseError" "invalid params")
  | _ => .error (.failure "RpcResponseError" "invalid params")

/-! ## The request says what the filter selects -/

namespace LogFilter

theorem matchesFrom_replicate_none (n : Nat) (topics : List String) :
    matchesFrom (List.replicate n none) topics = true := by
  induction n generalizing topics with
  | zero => rfl
  | succ n ih => exact ih topics.tail

/-- Trailing unconstrained positions do not matter. -/
theorem matchesFrom_append_none (constraints : List (Option (List String))) (n : Nat)
    (topics : List String) :
    matchesFrom (constraints ++ List.replicate n none) topics = matchesFrom constraints topics := by
  induction constraints generalizing topics with
  | nil => exact matchesFrom_replicate_none n topics
  | cons constraint constraints ih =>
    cases constraint with
    | none => exact ih topics.tail
    | some words =>
      cases topics with
      | nil => rfl
      | cons topic topics => exact congrArg (words.contains topic && ·) (ih topics)

theorem matchesJson_map (constraints : List (Option (List String))) (topics : List String) :
    matchesJson (constraints.map constraintJson) topics = matchesFrom constraints topics := by
  induction constraints generalizing topics with
  | nil => rfl
  | cons constraint constraints ih =>
    cases constraint with
    | none => exact ih topics.tail
    | some words =>
      cases topics with
      | nil => rfl
      | cons topic topics =>
        simp only [List.map_cons, constraintJson, matchesJson, matchesFrom, ih, List.any_map,
          Function.comp_def, List.contains_eq_any_beq]
        congr 2
        funext word
        rw [Bool.eq_iff_iff, decide_eq_true_eq, beq_iff_eq]
        exact eq_comm

theorem topics_eq (f : LogFilter) :
    ∃ n, f.topics = f.requestTopics ++ List.replicate n none := by
  have hnone : ∀ constraint ∈ f.topics.reverse.takeWhile Option.isNone, constraint = none :=
    fun constraint h => by simpa using List.all_eq_true.mp List.all_takeWhile constraint h
  have hdropped := List.eq_replicate_of_mem hnone
  refine ⟨(f.topics.reverse.takeWhile Option.isNone).length, ?_⟩
  calc f.topics
      = (f.topics.reverse.takeWhile Option.isNone ++
          f.topics.reverse.dropWhile Option.isNone).reverse := by
        rw [List.takeWhile_append_dropWhile, List.reverse_reverse]
    _ = f.requestTopics ++ (f.topics.reverse.takeWhile Option.isNone).reverse :=
        List.reverse_append
    _ = _ := by
        conv_lhs => rw [hdropped, List.reverse_replicate]

end LogFilter

/-- The provider is asked for exactly the logs the filter selects. -/
theorem asksFor_paramFields (f : LogFilter) (r : BlockRange) (l : NormalizedLog) :
    asksFor (f.paramFields r) l = true ↔ f.Selects l := by
  have htopics : matchesJson (f.requestTopics.map LogFilter.constraintJson) l.topics =
      f.matchesTopics l.topics := by
    obtain ⟨n, hn⟩ := f.topics_eq
    rw [LogFilter.matchesJson_map, LogFilter.matchesTopics, hn, LogFilter.matchesFrom_append_none]
  have hget : Json.get (f.paramFields r) "topics" =
      .arr (f.requestTopics.map LogFilter.constraintJson) := rfl
  rw [asksFor, hget]
  simp only [htopics, LogFilter.Selects, Bool.and_eq_true]
  refine and_congr_left fun _ => ?_
  cases haddress : f.address with
  | none =>
    have : Json.get (f.paramFields r) "address" = .null := by
      simp [LogFilter.paramFields, haddress, Json.get, List.lookup_cons]
    simp [this]
  | some address =>
    have : Json.get (f.paramFields r) "address" = .str address := by
      simp [LogFilter.paramFields, haddress, Json.get, List.lookup_cons]
    simp [this]

/-! ## An encoded log is parsed back -/

theorem parseHash_str {text : String} (h : isTopicWord text = true) (field : String) :
    parseHash (.str text) field = .ok text := by
  obtain ⟨hhash, hlower⟩ := isTopicWord_iff.mp h
  simp [parseHash, hhash, hlower]

theorem parseQuantity_hex (n : Nat) (field : String) :
    parseQuantity (.str (hex n)) field = .ok n := by
  simp [parseQuantity, isHexQuantity_hex]

theorem parseAddress_str {text : String} (h : isAddress text = true) :
    parseAddress (.str text) = .ok text := by
  simp [parseAddress, toLower_of_isAddress h, h]

theorem parseTopics_arr {topics : List String} (hne : topics ≠ [])
    (h : ∀ topic ∈ topics, isTopicWord topic = true) :
    parseTopics (.arr (topics.map Json.str)) = .ok topics := by
  have hall : (topics.map Json.str).mapM (fun topic => parseHash topic "topic") = .ok topics := by
    rw [mapM_eq_ok_iff, List.forall₂_map_left_iff, List.forall₂_same]
    exact fun topic htopic => parseHash_str (h topic htopic) "topic"
  cases topics with
  | nil => exact absurd rfl hne
  | cons topic topics => exact hall

/-- What the request asks for and the provider encodes, the scanner reads back unchanged. -/
theorem parseLog_logFields {f : LogFilter} {r : BlockRange} {l : NormalizedLog}
    (hcanonical : l.Canonical) (hselects : f.Selects l) (hin : r.Contains l.blockNumber) :
    parseLog (.obj (logFields l)) f r = .ok l := by
  have hfilter : f.address.all (· = l.address) = true := by
    cases haddress : f.address with
    | none => rfl
    | some address => simpa [eq_comm] using hselects.1 address (by simp [haddress])
  have haddress := parseAddress_str hcanonical.address_ok
  have htopics := parseTopics_arr hcanonical.topics_ok
    fun topic htopic => hcanonical.words_ok topic (by simp [htopic])
  have hblock := parseHash_str (hcanonical.words_ok l.blockHash (by simp)) "blockHash"
  have htx := parseHash_str (hcanonical.words_ok l.transactionHash (by simp)) "transactionHash"
  have hdata : parseData (.str l.data) = .ok l.data := by
    simp [parseData, hcanonical.data_ok, hcanonical.data_lower]
  have hget : ∀ key value, (logFields l).lookup key = some value →
      Json.get (logFields l) key = value := fun _ _ h => by rw [Json.get, h, Option.getD_some]
  simp only [parseLog, hget "address" _ rfl, hget "removed" _ rfl, hget "topics" _ rfl,
    hget "data" _ rfl, hget "blockNumber" _ rfl, hget "transactionIndex" _ rfl,
    hget "logIndex" _ rfl, hget "blockHash" _ rfl, hget "transactionHash" _ rfl, haddress,
    htopics, hblock, htx, hdata, parseQuantity_hex, hfilter, hselects.2, hin, decide_true, check,
    parseRemoved, if_true, bind, Except.bind, pure, Except.pure, ← hcanonical.topic0]

theorem describes_logFields {l : NormalizedLog} (h : l.Canonical) :
    Describes (logFields l) l := by
  have hword : ∀ key text, text ∈ l.blockHash :: l.transactionHash :: l.topics →
      Json.get (logFields l) key = .str text → TextField (logFields l) key text :=
    fun _ text htext hget => ⟨text, hget, (isTopicWord_iff.mp (h.words_ok text htext)).2⟩
  have hquantity : ∀ key n, Json.get (logFields l) key = .str (hex n) →
      QuantityField (logFields l) key n := fun _ n hget => ⟨_, hget, hexValue_hex n⟩
  exact {
    address := ⟨l.address, rfl, toLower_of_isAddress h.address_ok⟩
    topics := ⟨l.topics, rfl, h.topics_toLower.symm⟩
    topic0 := h.topic0
    data := ⟨l.data, rfl, h.data_lower⟩
    blockNumber := hquantity _ _ rfl
    transactionIndex := hquantity _ _ rfl
    logIndex := hquantity _ _ rfl
    blockHash := hword _ _ (by simp) rfl
    transactionHash := hword _ _ (by simp) rfl }

/-! ## Answers of the provider -/

/-- The logs an answer for the range holds. -/
def servedLogs (logs : List NormalizedLog) (f : LogFilter) (r : BlockRange) : List NormalizedLog :=
  logs.filter fun l => asksFor (f.paramFields r) l && r.Contains l.blockNumber

theorem mem_servedLogs {logs : List NormalizedLog} {f : LogFilter} {r : BlockRange}
    {l : NormalizedLog} : l ∈ servedLogs logs f r ↔ l ∈ matchingLogs {l | l ∈ logs} f r := by
  rw [servedLogs, List.mem_filter, Bool.and_eq_true, asksFor_paramFields, decide_eq_true_eq]
  rfl

theorem honestLogs_getLogs (limit : Nat) (logs : List NormalizedLog) (f : LogFilter)
    (r : BlockRange) : honestLogs limit logs (getLogs f r) =
      if limit < r.size then .error (.providerLimit "query exceeds max block range")
      else .ok (.arr ((servedLogs logs f r).map fun l => .obj (logFields l)), ⟨"honest"⟩) := by
  have hne := r.nonempty
  have hlen : r.endExclusive - 1 + 1 - r.start = r.size := by
    rw [BlockRange.size]
    omega
  have hfilter : (fun l : NormalizedLog => asksFor (f.paramFields r) l &&
      decide (r.start ≤ l.blockNumber ∧ l.blockNumber ≤ r.endExclusive - 1)) =
      fun l => asksFor (f.paramFields r) l && decide (r.Contains l.blockNumber) := by
    funext l
    congr 1
    rw [decide_eq_decide, BlockRange.Contains]
    omega
  change (if limit < hexValue (hex (r.endExclusive - 1)) + 1 - hexValue (hex r.start) then _
    else _) = _
  simp only [hexValue_hex, hlen, hfilter, servedLogs]

/-- The honest provider answers exactly, whatever the filter and the range. -/
theorem answersExactly_honestLogs {limit : Nat} {logs : List NormalizedLog} {f : LogFilter}
    (hcanonical : ∀ l ∈ logs, l.Canonical) {r : BlockRange} {entries : List Json}
    {endpoint : RpcEndpoint}
    (h : honestLogs limit logs (getLogs f r) = .ok (.arr entries, endpoint)) :
    AnswersExactly {l | l ∈ logs} f r entries := by
  rw [honestLogs_getLogs] at h
  split at h
  · simp at h
  · simp only [Except.ok.injEq, Prod.mk.injEq, Json.arr.injEq] at h
    obtain ⟨rfl, -⟩ := h
    constructor
    · intro entry hentry
      obtain ⟨l, hl, rfl⟩ := List.mem_map.mp hentry
      have hmatch := mem_servedLogs.mp hl
      exact ⟨_, l, rfl, describes_logFields (hcanonical l hmatch.1), hmatch⟩
    · intro l hl
      exact ⟨logFields l, List.mem_map_of_mem (mem_servedLogs.mpr hl),
        describes_logFields (hcanonical l hl.1)⟩

/-! ## Scans against it return -/

theorem deduplicateFrom_isOk {seen logs : List NormalizedLog}
    (hidentity : ∀ a ∈ seen ++ logs, ∀ b ∈ seen ++ logs, a.identity = b.identity → a = b) :
    ∃ out, deduplicateFrom seen logs = .ok out := by
  induction logs generalizing seen with
  | nil => exact ⟨seen, rfl⟩
  | cons log logs ih =>
    unfold deduplicateFrom
    split
    · rename_i previous hfind
      have hold := List.mem_of_find?_eq_some hfind
      have heq : previous = log := hidentity previous (by simp [hold]) log (by simp)
        (by simpa using List.find?_some hfind)
      rw [if_neg (by simpa using heq)]
      exact ih fun a ha b hb => hidentity a (by simp at ha ⊢; tauto) b (by simp at hb ⊢; tauto)
    · exact ih fun a ha b hb => hidentity a (by simpa using ha) b (by simpa using hb)

namespace StrictLogScanner

/-- The provider holds canonical logs, told apart by their identities, and no block with as many
as the cap. -/
structure Serves (s : StrictLogScanner) (limit : Nat) (logs : List NormalizedLog) : Prop where
  limit_pos : 0 < limit
  canonical : ∀ l ∈ logs, l.Canonical
  identity : ∀ a ∈ logs, ∀ b ∈ logs, a.identity = b.identity → a = b
  below_cap : ∀ block, (logs.filter fun l => l.blockNumber = block).length < s.resultCap

/-- A range answered with as many logs as the cap spans more than one block. -/
theorem Serves.two_le_size {s : StrictLogScanner} {limit : Nat} {logs : List NormalizedLog}
    (hserves : s.Serves limit logs) {f : LogFilter} {r : BlockRange}
    (hcap : s.resultCap ≤ (servedLogs logs f r).length) : 2 ≤ r.size := by
  by_contra hsmall
  have hsub : (servedLogs logs f r).Sublist (logs.filter fun l => l.blockNumber = r.start) := by
    refine List.monotone_filter_right logs fun l hl => ?_
    have hin := (Bool.and_eq_true _ _ ▸ hl : _ ∧ _).2
    have hne := r.nonempty
    rw [BlockRange.size] at hsmall
    rw [decide_eq_true_eq, BlockRange.Contains] at hin
    rw [decide_eq_true_eq]
    omega
  have := hserves.below_cap r.start
  have := hsub.length_le
  omega

/-- Against the honest provider every pass goes on. -/
theorem afterReply_honestLogs {s : StrictLogScanner} {limit : Nat} {logs : List NormalizedLog}
    (hserves : s.Serves limit logs) (f : LogFilter) (r : BlockRange) (st : ScanState) :
    ∃ st', s.afterReply f r st (honestLogs limit logs (getLogs f r)) = .ok st' ∧
      ((∀ l ∈ st.logs, l ∈ logs) → ∀ l ∈ st'.logs, l ∈ logs) := by
  rw [honestLogs_getLogs]
  have hpos := hserves.limit_pos
  split
  · rename_i hlimit
    have hsize : 2 ≤ r.size := by omega
    refine ⟨{ st with pending := (r.split hsize).1 :: (r.split hsize).2 :: st.pending }, ?_,
      fun h => h⟩
    rw [afterReply, splitOr, dif_pos hsize]
  · simp only [afterReply, List.length_map]
    split
    · rename_i hcap
      have hsize := hserves.two_le_size hcap
      refine ⟨{ st with pending := (r.split hsize).1 :: (r.split hsize).2 :: st.pending }, ?_,
        fun h => h⟩
      rw [splitOr, dif_pos hsize]
    · have hparse : ((servedLogs logs f r).map fun l => Json.obj (logFields l)).mapM
          (fun item => parseLog item f r) = .ok (servedLogs logs f r) := by
        rw [mapM_eq_ok_iff, List.forall₂_map_left_iff, List.forall₂_same]
        intro l hl
        obtain ⟨hmem, hselects, hin⟩ := mem_servedLogs.mp hl
        exact parseLog_logFields (hserves.canonical l hmem) hselects hin
      rw [hparse]
      refine ⟨_, rfl, fun h l hl => ?_⟩
      rcases List.mem_append.mp hl with hl | hl
      · exact h l hl
      · exact (mem_servedLogs.mp hl).1

theorem scanLoop_honestLogs {s : StrictLogScanner} {limit : Nat} {logs : List NormalizedLog}
    (hserves : s.Serves limit logs) (f : LogFilter) (st : ScanState)
    (hst : ∀ l ∈ st.logs, l ∈ logs) :
    ∃ st', answeredBy (honestLogs limit logs) (s.scanLoop f st) = .ok st' ∧
      ∀ l ∈ st'.logs, l ∈ logs := by
  induction st using scanLoop.induct s f with
  | case1 completed collected => exact ⟨_, by rw [scanLoop, answeredBy], hst⟩
  | case2 r pending completed collected ih =>
    obtain ⟨st₁, hpass, hsub⟩ := afterReply_honestLogs hserves f r ⟨pending, completed, collected⟩
    obtain ⟨st', hrun, hst'⟩ := ih _ st₁ hpass (hsub hst)
    refine ⟨st', ?_, hst'⟩
    rw [scanLoop, answeredBy]
    split
    · rename_i e he
      rw [hpass] at he
      simp at he
    · rename_i st₂ hok
      rw [hpass, Except.ok.injEq] at hok
      rw [← hok]
      exact hrun

/-- A scan against the honest provider returns. -/
theorem scanFilter_honestLogs {s : StrictLogScanner} {limit : Nat} {logs : List NormalizedLog}
    (hserves : s.Serves limit logs) (f : LogFilter) {startBlock endBlock : Nat}
    (h : startBlock < endBlock) :
    ∃ scan, answeredBy (honestLogs limit logs) (s.scanFilter f startBlock endBlock) = .ok scan := by
  obtain ⟨st, hloop, hmem⟩ := scanLoop_honestLogs hserves f
    (s.initialState ⟨startBlock, endBlock, h⟩) (by simp [initialState])
  have hrun := runs_answeredBy (honestLogs limit logs)
    (s.scanLoop f (s.initialState ⟨startBlock, endBlock, h⟩))
  rw [hloop] at hrun
  have hgaps := (loopResult hrun).finalGaps_eq_nil
  have hidentity : ∀ a ∈ [] ++ st.logs, ∀ b ∈ [] ++ st.logs, a.identity = b.identity → a = b :=
    fun a ha b hb => hserves.identity a (hmem a ha) b (hmem b hb)
  obtain ⟨out, hout⟩ := deduplicateFrom_isOk hidentity
  refine ⟨⟨⟨startBlock, endBlock, h⟩, sortCompleted st.completed,
    sortBy NormalizedLog.sortKey out⟩, ?_⟩
  have hfinish : finishScan ⟨startBlock, endBlock, h⟩ st =
      .ok ⟨⟨startBlock, endBlock, h⟩, sortCompleted st.completed,
        sortBy NormalizedLog.sortKey out⟩ := by
    simp [finishScan, hgaps, check, deduplicateLogs, hout, bind, Except.bind, pure, Except.pure]
  rw [scanFilter, BlockRange.make, dif_pos h, answeredBy_bind, answeredBy_ofExcept]
  simp only [answeredBy_bind, except_ok_bind, hloop, hfinish, answeredBy_ofExcept]

end StrictLogScanner

end RpcStateIndexer
