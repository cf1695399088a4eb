import RpcStateIndexer.Discovery.Log

/-!
# The chain a scan reads

The purpose of a scan, stated apart from the code: the chain is a set of logs, an entry of an
`eth_getLogs` answer describes one log, and an answer is exact when its entries describe the
matching logs of the requested range and nothing else.
-/

namespace RpcStateIndexer

open Reasoning

/-- The log passes the filter's address and topic constraints. -/
def LogFilter.Selects (f : LogFilter) (l : NormalizedLog) : Prop :=
  (∀ address ∈ f.address, l.address = address) ∧ f.matchesTopics l.topics = true

/-- The chain's logs that a request for the range asks for. -/
def matchingLogs (chain : Set NormalizedLog) (f : LogFilter) (r : BlockRange) :
    Set NormalizedLog :=
  {l | l ∈ chain ∧ f.Selects l ∧ r.Contains l.blockNumber}

/-- The field is text that reads as the value, letter case aside. -/
def TextField (fields : List (String × Json)) (key value : String) : Prop :=
  ∃ text, Json.get fields key = .str text ∧ text.toLower = value

/-- The field is the hex text of the number. -/
def QuantityField (fields : List (String × Json)) (key : String) (value : Nat) : Prop :=
  ∃ text, Json.get fields key = .str text ∧ hexValue text = value

/-- The log an entry of an `eth_getLogs` answer describes. -/
structure Describes (fields : List (String × Json)) (l : NormalizedLog) : Prop where
  address : TextField fields "address" l.address
  topics : ∃ texts : List String, Json.get fields "topics" = .arr (texts.map Json.str) ∧
    l.topics = texts.map String.toLower
  topic0 : l.topic0 = l.topics.headD ""
  data : TextField fields "data" l.data
  blockNumber : QuantityField fields "blockNumber" l.blockNumber
  transactionIndex : QuantityField fields "transactionIndex" l.transactionIndex
  logIndex : QuantityField fields "logIndex" l.logIndex
  blockHash : TextField fields "blockHash" l.blockHash
  transactionHash : TextField fields "transactionHash" l.transactionHash

/-- The entries describe the range's matching logs of the chain, and nothing else. -/
structure AnswersExactly (chain : Set NormalizedLog) (f : LogFilter) (r : BlockRange)
    (entries : List Json) : Prop where
  sound : ∀ entry ∈ entries, ∃ fields l, entry = .obj fields ∧ Describes fields l ∧
    l ∈ matchingLogs chain f r
  complete : ∀ l ∈ matchingLogs chain f r, ∃ fields, .obj fields ∈ entries ∧ Describes fields l

/-! ## An entry describes at most one log -/

theorem TextField.unique {fields : List (String × Json)} {key a b : String}
    (ha : TextField fields key a) (hb : TextField fields key b) : a = b := by
  obtain ⟨s, hs, rfl⟩ := ha
  obtain ⟨t, ht, rfl⟩ := hb
  rw [hs, Json.str.injEq] at ht
  rw [ht]

theorem QuantityField.unique {fields : List (String × Json)} {key : String} {a b : Nat}
    (ha : QuantityField fields key a) (hb : QuantityField fields key b) : a = b := by
  obtain ⟨s, hs, rfl⟩ := ha
  obtain ⟨t, ht, rfl⟩ := hb
  rw [hs, Json.str.injEq] at ht
  rw [ht]

theorem Describes.unique {fields : List (String × Json)} {a b : NormalizedLog}
    (ha : Describes fields a) (hb : Describes fields b) : a = b := by
  have htopics : a.topics = b.topics := by
    obtain ⟨s, hs, h₁⟩ := ha.topics
    obtain ⟨t, ht, h₂⟩ := hb.topics
    rw [hs, Json.arr.injEq] at ht
    have hinj : Function.Injective Json.str := fun x y h => by simpa using h
    rw [h₁, h₂, List.map_injective_iff.mpr hinj ht]
  have h0 : a.topic0 = b.topic0 := by rw [ha.topic0, hb.topic0, htopics]
  cases a
  cases b
  simp only [NormalizedLog.mk.injEq]
  exact ⟨ha.address.unique hb.address, h0, htopics, ha.data.unique hb.data,
    ha.blockNumber.unique hb.blockNumber, ha.blockHash.unique hb.blockHash,
    ha.transactionHash.unique hb.transactionHash,
    ha.transactionIndex.unique hb.transactionIndex, ha.logIndex.unique hb.logIndex⟩

/-! ## What a parsed entry describes -/

theorem parseQuantity_eq_ok {value : Json} {field : String} {n : Nat}
    (h : parseQuantity value field = .ok n) : ∃ text, value = .str text ∧ hexValue text = n := by
  unfold parseQuantity at h
  split at h
  · split at h
    · exact ⟨_, rfl, by simpa using h⟩
    · simp at h
  · simp at h

theorem parseHash_eq_ok {value : Json} {field text : String}
    (h : parseHash value field = .ok text) :
    ∃ raw, value = .str raw ∧ isHash raw = true ∧ raw.toLower = text := by
  unfold parseHash at h
  split at h
  · split at h
    · exact ⟨_, rfl, by assumption, by simpa using h⟩
    · simp at h
  · simp at h

theorem parseAddress_eq_ok {value : Json} {text : String} (h : parseAddress value = .ok text) :
    ∃ raw, value = .str raw ∧ raw.toLower = text ∧ isAddress text = true := by
  unfold parseAddress at h
  split at h
  · split at h
    · rename_i raw haddress
      obtain rfl : raw.toLower = text := by simpa using h
      exact ⟨raw, rfl, rfl, haddress⟩
    · simp at h
  · simp at h

theorem parseData_eq_ok {value : Json} {text : String} (h : parseData value = .ok text) :
    ∃ raw, value = .str raw ∧ raw.toLower = text := by
  unfold parseData at h
  split at h
  · split at h
    · exact ⟨_, rfl, by simpa using h⟩
    · simp at h
  · simp at h

/-- Parsed topics are lower-case words, at least one. -/
theorem parseTopics_eq_ok {value : Json} {topics : List String}
    (h : parseTopics value = .ok topics) :
    (∃ texts : List String, value = .arr (texts.map Json.str) ∧
      topics = texts.map String.toLower) ∧
      topics ≠ [] ∧ ∀ topic ∈ topics, isTopicWord topic = true := by
  unfold parseTopics at h
  split at h
  · rename_i item items
    have hall := mapM_eq_ok_iff.mp h
    refine ⟨?_, ?_, ?_⟩
    · have aux : ∀ (l : List Json) (l' : List String),
          List.Forall₂ (fun a b => parseHash a "topic" = .ok b) l l' →
          ∃ texts : List String, Json.arr l = .arr (texts.map Json.str) ∧
            l' = texts.map String.toLower := by
        intro l l' hl
        induction hl with
        | nil => exact ⟨[], rfl, rfl⟩
        | cons hab _ ih =>
          obtain ⟨raw, rfl, -, rfl⟩ := parseHash_eq_ok hab
          obtain ⟨texts, hl, rfl⟩ := ih
          rw [Json.arr.injEq] at hl
          exact ⟨raw :: texts, by rw [hl, List.map_cons], rfl⟩
      exact aux _ _ hall
    · rintro rfl
      simpa using hall.length_eq
    · intro topic htopic
      obtain ⟨item, -, hitem⟩ := exists_of_mem_mapM h htopic
      obtain ⟨raw, -, hhash, rfl⟩ := parseHash_eq_ok hitem
      simp [isTopicWord, isHash_toLower hhash, toLower_toLower_of_isHash hhash]
  · simp at h

/-- What `parseLog` returning says about the entry and the log. -/
structure Parsed (f : LogFilter) (r : BlockRange) (fields : List (String × Json))
    (l : NormalizedLog) : Prop where
  describes : Describes fields l
  selects : f.Selects l
  inRange : r.Contains l.blockNumber
  address_ok : isAddress l.address = true
  topics_ok : l.topics ≠ [] ∧ ∀ topic ∈ l.topics, isTopicWord topic = true

theorem parseLog_eq_ok {value : Json} {f : LogFilter} {r : BlockRange} {l : NormalizedLog}
    (h : parseLog value f r = .ok l) : ∃ fields, value = .obj fields ∧ Parsed f r fields l := by
  unfold parseLog at h
  split at h
  · rename_i fields
    simp only [except_bind_eq_ok_iff, except_pure_eq_ok_iff, check_eq_ok_iff] at h
    obtain ⟨address, haddress, -, hfilter, -, -, topics, htopics, -, hmatch, data, hdata,
      blockNumber, hnumber, -, hrange, transactionIndex, htx, logIndex, hindex, blockHash, hhash,
      transactionHash, htxhash, rfl⟩ := h
    obtain ⟨raw, hraw, hlower, hok⟩ := parseAddress_eq_ok haddress
    obtain ⟨hread, htopicsOk⟩ := parseTopics_eq_ok htopics
    obtain ⟨rawBlock, hrawBlock, -, hblock⟩ := parseHash_eq_ok hhash
    obtain ⟨rawTx, hrawTx, -, htxLower⟩ := parseHash_eq_ok htxhash
    refine ⟨fields, rfl, ?_, ?_, by simpa using hrange, hok, htopicsOk⟩
    · exact {
        address := ⟨raw, hraw, hlower⟩
        topics := hread
        topic0 := rfl
        data := parseData_eq_ok hdata
        blockNumber := parseQuantity_eq_ok hnumber
        transactionIndex := parseQuantity_eq_ok htx
        logIndex := parseQuantity_eq_ok hindex
        blockHash := ⟨rawBlock, hrawBlock, hblock⟩
        transactionHash := ⟨rawTx, hrawTx, htxLower⟩ }
    · refine ⟨fun a ha => ?_, hmatch⟩
      rw [Option.mem_def] at ha
      simpa [ha, eq_comm] using hfilter
  · simp at h

/-- Parsing an exact answer yields exactly the range's matching logs. -/
theorem mem_parsed_iff {chain : Set NormalizedLog} {f : LogFilter} {r : BlockRange}
    {entries : List Json} {parsed : List NormalizedLog}
    (hparse : entries.mapM (fun entry => parseLog entry f r) = .ok parsed)
    (hexact : AnswersExactly chain f r entries) (l : NormalizedLog) :
    l ∈ parsed ↔ l ∈ matchingLogs chain f r := by
  constructor
  · intro hl
    obtain ⟨entry, hentry, hok⟩ := exists_of_mem_mapM hparse hl
    obtain ⟨fields, rfl, hparsed⟩ := parseLog_eq_ok hok
    obtain ⟨fields', l', heq, hdesc, hmem⟩ := hexact.sound _ hentry
    rw [Json.obj.injEq] at heq
    subst heq
    rwa [hparsed.describes.unique hdesc]
  · intro hl
    obtain ⟨fields, hentry, hdesc⟩ := hexact.complete l hl
    obtain ⟨l', hl', hok⟩ := exists_of_mem_of_mapM hparse hentry
    obtain ⟨fields', heq, hparsed⟩ := parseLog_eq_ok hok
    rw [Json.obj.injEq] at heq
    subst heq
    rwa [hdesc.unique hparsed.describes]

end RpcStateIndexer
