import Mathlib.Data.Prod.Lex
import RpcStateIndexer.Evm.Json
import RpcStateIndexer.Reasoning.Except
import RpcStateIndexer.Reasoning.Sorting

/-!
# Block ranges, log filters and normalized logs

The data of `core/discovery.py`: a range is non-empty by construction, a filter constrains at least
one topic position, and a log enters the model only through `parseLog`, which rejects every entry
outside the request it answers.
-/

namespace RpcStateIndexer

open Reasoning

/-! ## Exceptions -/

/-- What `rpc.call` may raise: the provider-limit class, another `Exception`, or a `BaseException`
such as a cancellation, which `except Exception` does not catch. -/
inductive RpcException where
  | providerLimit (message : String)
  | failure (className message : String)
  | cancelled
  deriving DecidableEq

namespace RpcException

/-- `type(exc).__name__` -/
def className : RpcException → String
  | .providerLimit _ => "RpcProviderLimit"
  | .failure className _ => className
  | .cancelled => "CancelledError"

/-- `str(exc)` -/
def message : RpcException → String
  | .providerLimit message => message
  | .failure _ message => message
  | .cancelled => ""

end RpcException

/-- What a scan may raise; a `DiscoveryRangeFailed` keeps the error it was raised from. -/
inductive DiscoveryException where
  | rangeFailed (message : String) (cause : Option RpcException)
  | responseError (message : String)
  | valueError (message : String)
  | cancelled
  deriving DecidableEq

namespace DiscoveryException

def className : DiscoveryException → String
  | .rangeFailed _ _ => "DiscoveryRangeFailed"
  | .responseError _ => "DiscoveryResponseError"
  | .valueError _ => "ValueError"
  | .cancelled => "CancelledError"

def message : DiscoveryException → String
  | .rangeFailed message _ => message
  | .responseError message => message
  | .valueError message => message
  | .cancelled => ""

/-- `exc.__cause__` -/
def cause : DiscoveryException → Option RpcException
  | .rangeFailed _ cause => cause
  | _ => none

end DiscoveryException

/-! ## Block ranges -/

/-- A non-empty half-open range of blocks. -/
structure BlockRange where
  start : Nat
  endExclusive : Nat
  nonempty : start < endExclusive
  deriving DecidableEq

namespace BlockRange

/-- The constructor's check. -/
def make (start endExclusive : Nat) : Except DiscoveryException BlockRange :=
  if h : start < endExclusive then .ok ⟨start, endExclusive, h⟩
  else .error (.valueError "block range must be non-empty")

def size (r : BlockRange) : Nat := r.endExclusive - r.start

theorem size_pos (r : BlockRange) : 0 < r.size := Nat.sub_pos_of_lt r.nonempty

/-- Both halves of a range of at least two blocks. -/
def split (r : BlockRange) (h : 2 ≤ r.size) : BlockRange × BlockRange :=
  let middle := r.start + r.size / 2
  (⟨r.start, middle, by omega⟩,
    ⟨middle, r.endExclusive, by have hlt := r.nonempty; simp only [middle, size] at *; omega⟩)

@[simp] theorem split_fst_start (r : BlockRange) (h : 2 ≤ r.size) :
    (r.split h).1.start = r.start := rfl

@[simp] theorem split_snd_start (r : BlockRange) (h : 2 ≤ r.size) :
    (r.split h).2.start = (r.split h).1.endExclusive := rfl

@[simp] theorem split_snd_endExclusive (r : BlockRange) (h : 2 ≤ r.size) :
    (r.split h).2.endExclusive = r.endExclusive := rfl

theorem split_size (r : BlockRange) (h : 2 ≤ r.size) :
    (r.split h).1.size + (r.split h).2.size = r.size := by
  simp only [split, size] at *
  omega

/-- The blocks of the range. -/
def Contains (r : BlockRange) (block : Nat) : Prop :=
  r.start ≤ block ∧ block < r.endExclusive

instance (r : BlockRange) (block : Nat) : Decidable (r.Contains block) :=
  inferInstanceAs (Decidable (_ ∧ _))

/-- The order of the dataclass: by start, then by end. -/
def key (r : BlockRange) : Nat ×ₗ Nat := toLex (r.start, r.endExclusive)

theorem key_le_iff {a b : BlockRange} : a.key ≤ b.key ↔
    a.start < b.start ∨ a.start = b.start ∧ a.endExclusive ≤ b.endExclusive := by
  simp [key, Prod.Lex.le_iff]

end BlockRange

/-! ## Log filters -/

/-- A lower-case 32-byte word. -/
def isTopicWord (text : String) : Bool := isHash text && text = text.toLower

/-- An `eth_getLogs` scope: optional contract address, positional topic OR-lists. -/
structure LogFilter where
  address : Option String
  topics : List (Option (List String))
  address_ok : ∀ a ∈ address, isAddress a = true
  topics_length : topics.length ≤ 4
  constrained : ∃ constraint ∈ topics, constraint.isSome = true
  words_ok : ∀ constraint ∈ topics, ∀ words ∈ constraint,
    words ≠ [] ∧ ∀ word ∈ words, isTopicWord word = true

namespace LogFilter

/-- Trailing unconstrained positions are left out of the request. -/
def requestTopics (f : LogFilter) : List (Option (List String)) :=
  (f.topics.reverse.dropWhile Option.isNone).reverse

def constraintJson : Option (List String) → Json
  | some words => .arr (words.map Json.str)
  | none => .null

/-- The filter object of one `eth_getLogs`. -/
def paramFields (f : LogFilter) (blockRange : BlockRange) : List (String × Json) :=
  [("topics", .arr (f.requestTopics.map constraintJson)),
    ("fromBlock", .str (hex blockRange.start)),
    ("toBlock", .str (hex (blockRange.endExclusive - 1)))] ++
    match f.address with
    | some address => [("address", .str address)]
    | none => []

def params (f : LogFilter) (blockRange : BlockRange) : Json := .obj (f.paramFields blockRange)

/-- The check from one topic position on. -/
def matchesFrom : List (Option (List String)) → List String → Bool
  | [], _ => true
  | none :: constraints, topics => matchesFrom constraints topics.tail
  | some _ :: _, [] => false
  | some words :: constraints, topic :: topics =>
    words.contains topic && matchesFrom constraints topics

def matchesTopics (f : LogFilter) (topics : List String) : Bool :=
  matchesFrom f.topics topics

/-- The filter of one event of one contract. -/
def ofEvent (address topic0 : String) (haddress : isAddress address = true)
    (htopic : isTopicWord topic0 = true) : LogFilter where
  address := some address
  topics := [some [topic0]]
  address_ok := by simpa using haddress
  topics_length := by simp
  constrained := ⟨some [topic0], by simp⟩
  words_ok := by simpa using htopic

end LogFilter

/-! ## Normalized logs -/

structure NormalizedLog where
  address : String
  topic0 : String
  topics : List String
  data : String
  blockNumber : Nat
  blockHash : String
  transactionHash : String
  transactionIndex : Nat
  logIndex : Nat
  deriving DecidableEq

namespace NormalizedLog

def identity (l : NormalizedLog) : String × String × Nat :=
  (l.blockHash, l.transactionHash, l.logIndex)

def sortKey (l : NormalizedLog) : Nat ×ₗ Nat ×ₗ Nat ×ₗ String :=
  toLex (l.blockNumber, toLex (l.transactionIndex, toLex (l.logIndex, l.transactionHash)))

/-- The holder an indexed topic names, or the reason it names none. -/
def holderAt (l : NormalizedLog) (position : Nat) : Except DiscoveryException String :=
  match if position < 1 then none else l.topics[position]? with
  | none => .error (.responseError s!"holder topic position {position} missing from log")
  | some topic =>
    if slice topic 2 26 ≠ String.ofList (List.replicate 24 '0') then
      .error (.responseError "indexed holder is not a canonical address word")
    else .ok ("0x" ++ (suffix topic 40).toLower)

/-- The holders at the given positions, without the zero address unless it is asked for. -/
def holders (l : NormalizedLog) (topicPositions : List Nat) (includeZero : Bool) :
    Except DiscoveryException (List String) := do
  let addresses ← topicPositions.mapM l.holderAt
  return addresses.filter fun address => includeZero || address ≠ zeroAddress

end NormalizedLog

/-- The field of an entry that must be a canonical hex quantity. -/
def parseQuantity (value : Json) (field : String) : Except DiscoveryException Nat :=
  match value with
  | .str text =>
    if isHexQuantity text then .ok (hexValue text)
    else .error (.responseError s!"log {field} is not a canonical hex quantity")
  | _ => .error (.responseError s!"log {field} is not a canonical hex quantity")

/-- The field of an entry that must be a 32-byte hash. -/
def parseHash (value : Json) (field : String) : Except DiscoveryException String :=
  match value with
  | .str text =>
    if isHash text then .ok text.toLower
    else .error (.responseError s!"log {field} is not a 32-byte hash")
  | _ => .error (.responseError s!"log {field} is not a 32-byte hash")

def parseAddress (value : Json) : Except DiscoveryException String :=
  match value with
  | .str text =>
    if isAddress text.toLower then .ok text.toLower
    else .error (.responseError "log address is not a canonical EVM address")
  | _ => .error (.responseError "log address is not a canonical EVM address")

def parseTopics (value : Json) : Except DiscoveryException (List String) :=
  match value with
  | .arr (item :: items) => (item :: items).mapM fun topic => parseHash topic "topic"
  | _ => .error (.responseError "eth_getLogs entry has no topics")

def parseData (value : Json) : Except DiscoveryException String :=
  match value with
  | .str text =>
    if isHexData text then .ok text.toLower
    else .error (.responseError "log data is not even-length hex")
  | _ => .error (.responseError "log data is not even-length hex")

/-- The `removed` flag must be a boolean, and false. -/
def parseRemoved (value : Json) : Except DiscoveryException Unit :=
  match value with
  | .bool false => .ok ()
  | .bool true =>
    .error (.responseError "eth_getLogs returned a removed log for finalized history")
  | _ => .error (.responseError "log removed flag must be a boolean")

/-- Read one `eth_getLogs` entry, rejecting whatever the request cannot have asked for. -/
def parseLog (value : Json) (logFilter : LogFilter) (requestedRange : BlockRange) :
    Except DiscoveryException NormalizedLog :=
  match value with
  | .obj fields => do
    let address ← parseAddress (Json.get fields "address")
    check (logFilter.address.all (· = address))
      (.responseError "eth_getLogs returned an unexpected contract address")
    parseRemoved (Json.get fields "removed")
    let topics ← parseTopics (Json.get fields "topics")
    check (logFilter.matchesTopics topics)
      (.responseError "eth_getLogs returned a log outside the topic filter")
    let data ← parseData (Json.get fields "data")
    let blockNumber ← parseQuantity (Json.get fields "blockNumber") "blockNumber"
    check (requestedRange.Contains blockNumber)
      (.responseError "eth_getLogs returned a block outside the requested range")
    let transactionIndex ← parseQuantity (Json.get fields "transactionIndex") "transactionIndex"
    let logIndex ← parseQuantity (Json.get fields "logIndex") "logIndex"
    let blockHash ← parseHash (Json.get fields "blockHash") "blockHash"
    let transactionHash ← parseHash (Json.get fields "transactionHash") "transactionHash"
    return {
      address, topic0 := topics.headD "", topics, data, blockNumber, blockHash, transactionHash,
      transactionIndex, logIndex }
  | _ => .error (.responseError "eth_getLogs entry must be an object")

/-! ## Deduplication -/

/-- One pass over the logs; `seen` lists the values of `by_identity` in insertion order. -/
def deduplicateFrom (seen : List NormalizedLog) :
    List NormalizedLog → Except DiscoveryException (List NormalizedLog)
  | [] => .ok seen
  | log :: logs =>
    match seen.find? fun previous => previous.identity = log.identity with
    | some previous =>
      if previous ≠ log then
        .error (.responseError "conflicting logs share one canonical identity")
      else deduplicateFrom seen logs
    | none => deduplicateFrom (seen ++ [log]) logs

/-- Deduplicate exact provider duplicates and reject identity collisions. -/
def deduplicateLogs (logs : List NormalizedLog) : Except DiscoveryException (List NormalizedLog) :=
  do
    let values ← deduplicateFrom [] logs
    return sortBy NormalizedLog.sortKey values

/-- Extract a deterministic unique holder set from configured indexed topics. -/
def extractHolders (logs : List NormalizedLog) (topicPositions : List Nat) (includeZero : Bool) :
    Except DiscoveryException (List String) := do
  check (!topicPositions.isEmpty && topicPositions.all (1 ≤ ·))
    (.valueError "holder topic positions must be positive")
  let holders ← logs.mapM fun log => log.holders topicPositions includeZero
  return sortedSet holders.flatten

end RpcStateIndexer
