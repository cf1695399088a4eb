import RpcStateIndexer.Discovery.Chain
import RpcStateIndexer.Discovery.Coverage
import RpcStateIndexer.Reasoning.Program

/-!
# The strict log scanner

`StrictLogScanner` works a stack of pending ranges.  Every pass issues one `eth_getLogs` and either
completes the range on top, replaces it by its halves, or raises.  The provider is adversarial: a
scan is a program, and its results are stated for every run of it.
-/

namespace RpcStateIndexer

open Reasoning Program

/-! ## The RPC interface -/

structure RpcEndpoint where
  fingerprint : String
  deriving DecidableEq

/-- The arguments of one `rpc.call`. -/
structure RpcRequest where
  method : String
  params : Json
  historicalBlock : Option Nat
  requireEip1898 : Bool

abbrev RpcReply (_ : RpcRequest) : Type := Except RpcException (Json × RpcEndpoint)

/-- Code that only talks to the RPC pool. -/
abbrev RpcProgram (ε α : Type) : Type := Program RpcRequest RpcReply ε α

/-- The `eth_getLogs` call of one range. -/
def getLogs (f : LogFilter) (r : BlockRange) : RpcRequest where
  method := "eth_getLogs"
  params := .arr [f.params r]
  historicalBlock := some (r.endExclusive - 1)
  requireEip1898 := false

/-- A request names its range. -/
theorem getLogs_injective (f : LogFilter) : Function.Injective (getLogs f) := by
  intro a b h
  have hparams : f.params a = f.params b := by simpa [getLogs] using congrArg RpcRequest.params h
  have hends : hex a.start = hex b.start ∧
      hex (a.endExclusive - 1) = hex (b.endExclusive - 1) := by
    simpa [LogFilter.params, LogFilter.paramFields] using hparams
  have hstart := hex_injective hends.1
  have hstop := hex_injective hends.2
  have ha := a.nonempty
  have hb := b.nonempty
  cases a
  cases b
  simp only [BlockRange.mk.injEq] at *
  omega

/-! ## The scanner -/

structure CompletedRange where
  blockRange : BlockRange
  logCount : Nat
  endpointFingerprint : String
  deriving DecidableEq

structure DiscoveryScan where
  requestedRange : BlockRange
  completedRanges : List CompletedRange
  logs : List NormalizedLog

namespace DiscoveryScan

def ranges (scan : DiscoveryScan) : List BlockRange :=
  scan.completedRanges.map CompletedRange.blockRange

def frontier (scan : DiscoveryScan) : Nat :=
  contiguousFrontier scan.requestedRange.start scan.ranges

end DiscoveryScan

structure StrictLogScanner where
  chunkSize : Nat
  resultCap : Nat
  chunkSize_pos : 0 < chunkSize
  resultCap_pos : 0 < resultCap

/-- The locals of the work loop; the top of the stack is the head of `pending`. -/
structure ScanState where
  pending : List BlockRange
  completed : List CompletedRange
  logs : List NormalizedLog

namespace StrictLogScanner

/-- The constructor's check. -/
def make (initialChunkSize providerResultCap : Nat) :
    Except DiscoveryException StrictLogScanner :=
  if h : 0 < initialChunkSize ∧ 0 < providerResultCap then
    .ok ⟨initialChunkSize, providerResultCap, h.1, h.2⟩
  else .error (.valueError "chunk size and provider result cap must be positive")

/-- The initial chunks, lowest first. -/
def chunks (s : StrictLogScanner) (cursor stop : Nat) : List BlockRange :=
  if h : cursor < stop then
    have hpos := s.chunkSize_pos
    ⟨cursor, min (cursor + s.chunkSize) stop, by omega⟩ ::
      s.chunks (min (cursor + s.chunkSize) stop) stop
  else []
termination_by stop - cursor

/-- Replace a range by its halves, or give up on a single block. -/
def splitOr (r : BlockRange) (st : ScanState) (giveUp : DiscoveryException) :
    Except DiscoveryException ScanState :=
  if h : 2 ≤ r.size then
    .ok { st with pending := (r.split h).1 :: (r.split h).2 :: st.pending }
  else .error giveUp

/-- What a pass does with the answer for the range it popped; `st` holds the ranges below it. -/
def afterReply (s : StrictLogScanner) (f : LogFilter) (r : BlockRange) (st : ScanState)
    (reply : Except RpcException (Json × RpcEndpoint)) : Except DiscoveryException ScanState :=
  match reply with
  | .error (.providerLimit message) =>
    splitOr r st (.rangeFailed
      s!"provider cannot return complete logs for block {r.start}" (some (.providerLimit message)))
  -- not an `Exception`, so no handler of the loop sees it
  | .error .cancelled => .error .cancelled
  | .error (.failure className message) =>
    .error (.rangeFailed (s!"RPC failed for [{r.start}, {r.endExclusive}); " ++
      "coverage was not advanced") (some (.failure className message)))
  | .ok (.arr rawLogs, endpoint) =>
    if s.resultCap ≤ rawLogs.length then
      -- equal to the cap is ambiguous: a provider may truncate there without an error
      splitOr r st (.rangeFailed s!"block {r.start} reached the provider result cap" none)
    else do
      let parsed ← rawLogs.mapM fun item => parseLog item f r
      return {
        pending := st.pending
        completed := st.completed ++ [⟨r, parsed.length, endpoint.fingerprint⟩]
        logs := st.logs ++ parsed }
  | .ok _ => .error (.responseError "eth_getLogs response must be an array")

/-! ## Termination -/

/-- Every pass lowers this: a range of `n` blocks takes at most `2 * n - 1` passes. -/
def weight (pending : List BlockRange) : Nat :=
  (pending.map fun r => 2 * r.size - 1).sum

@[simp] theorem weight_cons (r : BlockRange) (pending : List BlockRange) :
    weight (r :: pending) = 2 * r.size - 1 + weight pending := by simp [weight]

/-- What one pass can do to the state. -/
theorem afterReply_cases {s : StrictLogScanner} {f : LogFilter} {r : BlockRange}
    {st st' : ScanState} {reply : Except RpcException (Json × RpcEndpoint)}
    (h : s.afterReply f r st reply = .ok st') :
    (∃ h : 2 ≤ r.size,
      st' = { st with pending := (r.split h).1 :: (r.split h).2 :: st.pending }) ∨
    ∃ rawLogs endpoint parsed, reply = .ok (.arr rawLogs, endpoint) ∧
      rawLogs.length < s.resultCap ∧ rawLogs.mapM (fun item => parseLog item f r) = .ok parsed ∧
      st' = {
        pending := st.pending
        completed := st.completed ++ [⟨r, rawLogs.length, endpoint.fingerprint⟩]
        logs := st.logs ++ parsed } := by
  have hsplit : ∀ giveUp, splitOr r st giveUp = .ok st' → ∃ h : 2 ≤ r.size,
      st' = { st with pending := (r.split h).1 :: (r.split h).2 :: st.pending } := by
    intro giveUp hok
    unfold splitOr at hok
    split at hok
    · exact ⟨by assumption, by simpa using hok.symm⟩
    · simp at hok
  unfold afterReply at h
  split at h
  · exact .inl (hsplit _ h)
  · simp at h
  · simp at h
  · split at h
    · exact .inl (hsplit _ h)
    · rename_i rawLogs endpoint hcap
      simp only [except_bind_eq_ok_iff, except_pure_eq_ok_iff] at h
      obtain ⟨parsed, hparse, rfl⟩ := h
      refine .inr ⟨rawLogs, endpoint, parsed, rfl, by omega, hparse, ?_⟩
      rw [mapM_eq_ok_length hparse]
  · simp at h

theorem weight_afterReply {s : StrictLogScanner} {f : LogFilter} {r : BlockRange}
    {st st' : ScanState} {reply : Except RpcException (Json × RpcEndpoint)}
    (h : s.afterReply f r st reply = .ok st') :
    weight st'.pending < weight (r :: st.pending) := by
  rw [weight_cons]
  rcases afterReply_cases h with ⟨hsize, rfl⟩ | ⟨_, _, _, -, -, -, rfl⟩
  · have hsum := r.split_size hsize
    have hl := (r.split hsize).1.size_pos
    have hr := (r.split hsize).2.size_pos
    simp only [weight_cons]
    omega
  · have := r.size_pos
    simp only
    omega

/-- The work loop. -/
def scanLoop (s : StrictLogScanner) (f : LogFilter) :
    ScanState → RpcProgram DiscoveryException ScanState
  | ⟨[], completed, logs⟩ => .ret ⟨[], completed, logs⟩
  | ⟨r :: pending, completed, logs⟩ =>
    .call (getLogs f r) fun reply =>
      match _h : s.afterReply f r ⟨pending, completed, logs⟩ reply with
      | .error e => .raise e
      | .ok st' => s.scanLoop f st'
termination_by st => weight st.pending
decreasing_by exact weight_afterReply _h

/-- The state before the first pass. -/
def initialState (s : StrictLogScanner) (requested : BlockRange) : ScanState :=
  ⟨s.chunks requested.start requested.endExclusive, [], []⟩

/-- `completed.sort(key=lambda item: item.block_range)` -/
def sortCompleted (completed : List CompletedRange) : List CompletedRange :=
  sortBy (fun item => item.blockRange.key) completed

/-- The gaps of the final check. -/
def finalGaps (requested : BlockRange) (st : ScanState) : List BlockRange :=
  coverageGaps requested ((sortCompleted st.completed).map CompletedRange.blockRange)

/-- `{gaps!r}` of a tuple of ranges. -/
def reprGaps (gaps : List BlockRange) : String :=
  let item (r : BlockRange) : String :=
    s!"BlockRange(start={r.start}, end_exclusive={r.endExclusive})"
  match gaps with
  | [r] => "(" ++ item r ++ ",)"
  | gaps => "(" ++ ", ".intercalate (gaps.map item) ++ ")"

/-- What the scan makes of the loop's result. -/
def finishScan (requested : BlockRange) (st : ScanState) :
    Except DiscoveryException DiscoveryScan := do
  check (finalGaps requested st).isEmpty
    (.rangeFailed ("scanner finished with uncovered ranges: " ++
      reprGaps (finalGaps requested st)) none)
  let logs ← deduplicateLogs st.logs
  return ⟨requested, sortCompleted st.completed, logs⟩

def scanFilter (s : StrictLogScanner) (f : LogFilter) (startBlock endBlockExclusive : Nat) :
    RpcProgram DiscoveryException DiscoveryScan := do
  let requested ← ofExcept (BlockRange.make startBlock endBlockExclusive)
  let st ← s.scanLoop f (s.initialState requested)
  ofExcept (finishScan requested st)

/-- The scan of one event of one contract. -/
def scan (s : StrictLogScanner) (tokenAddress topic0 : String)
    (startBlock endBlockExclusive : Nat) : RpcProgram DiscoveryException DiscoveryScan :=
  if haddress : isAddress tokenAddress then
    match parseHash (.str topic0) "topic0" with
    | .error e => .raise e
    | .ok normalizedTopic0 =>
      if htopic : isTopicWord normalizedTopic0 then
        s.scanFilter (.ofEvent tokenAddress normalizedTopic0 haddress htopic) startBlock
          endBlockExclusive
      else .raise (.valueError "topic constraints must be lowercase 32-byte words")
  else .raise (.valueError "token_address must be normalized lowercase 0x hex")

end StrictLogScanner

end RpcStateIndexer
