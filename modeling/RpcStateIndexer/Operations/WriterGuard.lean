import RpcStateIndexer.Reasoning.Interleaving
import RpcStateIndexer.Reasoning.Sorting
import RpcStateIndexer.Reasoning.Table

/-!
# The writer guard

Processes of one chain and one lock class exclude each other by heartbeats in a replacing table:
query, announce, query again, and back out when somebody else is there.  The table is linearizable;
a write that raises may still have landed.
-/

namespace RpcStateIndexer

open Reasoning Program

/-- `_DISCOVERY_SCOPE_OPERATIONS` -/
def discoveryScopeOperations : List String := ["discover"]

/-- A guard of one process; `processId` is the number of its uuid. -/
structure WriterGuard where
  chainId : Nat
  operation : String
  staleSeconds : Nat
  processId : Nat
  hostname : String
  startedAt : Nat
  deriving DecidableEq

structure HeartbeatRow where
  chainId : Nat
  processId : Nat
  operation : String
  hostname : String
  detailsJson : String
  startedAt : Nat
  heartbeatAt : Nat
  deriving DecidableEq

namespace HeartbeatRow

/-- The sort key of `writer_heartbeats`. -/
def key (row : HeartbeatRow) : Nat × Nat := (row.chainId, row.processId)

/-- `json.dumps` of the state of a beat -/
def details (state : String) : String := "\x7b\"state\": \"" ++ state ++ "\"\x7d"

def IsActive (row : HeartbeatRow) : Prop := row.detailsJson = details "active"

instance (row : HeartbeatRow) : Decidable row.IsActive :=
  inferInstanceAs (Decidable (row.detailsJson = details "active"))

end HeartbeatRow

/-- `fresh_writer_processes` over the rows of the table; the class of a row is that of its
operation. -/
def freshWriterProcesses (beats : List HeartbeatRow) (now chainId staleSeconds : Nat)
    (discoveryScope : Bool) : List Nat :=
  sortBy id (((final HeartbeatRow.key beats).filter fun row =>
    row.chainId = chainId && decide (row.operation = "discover") == discoveryScope &&
      now ≤ row.heartbeatAt + staleSeconds).map HeartbeatRow.processId)

theorem mem_freshWriterProcesses {beats : List HeartbeatRow} {now chainId staleSeconds : Nat}
    {discoveryScope : Bool} {processId : Nat} :
    processId ∈ freshWriterProcesses beats now chainId staleSeconds discoveryScope ↔
      ∃ row ∈ final HeartbeatRow.key beats, row.processId = processId ∧ row.chainId = chainId ∧
        decide (row.operation = "discover") = discoveryScope ∧
        now ≤ row.heartbeatAt + staleSeconds := by
  simp only [freshWriterProcesses, mem_sortBy, List.mem_map, List.mem_filter, Bool.and_eq_true,
    decide_eq_true_eq, beq_iff_eq]
  constructor
  · rintro ⟨row, ⟨hrow, ⟨hchain, hclass⟩, hfresh⟩, hid⟩
    exact ⟨row, hrow, hid, hchain, hclass, hfresh⟩
  · rintro ⟨row, hrow, hid, hchain, hclass, hfresh⟩
    exact ⟨row, ⟨hrow, ⟨hchain, hclass⟩, hfresh⟩, hid⟩

/-! ## Acquire and release -/

/-- What a guard asks of the table, of its clock and of its own fields; `stopTask` cancels the task
that repeats the beat and says what ended it, if it was not the cancellation. -/
inductive GuardOp where
  | freshWriterProcesses (chainId staleSeconds : Nat) (discoveryScope : Bool)
  | heartbeat (row : HeartbeatRow)
  | utcNow
  | setAcquired (acquired : Bool)
  | acquired
  | stopTask

/-- The name of an exception's class stands for the exception. -/
abbrev GuardAns : GuardOp → Type
  | .freshWriterProcesses .. => Except String (List Nat)
  | .heartbeat _ => Except String Unit
  | .utcNow => Nat
  | .setAcquired _ => Unit
  | .acquired => Bool
  | .stopTask => Option String

inductive GuardException where
  | serviceError (message : String)
  | store (kind : String)
  deriving DecidableEq

abbrev GuardProgram := Program GuardOp GuardAns GuardException

namespace WriterGuard

variable (g : WriterGuard)

def discoveryScope : Bool := g.operation ∈ discoveryScopeOperations

def key : Nat × Nat := (g.chainId, g.processId)

/-- The row of `_write`. -/
def row (heartbeatAt : Nat) (state : String) : HeartbeatRow where
  chainId := g.chainId
  processId := g.processId
  operation := g.operation
  hostname := g.hostname
  detailsJson := HeartbeatRow.details state
  startedAt := g.startedAt
  heartbeatAt := heartbeatAt

def queryFresh : GuardProgram (List Nat) :=
  .call (.freshWriterProcesses g.chainId g.staleSeconds g.discoveryScope) fun
    | .ok active => .ret active
    | .error kind => .raise (.store kind)

def write (heartbeatAt : Nat) (state : String) : GuardProgram Unit :=
  .call (.heartbeat (g.row heartbeatAt state)) fun
    | .ok () => .ret ()
    | .error kind => .raise (.store kind)

def utcNow : GuardProgram Nat := .call .utcNow .ret

def setAcquired (acquired : Bool) : GuardProgram Unit := .call (.setAcquired acquired) .ret

/-- `try` .. `finally`: the flag is lowered also when the write raises. -/
def backOut : GuardProgram Unit := do
  let backedOut ← (g.write 0 "released").outcome
  setAcquired false
  ofExcept backedOut
  throw (.serviceError "writer race detected; refusing overlapping execution")

/-- The second query, after this process announced itself. -/
def confirm : GuardProgram Unit := do
  let after ← g.queryFresh
  if after.any fun process => process ≠ g.processId then g.backOut

def acquire : GuardProgram Unit := do
  let active ← g.queryFresh
  if active ≠ [] then
    throw (.serviceError s!"another writer heartbeat is fresh ({active.length} process(es))")
  let now ← utcNow
  g.write now "active"
  setAcquired true
  g.confirm

/-- The attempts of `release`; what the last one raised if none succeeded. -/
def writeReleased : Nat → GuardProgram (Option String)
  | 0 => return none
  | attempts + 1 => .call (.heartbeat (g.row 0 "released")) fun
    | .ok () => return none
    | .error kind => if attempts = 0 then return some kind else writeReleased attempts

/-- The part of `release` that a process skips which never announced itself. -/
def withdraw : GuardProgram (Option String) :=
  .call .acquired fun acquired =>
    if !acquired then .ret none
    else g.writeReleased 5 >>= fun failure => setAcquired false >>= fun _ => .ret failure

def cleanup (failures : List String) : Except GuardException Unit :=
  let kinds := ", ".intercalate failures
  if failures ≠ [] then .error (.serviceError s!"writer guard cleanup failed ({kinds})") else .ok ()

def release : GuardProgram Unit :=
  .call .stopTask fun taskFailure => g.withdraw >>= fun releaseFailure =>
    ofExcept (cleanup (Option.toList taskFailure ++ releaseFailure.toList))

/-- `_heartbeat_loop` for a number of beats; a failed one is logged. -/
def heartbeatLoop : Nat → GuardProgram Unit
  | 0 => return ()
  | beats + 1 => do
    let now ← utcNow
    let _ ← (.call (.heartbeat (g.row now "active")) .ret : GuardProgram (Except String Unit))
    heartbeatLoop beats

/-- What a service does with its guard: it is closed also when it could not be opened. -/
def session (beats : Nat) : GuardProgram Unit := do
  match ← g.acquire.outcome with
  | .ok () =>
    g.heartbeatLoop beats
    g.release
  | .error e =>
    g.release
    throw e

end WriterGuard

end RpcStateIndexer
