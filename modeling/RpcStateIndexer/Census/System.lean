import RpcStateIndexer.Census.Gate

/-!
# The census as a system

Any number of attempts over one store.  An attempt is a coroutine that awaits threads: the insert of
the started state, the call that persists and publishes, the insert of the failed state.  A thread
that was started runs on when the coroutine is cancelled, so its operations may come at any later
time.  An identifier is never drawn twice.
-/

namespace RpcStateIndexer

open Reasoning Program CensusRunner

/-! ## Attempts -/

namespace CensusTarget

def kind : CensusTarget → TargetKind
  | .token _ => .token
  | .pool _ => .pool

def address : CensusTarget → String
  | .token config => config.address
  | .pool config => config.address

end CensusTarget

/-- What the collector of a target returns; the integrity mode selects between the pool collectors. -/
inductive Collected (job : JobConfig) : CensusTarget → Type where
  | token {token : TokenConfig} (r : TokenCollectionResult) : Collected job (.token token)
  | pool {pool : PoolConfig} (r : PoolCollectionResult)
      (mode : job.integrityMode ≠ .clLiquidity) : Collected job (.pool pool)
  | poolCl {pool : PoolConfig} (r : PoolClCollectionResult)
      (mode : job.integrityMode = .clLiquidity) : Collected job (.pool pool)

def Collected.result {job : JobConfig} {target : CensusTarget} :
    Collected job target → CollectionResult
  | .token r => .token r
  | .pool r _ => .pool r
  | .poolCl r _ => .poolCl r

/-- An attempt of `run_token` or `run_pool` once its identifier is drawn.  A pool has no holders. -/
structure AttemptPlan where
  runner : CensusRunner
  job : JobConfig
  target : CensusTarget
  snapshotDate : Nat
  anchor : BlockRef
  frozen : FrozenUniverse
  attemptId : Uuid
  pool_frozen : ∀ pool, target = .pool pool → frozen.size = 0

namespace AttemptPlan

def base (plan : AttemptPlan) : AttemptBase :=
  plan.runner.attemptBase plan.attemptId plan.job plan.target.kind plan.target.address
    plan.snapshotDate plan.anchor (plan.runner.targetConfigHash plan.job plan.target) plan.frozen

/-- The call that persists and publishes. -/
def worker (plan : AttemptPlan) : Collected plan.job plan.target → CensusProgram Unit :=
  match plan.target with
  | .token token => fun
    | .token r => plan.runner.persistAndPublishToken plan.base plan.attemptId plan.job token
        plan.snapshotDate plan.frozen r
  | .pool pool => fun
    | .pool r _ => plan.runner.persistAndPublishPool plan.base plan.attemptId plan.job pool
        plan.snapshotDate plan.frozen r
    | .poolCl r _ => plan.runner.persistAndPublishPoolCl plan.base plan.attemptId plan.job pool
        plan.snapshotDate plan.frozen r

end AttemptPlan

/-- Where the coroutine of an attempt stands. -/
inductive Phase where
  /-- awaits the insert of the started state, outside of the guarded part -/
  | opening
  /-- verifies code and collects -/
  | collecting
  /-- awaits the call that persists and publishes -/
  | publishing
  /-- the handler awaits the insert of the failed state -/
  | closing
  | returned
  | raised
  deriving DecidableEq, Repr

/-- A coroutine with the threads it started; `log` records what the worker was answered. -/
structure Attempt where
  plan : AttemptPlan
  phase : Phase := .opening
  collected : Option (Collected plan.job plan.target) := none
  opening : CensusProgram Unit := insert (.attemptState plan.base.started)
  worker : CensusProgram Unit := .ret ()
  closing : CensusProgram Unit := .ret ()
  log : List (Sigma CensusAns) := []

namespace Attempt

/-- The guarded part raised: the handler inserts the failed state. -/
def handle (a : Attempt) : Attempt :=
  { a with phase := .closing, closing := insert (.attemptState a.plan.base.failed) }

/-- An exception at the current await: what was awaited raised, or the coroutine was cancelled. -/
def interrupt (a : Attempt) : Attempt :=
  match a.phase with
  | .opening => { a with phase := .raised }
  | .collecting => a.handle
  | .publishing => a.handle
  | .closing => { a with phase := .raised }
  | .returned => a
  | .raised => a

end Attempt

/-- A step of an attempt: a thread issues one operation, or the coroutine resumes. -/
inductive AttemptStep : CensusStore → Attempt → CensusStore → Attempt → Prop where
  | openingCall {a : Attempt} {op : CensusOp} {k : CensusAns op → CensusProgram Unit}
      {s s' : CensusStore} {ans : CensusAns op} (call : a.opening = .call op k)
      (answered : Answered op s ans s') : AttemptStep s a s' { a with opening := k ans }
  | opened {a : Attempt} {s : CensusStore} (phase : a.phase = .opening)
      (returned : a.opening = .ret ()) : AttemptStep s a s { a with phase := .collecting }
  | collected {a : Attempt} {s : CensusStore} (phase : a.phase = .collecting)
      (c : Collected a.plan.job a.plan.target) :
      AttemptStep s a s
        { a with phase := .publishing, collected := some c, worker := a.plan.worker c }
  | workerCall {a : Attempt} {op : CensusOp} {k : CensusAns op → CensusProgram Unit}
      {s s' : CensusStore} {ans : CensusAns op} (call : a.worker = .call op k)
      (answered : Answered op s ans s') :
      AttemptStep s a s' { a with worker := k ans, log := a.log ++ [⟨op, ans⟩] }
  | published {a : Attempt} {s : CensusStore} (phase : a.phase = .publishing)
      (returned : a.worker = .ret ()) : AttemptStep s a s { a with phase := .returned }
  | closingCall {a : Attempt} {op : CensusOp} {k : CensusAns op → CensusProgram Unit}
      {s s' : CensusStore} {ans : CensusAns op} (call : a.closing = .call op k)
      (answered : Answered op s ans s') : AttemptStep s a s' { a with closing := k ans }
  | closed {a : Attempt} {s : CensusStore} (phase : a.phase = .closing)
      (returned : a.closing = .ret ()) : AttemptStep s a s { a with phase := .raised }
  | interrupted {a : Attempt} {s : CensusStore} : AttemptStep s a s a.interrupt

/-! ## The system -/

structure CensusWorld where
  store : CensusStore
  used : List Uuid
  attempts : List Attempt

/-- A step of the system.  A target that failed is recorded under an identifier of its own. -/
inductive CensusStep : CensusWorld → CensusWorld → Prop where
  | start {w : CensusWorld} (plan : AttemptPlan) (fresh : plan.attemptId ∉ w.used) :
      CensusStep w
        { w with used := plan.attemptId :: w.used, attempts := w.attempts ++ [{ plan }] }
  | attempt {w : CensusWorld} {before after : List Attempt} {a a' : Attempt} {s : CensusStore}
      (split : w.attempts = before ++ a :: after) (step : AttemptStep w.store a s a') :
      CensusStep w { w with store := s, attempts := before ++ a' :: after }
  | registerConfigs {w : CensusWorld} (rows : List ConfigRegistryRow) :
      CensusStep w
        { w with store := { w.store with configRegistry := w.store.configRegistry ++ rows } }
  | insertAnchor {w : CensusWorld} (row : DayAnchorRow) :
      CensusStep w { w with store := { w.store with dayAnchors := w.store.dayAnchors ++ [row] } }
  | targetFailure {w : CensusWorld} (row : ErrorRow) (fresh : row.scope.attemptId ∉ w.used) :
      CensusStep w
        { w with store := w.store.write (.terminalErrors [row])
                 used := row.scope.attemptId :: w.used }

/-- No attempt runs, and the rows that are stored carry identifiers that were drawn. -/
structure CensusWorld.Initial (w : CensusWorld) : Prop where
  attempts : w.attempts = []
  rows : ∀ id, id ∉ w.used → w.store.ofAttempt id = {}

end RpcStateIndexer
