import RpcStateIndexer.Census.PublishedTargets
import RpcStateIndexer.Discovery.ServiceCorrect
import RpcStateIndexer.Operations.CensusPlan
import RpcStateIndexer.Universes.HolderTable
import RpcStateIndexer.Universes.Snapshot

/-!
# The attempts of a census call

The targets of one job are gathered before those of the next.  Each waits for a permit, freezes its
universe, makes one attempt and, when that raised, tries to record the failure; its outcome never keeps
another target from its own.
-/

namespace RpcStateIndexer

open Reasoning Program CensusRunner

/-! ## The world of the service -/

/-- The store, and the attributes of the service that outlive a call. -/
structure ServiceWorld where
  census : CensusWorld
  discovery : DiscoveryStore
  discovered : List (String × List TokenConfig)
  metadataPassDone : Bool

/-- The threads of earlier attempts and the coroutines that await them move on by themselves. -/
def Progress (w w' : CensusWorld) : Prop :=
  ∃ before after a a' s, w.attempts = before ++ a :: after ∧ AttemptStep w.store a s a' ∧
    w' = { w with store := s, attempts := before ++ a' :: after }

namespace ServiceWorld

def withStore (w : ServiceWorld) (s : CensusStore) : ServiceWorld :=
  { w with census := { w.census with store := s } }

/-- The store versions the rows as it inserts them. -/
def withConfigs (w : ServiceWorld) (rows : List ConfigRegistryRow) (version : Nat) : ServiceWorld :=
  let inserted := rows.map fun row => { row with insertVersion := version }
  w.withStore { w.census.store with configRegistry := w.census.store.configRegistry ++ inserted }

end ServiceWorld

/-- What an operation of the service may do.  An insert that fails may have taken effect. -/
def serviceEnv (self : CensusService) (chain : Set NormalizedLog) :
    (op : ServiceOp) → ServiceWorld → ServiceAns op → ServiceWorld → Prop
  | .resolveAnchor snapshotDate, w, answer, w' =>
    w' = w ∧ ∀ resolved, answer = .ok resolved → resolved.snapshotDate = snapshotDate
  | .anchor op, w, answer, w' =>
    ∃ s, AnchorAnswered op w.census.store answer s ∧ w' = w.withStore s
  | .publishedTargetAddresses chainId jobName targetKind snapshotDate anyConfigHash, w, answer, w' =>
    w' = w ∧ (answer = .ok (w.census.store.publishedTargetAddresses chainId jobName targetKind
      snapshotDate anyConfigHash) ∨ ∃ f, answer = .error f)
  | .registerConfigs rows, w, answer, w' =>
    (∃ version, w' = w.withConfigs rows version) ∨ w' = w ∧ ∃ f, answer = .error f
  | .discovery op, w, answer, w' =>
    ∃ d, discoveryEnv self.discoveryService chain op w.discovery answer d ∧ w' = { w with discovery := d }
  | .discovered jobName, w, answer, w' => w' = w ∧ answer = w.discovered.lookup jobName
  | .setDiscovered jobName targets, w, _, w' =>
    w' = { w with discovered := (jobName, targets) :: w.discovered }
  | .metadataPassDone, w, answer, w' => w' = w ∧ answer = w.metadataPassDone
  | .setMetadataPassDone, w, _, w' => w' = { w with metadataPassDone := true }
  | .uuid4, w, _, w' => w' = w
  | .now, w, _, w' => w' = w
  | .yesterday, w, _, w' => w' = w
  | .discoveredTokenCandidates _, w, _, w' => w' = w
  | .quarantinedTokenTargets .., w, _, w' => w' = w
  | .unresolvedMetadataAddresses .., w, _, w' => w' = w
  | .resolveMetadata .., w, _, w' => w' = w
  | .insertTokenMetadata _, w, _, w' => w' = w

/-- An operation after anything that was still in progress. -/
def callEnv (self : CensusService) (chain : Set NormalizedLog) (op : ServiceOp) (w : ServiceWorld)
    (answer : ServiceAns op) (w' : ServiceWorld) : Prop :=
  ∃ c, Relation.ReflTransGen Progress w.census c ∧
    serviceEnv self chain op { w with census := c } answer w'

/-! ## One target -/

/-- What `run_token` and `run_pool` raise before their attempt has an identifier. -/
inductive EntryFault where
  | census (e : CensusException)
  | universe (e : UniverseFault)

abbrev EntryProgram := Program UniverseOp UniverseAns EntryFault

/-- Where `run_one` stands with a target. -/
inductive TargetRun where
  /-- for a permit -/
  | waiting
  /-- checks the target and resolves its universe -/
  | entered (rest : EntryProgram FrozenUniverse)
  | attempting (attemptId : Uuid)
  /-- the handler of the exception of this class -/
  | recording (errorName : String)
  /-- The exception's class, when there is no attempt to return. -/
  | finished (result : Except String Uuid)

structure TargetTask where
  job : JobConfig
  target : CensusTarget
  run : TargetRun := .waiting

namespace TargetTask

/-- The task holds a permit. -/
def inside (task : TargetTask) : Bool :=
  match task.run with
  | .waiting => false
  | .finished _ => false
  | _ => true

def isFinished (task : TargetTask) : Bool :=
  match task.run with
  | .finished _ => true
  | _ => false

/-- What the target contributes to the failures of the call. -/
def failure (task : TargetTask) : Option String :=
  match task.run with
  | .finished (.error errorName) => some s!"{task.job.name}/{task.target.label}: {errorName}"
  | _ => none

/-- What it contributes to the attempts that the call returns. -/
def attempt (task : TargetTask) : Option Uuid :=
  match task.run with
  | .finished (.ok attemptId) => some attemptId
  | _ => none

end TargetTask

def JobWork.tasks (entry : JobWork) : List TargetTask :=
  entry.work.map fun target => { job := entry.job, target }

namespace CensusService

variable (self : CensusService)

/-- `target_config_hash`; a configuration that cannot be computed starts no attempt. -/
def targetConfigHash (job : JobConfig) (target : CensusTarget) : String :=
  match self.catalog.targetEffectiveConfig job target.config with
  | .ok effective => self.canonicalHash effective
  | .error _ => ""

/-- `_runner` -/
def runner : CensusRunner := ⟨self.catalog.chain, self.targetConfigHash⟩

end CensusService

/-- `run_token` and `run_pool` up to the identifier of the attempt. -/
def CensusPlan.enter (plan : CensusPlan) (snapshotDate : Nat) (job : JobConfig) :
    CensusTarget → EntryProgram FrozenUniverse
  | .token token =>
    match job.universeName with
    | none => .raise (.census (.valueError "token census requires a universe selector"))
    | some name => do
      ofExcept ((checkDateWindow token.dateStart token.dateEnd snapshotDate).mapError .census)
      (plan.universes.resolve name token.address plan.anchor.number).lift id (fun _ answer => answer)
        .universe
  | .pool pool => do
    ofExcept ((checkDateWindow pool.dateStart pool.dateEnd snapshotDate).mapError .census)
    let universeHash ← ofExcept ((digestUniverse []).mapError fun e => .census (.digest e))
    return emptyUniverse universeHash

/-- The attempt that a target starts with the universe it froze. -/
structure AttemptPlan.Of (service : CensusService) (plan : CensusPlan) (snapshotDate : Nat)
    (job : JobConfig) (target : CensusTarget) (frozen : FrozenUniverse) (attempt : AttemptPlan) :
    Prop where
  runner : attempt.runner = service.runner
  job : attempt.job = job
  target : attempt.target = target
  snapshotDate : attempt.snapshotDate = snapshotDate
  anchor : attempt.anchor = plan.anchor
  frozen : attempt.frozen = frozen

/-- The row of `_record_target_failure`, under an identifier of its own. -/
structure FailureRow (service : CensusService) (snapshotDate : Nat) (task : TargetTask) (row : ErrorRow) :
    Prop where
  scope : ∃ attemptId, row.scope =
    ⟨service.chainId, task.job.name, task.target.address, snapshotDate, attemptId⟩
  targetKind : row.targetKind = task.job.targetKind.kind
  subjectAddress : row.subjectAddress = ""
  callKind : row.callKind = "target"
  batchSequence : row.batchSequence = 0

section Steps

variable (self : CensusService) (lists : String → Except String (List String)) (plan : CensusPlan)
  (snapshotDate : Nat)

/-- A step of one target.  `free` says that a permit is. -/
inductive TargetStep (free : Prop) : ServiceWorld → TargetTask → ServiceWorld → TargetTask → Prop where
  | acquire {w : ServiceWorld} {task : TargetTask} (permit : free) (waiting : task.run = .waiting) :
      TargetStep free w task w
        { task with run := .entered (plan.enter snapshotDate task.job task.target) }
  | read {w : ServiceWorld} {task : TargetTask} {op : UniverseOp}
      {k : UniverseAns op → EntryProgram FrozenUniverse} {answer : UniverseAns op}
      (entered : task.run = .entered (.call op k))
      (answered : answer = w.discovery.sources lists op ∨
        ∃ message, answer = (match op with
          | .holderMembers .. => .error message
          | .explicitAddresses _ => .error message)) :
      TargetStep free w task w { task with run := .entered (k answer) }
  | refuse {w : ServiceWorld} {task : TargetTask} {e : EntryFault} (errorName : String)
      (entered : task.run = .entered (.raise e)) :
      TargetStep free w task w { task with run := .recording errorName }
  | unconfigured {w : ServiceWorld} {task : TargetTask} {frozen : FrozenUniverse} {e : ConfigFault}
      (errorName : String) (entered : task.run = .entered (.ret frozen))
      (fault : self.catalog.targetEffectiveConfig task.job task.target.config = .error e) :
      TargetStep free w task w { task with run := .recording errorName }
  | start {w : ServiceWorld} {task : TargetTask} {frozen : FrozenUniverse} {effective : EffectiveConfig}
      (attempt : AttemptPlan) (entered : task.run = .entered (.ret frozen))
      (configured : self.catalog.targetEffectiveConfig task.job task.target.config = .ok effective)
      (of : attempt.Of self plan snapshotDate task.job task.target frozen)
      (fresh : attempt.attemptId ∉ w.census.used) :
      TargetStep free w task
        { w with census := { w.census with
            used := attempt.attemptId :: w.census.used
            attempts := w.census.attempts ++ [{ plan := attempt }] } }
        { task with run := .attempting attempt.attemptId }
  | returned {w : ServiceWorld} {task : TargetTask} {a : Attempt}
      (attempting : task.run = .attempting a.plan.attemptId) (mem : a ∈ w.census.attempts)
      (phase : a.phase = .returned) :
      TargetStep free w task w { task with run := .finished (.ok a.plan.attemptId) }
  | raised {w : ServiceWorld} {task : TargetTask} {a : Attempt} (errorName : String)
      (attempting : task.run = .attempting a.plan.attemptId) (mem : a ∈ w.census.attempts)
      (phase : a.phase = .raised) :
      TargetStep free w task w { task with run := .recording errorName }
  | recorded {w : ServiceWorld} {task : TargetTask} {errorName : String} (row : ErrorRow)
      (recording : task.run = .recording errorName) (of : FailureRow self snapshotDate task row)
      (fresh : row.scope.attemptId ∉ w.census.used) :
      TargetStep free w task
        { w with census := { w.census with
            store := w.census.store.write (.terminalErrors [row])
            used := row.scope.attemptId :: w.census.used } }
        { task with run := .finished (.error errorName) }
  /-- A failure to record a failure is dropped. -/
  | unrecorded {w : ServiceWorld} {task : TargetTask} {errorName : String}
      (recording : task.run = .recording errorName) :
      TargetStep free w task w { task with run := .finished (.error errorName) }

/-! ## The gathering -/

/-- The targets of the present job, those of the jobs before it and those of the jobs after it. -/
structure GatherState where
  world : ServiceWorld
  finished : List TargetTask
  tasks : List TargetTask
  later : List JobWork

def GatherState.begin (w : ServiceWorld) (plan : CensusPlan) : GatherState := ⟨w, [], [], plan.jobs⟩

inductive GatherStep : GatherState → GatherState → Prop where
  | progress {g : GatherState} {c : CensusWorld} (step : Progress g.world.census c) :
      GatherStep g { g with world := { g.world with census := c } }
  | target {g : GatherState} {before after : List TargetTask} {task task' : TargetTask}
      {w : ServiceWorld} (split : g.tasks = before ++ task :: after)
      (step : TargetStep self lists plan snapshotDate
        (g.tasks.countP TargetTask.inside < self.censusTargetConcurrency) g.world task w task') :
      GatherStep g { g with world := w, tasks := before ++ task' :: after }
  | nextJob {g : GatherState} {entry : JobWork} {later : List JobWork}
      (finished : ∀ task ∈ g.tasks, task.isFinished = true) (next : g.later = entry :: later) :
      GatherStep g ⟨g.world, g.finished ++ g.tasks, entry.tasks, later⟩

/-- Every target of every job is finished. -/
structure GatherState.Ended (g : GatherState) : Prop where
  later : g.later = []
  tasks : ∀ task ∈ g.tasks, task.isFinished = true

/-- `JobRunError` with the failures, or the attempts, in the order of the plan. -/
def GatherState.outcome (g : GatherState) : Except ServiceException (List Uuid) :=
  let tasks := g.finished ++ g.tasks
  if tasks.filterMap TargetTask.failure ≠ [] then .error (.jobRun (tasks.filterMap TargetTask.failure))
  else .ok (tasks.filterMap TargetTask.attempt)

end Steps

end RpcStateIndexer
