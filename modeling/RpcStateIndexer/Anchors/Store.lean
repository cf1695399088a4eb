import RpcStateIndexer.Anchors.Resolver
import RpcStateIndexer.Census.Runner
import RpcStateIndexer.Census.Views

/-!
# Storing a day anchor

`AnchorStoreService.persist` reads the canonical anchor of the date and inserts when there is none.
Any number of processes may do so at once, so the calls in progress are part of the world.
-/

namespace RpcStateIndexer

open Reasoning Program

/-- The store calls of `persist`. -/
inductive AnchorOp where
  | canonicalAnchor (chainId snapshotDate : Nat)
  | insertAnchor (row : DayAnchorRow)

abbrev AnchorAns : AnchorOp → Type
  | .canonicalAnchor _ _ => Except Failure (Option DayAnchorRow)
  | .insertAnchor _ => Except Failure Unit

inductive PersistException where
  | environment (f : Failure)
  | anchor (e : AnchorException)

abbrev PersistProgram (α : Type) : Type := Program AnchorOp AnchorAns PersistException α

/-- The block a stored row resolves its date to. -/
def DayAnchorRow.block (a : DayAnchorRow) : BlockRef where
  number := a.blockNumber
  blockHash := a.blockHash
  parentHash := a.parentHash
  timestamp := a.blockTimestamp

/-- The row of a new resolution. -/
def ResolvedAnchor.row (resolved : ResolvedAnchor) (chainId : Nat) (resolutionId : Uuid)
    (resolvedAt : Nat) : DayAnchorRow where
  chainId
  snapshotDate := resolved.snapshotDate
  resolutionId
  blockNumber := resolved.anchor.number
  blockHash := resolved.anchor.blockHash
  parentHash := resolved.anchor.parentHash
  blockTimestamp := resolved.anchor.timestamp
  nextBlockNumber := resolved.nextBlock.number
  nextBlockHash := resolved.nextBlock.blockHash
  nextBlockTimestamp := resolved.nextBlock.timestamp
  finalizedAtResolution := true
  resolvedAt

structure AnchorStoreService where
  chainId : Nat

/-- The insert of a new resolution. -/
def insertAnchor (row : DayAnchorRow) (anchor : BlockRef) : PersistProgram BlockRef :=
  .call (.insertAnchor row) fun
    | .error f => .raise (.environment f)
    | .ok () => .ret anchor

/-- Persist a resolution once and reject any later drift. -/
def AnchorStoreService.persist (service : AnchorStoreService) (resolved : ResolvedAnchor)
    (resolutionId : Uuid) (resolvedAt : Nat) : PersistProgram BlockRef :=
  .call (.canonicalAnchor service.chainId resolved.snapshotDate) fun
    | .error f => .raise (.environment f)
    | .ok (some existing) => do
      ofExcept ((assertAnchorImmutable existing.block resolved.anchor).mapError .anchor)
      return existing.block
    | .ok none => insertAnchor (resolved.row service.chainId resolutionId resolvedAt) resolved.anchor

/-! ## Calls in progress -/

/-- What an operation does to the store.  An insert that fails may have taken effect. -/
inductive AnchorAnswered : (op : AnchorOp) → CensusStore → AnchorAns op → CensusStore → Prop where
  | read (chainId snapshotDate : Nat) (s : CensusStore) :
      AnchorAnswered (.canonicalAnchor chainId snapshotDate) s
        (.ok (s.canonicalAnchor chainId snapshotDate)) s
  | unread (chainId snapshotDate : Nat) (s : CensusStore) (f : Failure) :
      AnchorAnswered (.canonicalAnchor chainId snapshotDate) s (.error f) s
  | inserted (row : DayAnchorRow) (s : CensusStore) :
      AnchorAnswered (.insertAnchor row) s (.ok ()) { s with dayAnchors := s.dayAnchors ++ [row] }
  | lost (row : DayAnchorRow) (s : CensusStore) (f : Failure) :
      AnchorAnswered (.insertAnchor row) s (.error f) s
  | unacknowledged (row : DayAnchorRow) (s : CensusStore) (f : Failure) :
      AnchorAnswered (.insertAnchor row) s (.error f)
        { s with dayAnchors := s.dayAnchors ++ [row] }

/-- A call of `persist`: what is left of it, and how many rows were stored when it last read. -/
structure PersistCall where
  service : AnchorStoreService
  resolved : ResolvedAnchor
  rest : PersistProgram BlockRef
  seen : Nat := 0

namespace PersistCall

/-- The row is of the date that the call resolves. -/
def Concerns (c : PersistCall) (a : DayAnchorRow) : Prop :=
  a.chainId = c.service.chainId ∧ a.snapshotDate = c.resolved.snapshotDate

/-- The call after one answer. -/
def resume (c : PersistCall) (stored : Nat) (op : AnchorOp) (rest : PersistProgram BlockRef) :
    PersistCall :=
  match op with
  | .canonicalAnchor _ _ => { c with rest, seen := stored }
  | .insertAnchor _ => { c with rest }

/-- No call has stored another resolution of the date since this one read. -/
def Undisturbed (c : PersistCall) (s : CensusStore) : Prop :=
  ∀ row k, c.rest = .call (.insertAnchor row) k →
    ∀ a ∈ s.dayAnchors.drop c.seen, c.Concerns a → a.resolution = row.resolution

end PersistCall

structure AnchorWorld where
  store : CensusStore
  calls : List PersistCall

/-- A call starts, or one that `allowed` lets through issues its next operation. -/
inductive AnchorStep (allowed : PersistCall → CensusStore → Prop) :
    AnchorWorld → AnchorWorld → Prop where
  | start {w : AnchorWorld} (service : AnchorStoreService) (resolved : ResolvedAnchor)
      (resolutionId : Uuid) (resolvedAt : Nat) :
      AnchorStep allowed w { w with
        calls := w.calls ++ [⟨service, resolved, service.persist resolved resolutionId resolvedAt, 0⟩] }
  | call {w : AnchorWorld} {before after : List PersistCall} {c : PersistCall} {op : AnchorOp}
      {k : AnchorAns op → PersistProgram BlockRef} {answer : AnchorAns op} {s : CensusStore}
      (split : w.calls = before ++ c :: after) (next : c.rest = .call op k)
      (admitted : allowed c w.store) (answered : AnchorAnswered op w.store answer s) :
      AnchorStep allowed w
        { store := s
          calls := before ++ c.resume w.store.dayAnchors.length op (k answer) :: after }

/-- The states that calls reach from a store without day anchors. -/
def AnchorWorld.Reachable (allowed : PersistCall → CensusStore → Prop) (w : AnchorWorld) : Prop :=
  ∃ s : CensusStore, s.dayAnchors = [] ∧
    Relation.ReflTransGen (AnchorStep allowed) ⟨s, []⟩ w

/-- A call that resolved another block than is stored ends in the conflict, unless the store fails. -/
def Rejected : Except PersistException BlockRef → Prop
  | .error (.anchor (.conflict _)) => True
  | .error (.environment _) => True
  | _ => False

/-- What immutability asks of a state: a call whose block differs from a stored one of its date is
rejected and stores nothing, and no call has returned another block than is stored. -/
structure AnchorWorld.Immutable (allowed : PersistCall → CensusStore → Prop) (w : AnchorWorld) :
    Prop where
  rejected : ∀ c ∈ w.calls, ∀ a ∈ w.store.dayAnchors, c.Concerns a → a.block ≠ c.resolved.anchor →
    ∀ r, c.rest = ended r → Rejected r
  unchanged : ∀ c ∈ w.calls, ∀ a ∈ w.store.dayAnchors, c.Concerns a → a.block ≠ c.resolved.anchor →
    ∀ op k answer s, c.rest = .call op k → allowed c w.store →
      AnchorAnswered op w.store answer s → s = w.store
  returned : ∀ c ∈ w.calls, ∀ a ∈ w.store.dayAnchors, c.Concerns a →
    ∀ block, c.rest = .ret block → a.block = block

end RpcStateIndexer
