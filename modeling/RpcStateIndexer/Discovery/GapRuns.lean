import RpcStateIndexer.Discovery.Persistence

/-!
# How a gap scan ends

A gap scan stops in its guarded part, or in the extraction of the holders, or when the store refuses an
insert, or it returns.  Only the guarded part records what it raises.
-/

namespace RpcStateIndexer

open Reasoning Program

/-! ## The trace of the service -/

/-- An exchange with the RPC pool, in the trace of the service. -/
def asked (x : Sigma RpcReply) : Sigma DiscoveryAns := ⟨.rpc x.1, x.2⟩

/-- The exchanges with the RPC pool. -/
def exchanged (t : List (Sigma DiscoveryAns)) : List (Sigma RpcReply) :=
  t.filterMap fun
    | ⟨.rpc request, reply⟩ => some ⟨request, reply⟩
    | _ => none

/-- The range rows that were sent to the store, with its answers. -/
def rangeInserts (t : List (Sigma DiscoveryAns)) : List (List DiscoveryRangeRow × Except String Unit) :=
  t.filterMap fun
    | ⟨.insertRanges rows _, reply⟩ => some (rows, reply)
    | _ => none

/-- The holder rows that were sent to the store, with its answers. -/
def holderInserts (t : List (Sigma DiscoveryAns)) : List (List HolderRow × Except String Unit) :=
  t.filterMap fun
    | ⟨.insertHolders rows, reply⟩ => some (rows, reply)
    | _ => none

@[simp] theorem exchanged_asked (t : List (Sigma RpcReply)) : exchanged (t.map asked) = t := by
  rw [exchanged, List.filterMap_map]
  exact List.filterMap_some

theorem mem_exchanged {t : List (Sigma DiscoveryAns)} {x : Sigma RpcReply} :
    x ∈ exchanged t ↔ asked x ∈ t := by
  rw [exchanged, List.mem_filterMap]
  constructor
  · rintro ⟨⟨op, reply⟩, hmem, hsome⟩
    cases op with
    | rpc request =>
      cases hsome
      exact hmem
    | _ => cases hsome
  · intro hmem
    exact ⟨asked x, hmem, rfl⟩

@[simp] theorem rangeInserts_asked (t : List (Sigma RpcReply)) : rangeInserts (t.map asked) = [] := by
  rw [rangeInserts, List.filterMap_map, List.filterMap_eq_nil_iff]
  exact fun x _ => rfl

@[simp] theorem holderInserts_asked (t : List (Sigma RpcReply)) : holderInserts (t.map asked) = [] := by
  rw [holderInserts, List.filterMap_map, List.filterMap_eq_nil_iff]
  exact fun x _ => rfl

theorem exchanged_append (t t' : List (Sigma DiscoveryAns)) :
    exchanged (t ++ t') = exchanged t ++ exchanged t' := List.filterMap_append

theorem rangeInserts_append (t t' : List (Sigma DiscoveryAns)) :
    rangeInserts (t ++ t') = rangeInserts t ++ rangeInserts t' := List.filterMap_append

theorem holderInserts_append (t t' : List (Sigma DiscoveryAns)) :
    holderInserts (t ++ t') = holderInserts t ++ holderInserts t' := List.filterMap_append

theorem runs_runRpc_iff {α : Type} {p : RpcProgram DiscoveryException α} {t : List (Sigma DiscoveryAns)}
    {r : Except AdvanceException α} :
    Runs (runRpc p) t r ↔ ∃ t' r', Runs p t' r' ∧ t = t'.map asked ∧ r = r'.mapError .discovery :=
  @runs_lift_iff _ _ _ _ _ DiscoveryAns _ .rpc (fun _ reply => reply) AdvanceException.discovery
    (fun _ reply => reply) (fun _ _ => rfl) (fun _ _ => rfl) p t r

theorem runs_now_bind_iff {α : Type} {f : Nat → DiscoveryProgram α} {t : List (Sigma DiscoveryAns)}
    {r : Except AdvanceException α} :
    Runs (now >>= f) t r ↔ ∃ n t', t = ⟨.now, n⟩ :: t' ∧ Runs (f n) t' r := runs_call_iff

theorem runs_uuid4_bind_iff {α : Type} {f : Nat → DiscoveryProgram α} {t : List (Sigma DiscoveryAns)}
    {r : Except AdvanceException α} :
    Runs (uuid4 >>= f) t r ↔ ∃ n t', t = ⟨.uuid4, n⟩ :: t' ∧ Runs (f n) t' r := runs_call_iff

theorem runs_insertDiscoveryRanges_iff {rows : List DiscoveryRangeRow} {origin : ScanOrigin}
    {t : List (Sigma DiscoveryAns)} {r : Except AdvanceException Unit} :
    Runs (insertDiscoveryRanges rows origin) t r ↔
      ∃ reply, t = [⟨.insertRanges rows origin, reply⟩] ∧ r = reply.mapError .store := by
  refine runs_call_ofExcept_iff fun reply => ?_
  cases reply <;> rfl

theorem runs_insertHolderObservations_iff {rows : List HolderRow} {t : List (Sigma DiscoveryAns)}
    {r : Except AdvanceException Unit} :
    Runs (insertHolderObservations rows) t r ↔
      ∃ reply, t = [⟨.insertHolders rows, reply⟩] ∧ r = reply.mapError .store := by
  refine runs_call_ofExcept_iff fun reply => ?_
  cases reply <;> rfl

theorem eq_error_of_mapError {α : Type} {x : Except DiscoveryException α} {e : AdvanceException}
    (h : x.mapError AdvanceException.discovery = .error e) : ∃ e', e = .discovery e' ∧ x = .error e' := by
  cases x with
  | ok a => cases h
  | error e' =>
    cases h
    exact ⟨e', rfl, rfl⟩

namespace DiscoveryService

variable {svc : DiscoveryService} {g : GapScan}

/-! ## The runs -/

/-- The part of a trace up to the end of the scan. -/
def opening (scanId startedAt : Nat) (t : List (Sigma RpcReply)) : List (Sigma DiscoveryAns) :=
  ⟨.uuid4, scanId⟩ :: ⟨.now, startedAt⟩ :: t.map asked

theorem exchanged_opening (scanId startedAt : Nat) (t : List (Sigma RpcReply)) :
    exchanged (opening scanId startedAt t) = t := exchanged_asked t

theorem rangeInserts_opening (scanId startedAt : Nat) (t : List (Sigma RpcReply)) :
    rangeInserts (opening scanId startedAt t) = [] := rangeInserts_asked t

theorem holderInserts_opening (scanId startedAt : Nat) (t : List (Sigma RpcReply)) :
    holderInserts (opening scanId startedAt t) = [] := holderInserts_asked t

/-- How a gap scan runs, by what becomes of the scan. -/
inductive GapRun (svc : DiscoveryService) (g : GapScan) :
    List (Sigma DiscoveryAns) → Except AdvanceException Unit → Prop
  | cancelled {scanId startedAt : Nat} {t : List (Sigma RpcReply)}
    (scanned : Runs (svc.scanner.scan g.tokenAddress g.topic0 g.gap.start g.gap.endExclusive) t
      (.error .cancelled)) :
    GapRun svc g (opening scanId startedAt t) (.error (.discovery .cancelled))
  | recorded {scanId startedAt : Nat} {t : List (Sigma RpcReply)} {exc : DiscoveryException}
    (failed : Runs (svc.scanner.scan g.tokenAddress g.topic0 g.gap.start g.gap.endExclusive) t (.error exc))
    (hcause : exc ≠ .cancelled) (failedAt : Nat) :
    GapRun svc g (opening scanId startedAt t ++ [⟨.now, failedAt⟩,
        ⟨.insertRanges [svc.failedRow g scanId startedAt failedAt exc] g.origin, .ok ()⟩])
      (.error (.discovery exc))
  | unrecorded {scanId startedAt : Nat} {t : List (Sigma RpcReply)} {exc : DiscoveryException}
    (failed : Runs (svc.scanner.scan g.tokenAddress g.topic0 g.gap.start g.gap.endExclusive) t (.error exc))
    (hcause : exc ≠ .cancelled) (failedAt : Nat) (e : String) :
    GapRun svc g (opening scanId startedAt t ++ [⟨.now, failedAt⟩,
        ⟨.insertRanges [svc.failedRow g scanId startedAt failedAt exc] g.origin, .error e⟩])
      (.error (.store e))
  | scanned {scanId startedAt finishedAt : Nat} {t : List (Sigma RpcReply)} {scan : DiscoveryScan}
    {t' : List (Sigma DiscoveryAns)} {r : Except AdvanceException Unit}
    (hscan : Runs (svc.scanner.scan g.tokenAddress g.topic0 g.gap.start g.gap.endExclusive) t (.ok scan))
    (persists : Runs (svc.persistScan g scanId startedAt finishedAt scan) t' r) :
    GapRun svc g (opening scanId startedAt t ++ ⟨.now, finishedAt⟩ :: t') r

theorem runs_recordFailure {scanId startedAt : Nat} {exc : DiscoveryException}
    {t : List (Sigma DiscoveryAns)} {r : Except AdvanceException DiscoveryScan}
    (h : Runs (svc.recordFailure g scanId startedAt (.discovery exc)) t r) :
    exc = .cancelled ∧ t = [] ∧ r = .error (.discovery .cancelled) ∨
      exc ≠ .cancelled ∧ ∃ failedAt reply, t = [⟨.now, failedAt⟩,
          ⟨.insertRanges [svc.failedRow g scanId startedAt failedAt exc] g.origin, reply⟩] ∧
        r = match reply with
          | .ok _ => .error (.discovery exc)
          | .error e => .error (.store e) := by
  by_cases hcause : exc = .cancelled
  · subst hcause
    obtain ⟨rfl, rfl⟩ := runs_raise_iff.mp h
    exact .inl ⟨rfl, rfl, rfl⟩
  · refine .inr ⟨hcause, ?_⟩
    have hrecord : Runs (now >>= fun failedAt =>
        insertDiscoveryRanges [svc.failedRow g scanId startedAt failedAt exc] g.origin >>= fun _ =>
          .raise (.discovery exc)) t r := by
      cases exc with
      | cancelled => exact absurd rfl hcause
      | _ => exact h
    obtain ⟨failedAt, t', rfl, hinsert⟩ := runs_now_bind_iff.mp hrecord
    rcases runs_bind_iff.mp hinsert with ⟨_, t₁, t₂, rfl, h₁, h₂⟩ | ⟨e, h₁, rfl⟩
    · obtain ⟨reply, rfl, hreply⟩ := runs_insertDiscoveryRanges_iff.mp h₁
      obtain ⟨rfl, rfl⟩ := runs_raise_iff.mp h₂
      cases reply with
      | ok _ => exact ⟨failedAt, _, rfl, rfl⟩
      | error e => cases hreply
    · obtain ⟨reply, rfl, hreply⟩ := runs_insertDiscoveryRanges_iff.mp h₁
      cases reply with
      | ok _ => cases hreply
      | error e' =>
        cases hreply
        exact ⟨failedAt, _, rfl, rfl⟩

/-- Every run of a gap scan is one of the four. -/
theorem gapRun_of_runs {t : List (Sigma DiscoveryAns)} {r : Except AdvanceException Unit}
    (h : Runs (svc.scanGap g) t r) : GapRun svc g t r := by
  obtain ⟨scanId, t, rfl, hstarted⟩ := runs_uuid4_bind_iff.mp h
  obtain ⟨startedAt, t, rfl, hscanned⟩ := runs_now_bind_iff.mp hstarted
  have hguarded : ∀ {t₁ : List (Sigma DiscoveryAns)} {x : Except AdvanceException DiscoveryScan},
      Runs (tryCatch
          (runRpc (svc.scanner.scan g.tokenAddress g.topic0 g.gap.start g.gap.endExclusive))
          (svc.recordFailure g scanId startedAt)) t₁ x →
        (∃ scan t', x = .ok scan ∧ t₁ = t'.map asked ∧
          Runs (svc.scanner.scan g.tokenAddress g.topic0 g.gap.start g.gap.endExclusive) t' (.ok scan)) ∨
        ∃ exc t' t₂, t₁ = t'.map asked ++ t₂ ∧
          Runs (svc.scanner.scan g.tokenAddress g.topic0 g.gap.start g.gap.endExclusive) t' (.error exc) ∧
          Runs (svc.recordFailure g scanId startedAt (.discovery exc)) t₂ x := by
    intro t₁ x hx
    rcases runs_tryCatch_iff.mp hx with ⟨scan, rfl, hscan⟩ | ⟨e, t₂, t₃, rfl, hscan, hrecord⟩
    · obtain ⟨t', r', hrun, rfl, hr⟩ := runs_runRpc_iff.mp hscan
      cases r' with
      | ok scan' =>
        cases hr
        exact .inl ⟨scan, t', rfl, rfl, hrun⟩
      | error exc => cases hr
    · obtain ⟨t', r', hrun, rfl, hr⟩ := runs_runRpc_iff.mp hscan
      cases r' with
      | ok scan => cases hr
      | error exc =>
        cases hr
        exact .inr ⟨exc, t', t₃, rfl, hrun, hrecord⟩
  rcases runs_bind_iff.mp hscanned with ⟨scan, t₁, t₂, rfl, h₁, h₂⟩ | ⟨e, h₁, rfl⟩
  · rcases hguarded h₁ with ⟨scan', t', hscan, rfl, hrun⟩ | ⟨exc, t', t₃, rfl, hrun, hrecord⟩
    · cases hscan
      obtain ⟨finishedAt, t₂, rfl, hpersist⟩ := runs_now_bind_iff.mp h₂
      exact .scanned hrun hpersist
    · rcases runs_recordFailure hrecord with ⟨-, -, hno⟩ | ⟨-, failedAt, reply, -, hno⟩
      · cases hno
      · cases reply <;> cases hno
  · rcases hguarded h₁ with ⟨scan', t', hscan, -⟩ | ⟨exc, t', t₃, rfl, hrun, hrecord⟩
    · cases hscan
    · rcases runs_recordFailure hrecord with ⟨rfl, rfl, hr⟩ | ⟨hcause, failedAt, reply, rfl, hr⟩
      · cases hr
        rw [List.append_nil]
        exact .cancelled hrun
      · cases reply with
        | ok _ =>
          cases hr
          exact .recorded hrun hcause failedAt
        | error e' =>
          cases hr
          exact .unrecorded hrun hcause failedAt e'

/-! ## Persisting -/

/-- The holder rows, if there are any, and the range rows. -/
def inserts (holders : List HolderRow) (rows : List DiscoveryRangeRow) (origin : ScanOrigin) :
    DiscoveryProgram Unit := do
  if holders ≠ [] then insertHolderObservations holders
  insertDiscoveryRanges rows origin

/-- The store either takes the rows or says what is wrong. -/
theorem runs_inserts {holders : List HolderRow} {rows : List DiscoveryRangeRow} {origin : ScanOrigin}
    {t : List (Sigma DiscoveryAns)} {r : Except AdvanceException Unit} (h : Runs (inserts holders rows origin) t r) :
    exchanged t = [] ∧
      (r = .ok () ∧ rangeInserts t = [(rows, .ok ())] ∨ ∃ e, r = .error (.store e)) := by
  have hranges : ∀ t', Runs (insertDiscoveryRanges rows origin) t' r → exchanged t' = [] ∧
      (r = .ok () ∧ rangeInserts t' = [(rows, .ok ())] ∨ ∃ e, r = .error (.store e)) := by
    intro t' hrun
    obtain ⟨reply, rfl, rfl⟩ := runs_insertDiscoveryRanges_iff.mp hrun
    cases reply with
    | ok _ => exact ⟨rfl, .inl ⟨rfl, rfl⟩⟩
    | error e => exact ⟨rfl, .inr ⟨e, rfl⟩⟩
  unfold inserts at h
  split at h
  · rcases runs_bind_iff.mp h with ⟨_, t₁, t₂, rfl, h₁, h₂⟩ | ⟨e, h₁, rfl⟩
    · obtain ⟨reply, rfl, -⟩ := runs_insertHolderObservations_iff.mp h₁
      exact hranges t₂ h₂
    · obtain ⟨reply, rfl, hreply⟩ := runs_insertHolderObservations_iff.mp h₁
      cases reply with
      | ok _ => cases hreply
      | error e' =>
        cases hreply
        exact ⟨rfl, .inr ⟨e', rfl⟩⟩
  · exact hranges t h

/-- What is refused is refused before the first insert; otherwise the rows are inserted. -/
theorem runs_persistScan {scanId startedAt finishedAt : Nat} {scan : DiscoveryScan}
    {t : List (Sigma DiscoveryAns)} {r : Except AdvanceException Unit}
    (h : Runs (svc.persistScan g scanId startedAt finishedAt scan) t r) :
    (∃ e, t = [] ∧ r = .error (.discovery e) ∧
      (scan.completedRanges.mapM (svc.completedRow g scanId startedAt finishedAt scan) = .error e ∨
        observations g.origin scan.logs = .error e)) ∨
      ∃ rows observed,
        scan.completedRanges.mapM (svc.completedRow g scanId startedAt finishedAt scan) = .ok rows ∧
        observations g.origin scan.logs = .ok observed ∧
        Runs (inserts (svc.holderRows g observed) rows g.origin) t r := by
  rcases runs_bind_iff.mp h with ⟨rows, t₁, t₂, rfl, h₁, h₂⟩ | ⟨e, h₁, rfl⟩
  · obtain ⟨rfl, hrows⟩ := runs_ofExcept_iff.mp h₁
    rcases runs_bind_iff.mp h₂ with ⟨observed, t₃, t₄, rfl, h₃, h₄⟩ | ⟨e, h₃, rfl⟩
    · obtain ⟨rfl, hobserved⟩ := runs_ofExcept_iff.mp h₃
      exact .inr ⟨rows, observed, except_mapError_eq_ok_iff.mp hrows.symm,
        except_mapError_eq_ok_iff.mp hobserved.symm, h₄⟩
    · obtain ⟨rfl, hobserved⟩ := runs_ofExcept_iff.mp h₃
      obtain ⟨e', rfl, herror⟩ := eq_error_of_mapError hobserved.symm
      exact .inl ⟨e', rfl, rfl, .inr herror⟩
  · obtain ⟨rfl, hrows⟩ := runs_ofExcept_iff.mp h₁
    obtain ⟨e', rfl, herror⟩ := eq_error_of_mapError hrows.symm
    exact .inl ⟨e', rfl, rfl, .inl herror⟩

end DiscoveryService

end RpcStateIndexer
