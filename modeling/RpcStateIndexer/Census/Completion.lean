import RpcStateIndexer.Census.Cancellation

/-!
# Attempts that returned

An attempt that returned is published, and in every later state of the run its current state is the
verified one: nothing but the registry and the anchors decides whether its publication is eligible.
-/

namespace RpcStateIndexer

open Reasoning Program CensusRunner CensusStore

/-! ## What the worker writes -/

/-- Of the states of attempts nothing but `S` is stored. -/
def StoresOnly (S : AttemptRow → Prop) (op : CensusOp) : Prop :=
  ∀ row, op = .write (.attemptState row) → S row

/-- The state of an attempt that collected `result`, all of it in order. -/
def IsVerified (base : AttemptBase) (result : CollectionResult) (row : AttemptRow) : Prop :=
  ∃ digest, result.resultDigest = .ok digest ∧ row = verifiedState base result digest

/-- The publication of the attempt is stored. -/
def IsPublished (id : Uuid) (s : CensusStore) : Prop := (s.ofAttempt id).publications ≠ []

section Asks

variable {S : AttemptRow → Prop}

theorem asks_insert {x : CensusWrite} (h : StoresOnly S (.write x)) : Asks (StoresOnly S) (insert x) :=
  ⟨h, fun answer => by cases answer <;> trivial⟩

theorem asks_query (q : CensusQuery) (scope : AttemptScope) (consistent : Bool) :
    Asks (StoresOnly S) (query q scope consistent) :=
  ⟨fun _ => nofun, fun answer => by cases answer <;> trivial⟩

theorem asks_insertChunked {α : Type} {table : List α → CensusWrite}
    (h : ∀ rows, StoresOnly S (.write (table rows))) (rows : List α) :
    Asks (StoresOnly S) (insertChunked table rows) :=
  .forM fun chunk _ => asks_insert (h chunk)

theorem asks_insertErrors (rows : List ErrorRow) : Asks (StoresOnly S) (insertErrors rows) := by
  unfold insertErrors
  split
  · exact asks_insert fun _ => nofun
  · trivial

theorem asks_readbackUniverse (scope : AttemptScope) (consistent : Bool) :
    Asks (StoresOnly S) (readbackUniverseDigest scope consistent) :=
  (asks_query _ _ _).bind fun _ => .ofExcept _

theorem asks_readbackToken (scope : AttemptScope) (consistent : Bool) :
    Asks (StoresOnly S) (readbackTokenDigest scope consistent) :=
  (asks_query _ _ _).bind fun _ => (asks_query _ _ _).bind fun _ => .ofExcept _

theorem asks_readbackPool (scope : AttemptScope) (consistent : Bool) :
    Asks (StoresOnly S) (readbackPoolDigest scope consistent) :=
  (asks_query _ _ _).bind fun _ => .ofExcept _

theorem asks_readbackCl (scope : AttemptScope) (consistent : Bool) :
    Asks (StoresOnly S) (readbackClDigest scope consistent) := by
  refine (asks_query _ _ _).bind fun states => ?_
  split
  · trivial
  · exact (asks_query _ _ _).bind fun _ => .ofExcept _

theorem asks_verifiedReadback {read : Bool → CensusProgram String} (expected : String)
    (h : ∀ consistent, Asks (StoresOnly S) (read consistent)) :
    Asks (StoresOnly S) (verifiedReadback read expected) := by
  refine (h false).bind fun digest => ?_
  split
  · trivial
  · exact h true

theorem asks_terminalErrorCount (scope : AttemptScope) (expected : Nat) :
    Asks (StoresOnly S) (terminalErrorCount scope expected) := by
  refine (asks_query _ _ _).bind fun count => ?_
  split
  · trivial
  · exact asks_query _ _ _

theorem asks_checksPassed (outcome : CollectionOutcome) (checks : List GateCheck) :
    Asks (StoresOnly S) (do
      if failedNames checks ≠ [] then throw (.blocked (failedNames checks))
      if !outcome.verified then throw (.blocked ["collector_not_verified"])
      return "historical_code_verified" :: passedNames checks : CensusProgram (List String)) := by
  by_cases hfailed : failedNames checks = []
  · cases hverified : outcome.verified with
    | false =>
      simp only [hfailed, ne_eq, not_true_eq_false, if_false, Bool.not_false, if_true]
      trivial
    | true =>
      simp only [hfailed, ne_eq, not_true_eq_false, if_false, Bool.not_true, Bool.false_eq_true]
      trivial
  · simp only [ne_eq, hfailed, not_false_eq_true, if_true]
    trivial

theorem asks_publicationChecks (scope : AttemptScope) (frozen : FrozenUniverse)
    (result : CollectionResult) (resultDigest readback : String) :
    Asks (StoresOnly S) (publicationChecks scope frozen result resultDigest readback) := by
  refine (asks_terminalErrorCount _ _).bind fun errorCount => ?_
  cases result with
  | token r =>
    show Asks (StoresOnly S) (verifiedReadback (readbackUniverseDigest scope) frozen.universeHash >>=
      fun digest => _)
    refine (asks_verifiedReadback _ fun c => asks_readbackUniverse scope c).bind fun digest => ?_
    exact asks_checksPassed r.toCollectionOutcome _
  | pool r => exact asks_checksPassed r.toCollectionOutcome _
  | poolCl r => exact asks_checksPassed r.toCollectionOutcome _

section Publish

variable (runner : CensusRunner) (base : AttemptBase) (id : Uuid) (job : JobConfig) (snapshotDate : Nat)
  (frozen : FrozenUniverse)

theorem asks_appendVerified (target : PublishedTarget) {result : CollectionResult}
    {resultDigest : String} (hS : S (verifiedState base result resultDigest)) (checks : List String) :
    Asks (StoresOnly S)
      (runner.appendVerified base id job target snapshotDate frozen result resultDigest checks) := by
  refine .bind ⟨fun _ => nofun, fun _ => trivial⟩ fun finished => ?_
  refine .bind (asks_insert ?_) fun _ => ?_
  · rintro row hrow
    cases hrow
    exact hS
  · exact .bind ⟨fun _ => nofun, fun _ => trivial⟩ fun _ => asks_insert fun _ => nofun

theorem asks_publishPoolResult (pool : PoolConfig) {result : CollectionResult}
    (hS : ∀ row, IsVerified base result row → S row) {read : Bool → CensusProgram String}
    (h : ∀ consistent, Asks (StoresOnly S) (read consistent)) :
    Asks (StoresOnly S)
      (runner.publishPoolResult base id job pool snapshotDate frozen result read) := by
  refine .ofExcept_bind fun digest hdigest => ?_
  refine (asks_verifiedReadback digest h).bind fun _ => ?_
  refine (asks_publicationChecks _ _ _ _ _).bind fun _ => ?_
  exact asks_appendVerified _ _ _ _ _ _ _ (hS _ ⟨digest, mapError_eq_ok_iff.mp hdigest, rfl⟩) _

theorem asks_publishToken (token : TokenConfig) {r : TokenCollectionResult}
    (hS : ∀ row, IsVerified base (.token r) row → S row) :
    Asks (StoresOnly S) (runner.publishToken base id job token snapshotDate frozen r) := by
  refine .ofExcept_bind fun digest hdigest => ?_
  refine (asks_verifiedReadback digest fun c => asks_readbackToken _ c).bind fun _ => ?_
  refine (asks_publicationChecks _ _ _ _ _).bind fun _ => (Asks.ofExcept _).bind fun _ => ?_
  exact asks_appendVerified _ _ _ _ _ _ _ (hS _ ⟨digest, mapError_eq_ok_iff.mp hdigest, rfl⟩) _

theorem asks_persistAndPublishToken (token : TokenConfig) {r : TokenCollectionResult}
    (hS : ∀ row, IsVerified base (.token r) row → S row) :
    Asks (StoresOnly S) (runner.persistAndPublishToken base id job token snapshotDate frozen r) := by
  refine .bind ?_ fun _ => .bind ?_ fun _ => asks_publishToken _ _ _ _ _ _ _ hS
  · refine (Asks.ofExcept _).bind fun rows => ?_
    split
    · exact asks_insert fun _ => nofun
    · trivial
  · refine (Asks.ofExcept _).bind fun balances => .bind (asks_insertChunked ?_ _) fun _ => ?_
    · exact fun _ _ => nofun
    refine (Asks.ofExcept _).bind fun scalars => .bind (.forM fun group _ => ?_) fun _ => ?_
    · exact asks_insert fun _ => nofun
    · exact asks_insertErrors _

theorem asks_persistAndPublishPool (pool : PoolConfig) {r : PoolCollectionResult}
    (hS : ∀ row, IsVerified base (.pool r) row → S row) :
    Asks (StoresOnly S) (runner.persistAndPublishPool base id job pool snapshotDate frozen r) := by
  refine .bind ?_ fun _ => asks_publishPoolResult _ _ _ _ _ _ _ hS fun c => asks_readbackPool _ c
  refine (Asks.ofExcept _).bind fun balances => .bind (asks_insertChunked ?_ _) fun _ => ?_
  · exact fun _ _ => nofun
  · exact asks_insertErrors _

theorem asks_persistAndPublishPoolCl (pool : PoolConfig) {r : PoolClCollectionResult}
    (hS : ∀ row, IsVerified base (.poolCl r) row → S row) :
    Asks (StoresOnly S) (runner.persistAndPublishPoolCl base id job pool snapshotDate frozen r) := by
  refine .bind ?_ fun _ => asks_publishPoolResult _ _ _ _ _ _ _ hS fun c => asks_readbackCl _ c
  refine (Asks.ofExcept _).bind fun state => .bind (asks_insert ?_) fun _ => ?_
  · exact fun _ => nofun
  refine (Asks.ofExcept _).bind fun ticks => .bind (asks_insertChunked ?_ _) fun _ => ?_
  · exact fun _ _ => nofun
  · exact asks_insertErrors _

end Publish

end Asks

theorem asks_worker (plan : AttemptPlan) (c : Collected plan.job plan.target) :
    Asks (StoresOnly (IsVerified plan.base c.result)) (plan.worker c) := by
  obtain ⟨runner, job, target, snapshotDate, anchor, frozen, attemptId, hpool⟩ := plan
  cases c with
  | token r => exact asks_persistAndPublishToken _ _ _ _ _ _ _ fun _ h => h
  | pool r mode => exact asks_persistAndPublishPool _ _ _ _ _ _ _ fun _ h => h
  | poolCl r mode => exact asks_persistAndPublishPoolCl _ _ _ _ _ _ _ fun _ h => h

/-! ## What the worker's return says -/

section Returns

variable {id : Uuid} {w : AttemptWorld}

/-- The last insert of the worker is the publication. -/
theorem returns_published_insert {row : PublicationRow} (hid : row.attemptId = id) (w : AttemptWorld) :
    Returns (censusEnv id) (fun _ => True) (fun _ w' => IsPublished id w'.store)
      (insert (.publication row)) w := by
  rintro answer w' ⟨s, -, hanswer, -⟩
  generalize hstore : w'.store = s' at hanswer
  cases hanswer with
  | written =>
    refine ⟨trivial, List.ne_nil_of_mem (a := row) ?_⟩
    rw [hstore]
    exact List.mem_filter.mpr
      ⟨List.mem_append_right _ (List.mem_singleton_self row), by simpa using hid⟩
  | lost f => exact ⟨trivial, trivial⟩
  | unacknowledged f => exact ⟨trivial, trivial⟩

/-- Whatever came before. -/
theorem returns_published_after {α : Type} {p : CensusProgram α} {f : α → CensusProgram Unit}
    (h : ∀ a w, Returns (censusEnv id) (fun _ => True) (fun _ w' => IsPublished id w'.store) (f a) w) :
    Returns (censusEnv id) (fun _ => True) (fun _ w' => IsPublished id w'.store) (p >>= f) w :=
  Returns.bind (.top p w) fun a w' _ => h a w'

variable (runner : CensusRunner) (base : AttemptBase) (job : JobConfig) (snapshotDate : Nat)
  (frozen : FrozenUniverse)

theorem returns_published_appendVerified (target : PublishedTarget) (result : CollectionResult)
    (resultDigest : String) (checks : List String) (w : AttemptWorld) :
    Returns (censusEnv id) (fun _ => True) (fun _ w' => IsPublished id w'.store)
      (runner.appendVerified base id job target snapshotDate frozen result resultDigest checks) w :=
  returns_published_after fun _ _ => returns_published_after fun _ _ =>
    returns_published_after fun _ w => returns_published_insert rfl w

theorem returns_published_pool (pool : PoolConfig) (result : CollectionResult)
    (read : Bool → CensusProgram String) (w : AttemptWorld) :
    Returns (censusEnv id) (fun _ => True) (fun _ w' => IsPublished id w'.store)
      (runner.publishPoolResult base id job pool snapshotDate frozen result read) w :=
  returns_published_after fun _ _ => returns_published_after fun _ _ =>
    returns_published_after fun _ w => returns_published_appendVerified _ _ _ _ _ _ _ _ _ w

theorem returns_published_token (token : TokenConfig) (r : TokenCollectionResult) (w : AttemptWorld) :
    Returns (censusEnv id) (fun _ => True) (fun _ w' => IsPublished id w'.store)
      (runner.publishToken base id job token snapshotDate frozen r) w :=
  returns_published_after fun _ _ => returns_published_after fun _ _ =>
    returns_published_after fun _ _ => returns_published_after fun _ w =>
      returns_published_appendVerified _ _ _ _ _ _ _ _ _ w

end Returns

/-- A worker that returns has published, whatever the store answered it. -/
theorem returns_published_worker (plan : AttemptPlan) (c : Collected plan.job plan.target)
    (w : AttemptWorld) :
    Returns (censusEnv plan.attemptId) (fun _ => True) (fun _ w' => IsPublished plan.attemptId w'.store)
      (plan.worker c) w := by
  obtain ⟨runner, job, target, snapshotDate, anchor, frozen, attemptId, hpool⟩ := plan
  cases c with
  | token r =>
    exact returns_published_after fun _ _ => returns_published_after fun _ w =>
      returns_published_token _ _ _ _ _ _ _ w
  | pool r mode => exact returns_published_after fun _ w => returns_published_pool _ _ _ _ _ _ _ _ w
  | poolCl r mode => exact returns_published_after fun _ w => returns_published_pool _ _ _ _ _ _ _ _ w

/-! ## The states of an attempt -/

/-- No started state follows a verified one. -/
def StartedFirst (x y : AttemptRow) : Prop := x.status = .verified → y.status ≠ .started

/-- What the states of an attempt say of where it stands. -/
structure StatesInvariant (s : CensusStore) (a : Attempt) : Prop where
  ordered : (s.ofAttempt a.plan.attemptId).attempts.Pairwise StartedFirst
  verified : ∀ t ∈ (s.ofAttempt a.plan.attemptId).attempts, t.status = .verified →
    ∃ c, a.collected = some c ∧ IsVerified a.plan.base c.result t
  unhandled : a.phase ≠ .closing → a.phase ≠ .raised → Finished a.closing ∧
    ∀ t ∈ (s.ofAttempt a.plan.attemptId).attempts, t.status ≠ .failed
  handed : a.phase = .publishing → a.collected ≠ none
  worker : ∀ c, a.collected = some c → Asks (StoresOnly (IsVerified a.plan.base c.result)) a.worker
  publishes : a.collected ≠ none → Returns (censusEnv a.plan.attemptId) (fun _ => True)
    (fun _ w => IsPublished a.plan.attemptId w.store) a.worker ⟨s, a.log⟩
  returned : a.phase = .returned → IsPublished a.plan.attemptId s

theorem IsPublished.interferes {id : Uuid} {s s' : CensusStore} (h : IsPublished id s)
    (hs : Interferes id s s') : IsPublished id s' := by
  have hpublications : (s'.ofAttempt id).publications = (s.ofAttempt id).publications := by
    show (s'.ofAttempt id).observed.publications = _
    rw [hs.observed]
    rfl
  unfold IsPublished
  rw [hpublications]
  exact h

theorem publications_write {s : CensusStore} (x : CensusWrite) {p : PublicationRow}
    (hp : p ∈ s.publications) : p ∈ (s.write x).publications := by
  cases x with
  | publication row => exact List.mem_append_left _ hp
  | _ => exact hp

theorem IsPublished.write {id : Uuid} {s : CensusStore} (h : IsPublished id s) (x : CensusWrite) :
    IsPublished id (s.write x) := by
  obtain ⟨p, hp⟩ := List.exists_mem_of_ne_nil _ h
  obtain ⟨hmem, hid⟩ := List.mem_filter.mp hp
  exact List.ne_nil_of_mem (List.mem_filter.mpr ⟨publications_write x hmem, hid⟩)

theorem returns_published_interferes {id : Uuid} {p : CensusProgram Unit} {s s' : CensusStore}
    {log : List (Sigma CensusAns)}
    (h : Returns (censusEnv id) (fun _ => True) (fun _ w => IsPublished id w.store) p ⟨s, log⟩)
    (hs : Interferes id s s') :
    Returns (censusEnv id) (fun _ => True) (fun _ w => IsPublished id w.store) p ⟨s', log⟩ := by
  cases p with
  | ret a => exact IsPublished.interferes h hs
  | raise e => trivial
  | call op k =>
    rintro ans w' ⟨s'', hs'', hanswer, hlog⟩
    exact h ans w' ⟨s'', hs.trans hs'', hanswer, hlog⟩

namespace StatesInvariant

variable {s s' : CensusStore} {a a' : Attempt}

theorem start (plan : AttemptPlan) (hrows : s.ofAttempt plan.attemptId = {}) :
    StatesInvariant s { plan } := by
  have hnone : (s.ofAttempt plan.attemptId).attempts = [] := by rw [hrows]
  constructor
  case ordered => exact hnone ▸ .nil
  case verified => exact fun t ht => absurd (hnone ▸ ht) List.not_mem_nil
  case unhandled => exact fun _ _ => ⟨finished_ret, fun t ht => absurd (hnone ▸ ht) List.not_mem_nil⟩
  case handed => exact nofun
  case worker => exact nofun
  case publishes => exact fun h => absurd rfl h
  case returned => exact nofun

/-- Other writers do not touch the rows of the attempt. -/
theorem of_ofAttempt_eq (h : StatesInvariant s a)
    (hrows : s'.ofAttempt a.plan.attemptId = s.ofAttempt a.plan.attemptId) : StatesInvariant s' a where
  ordered := hrows ▸ h.ordered
  verified := hrows ▸ h.verified
  unhandled := hrows ▸ h.unhandled
  handed := h.handed
  worker := h.worker
  publishes hc := returns_published_interferes (h.publishes hc) (.of_eq hrows)
  returned hphase := (h.returned hphase).interferes (.of_eq hrows)

/-- The states of the attempt after one insert of its own. -/
theorem attempts_write {x : CensusWrite} (hx : x.Owned a.plan.attemptId) :
    (∃ row, x = .attemptState row ∧ ((s.write x).ofAttempt a.plan.attemptId).attempts =
      (s.ofAttempt a.plan.attemptId).attempts ++ [row]) ∨
    (∀ row, x ≠ .attemptState row) ∧ ((s.write x).ofAttempt a.plan.attemptId).attempts =
      (s.ofAttempt a.plan.attemptId).attempts := by
  rw [ofAttempt_write hx]
  cases x with
  | attemptState row => exact .inl ⟨row, rfl, rfl⟩
  | _ => exact .inr ⟨fun _ => nofun, rfl⟩

/-- After an insert: a state that was added keeps the order, and is no failed one behind the
coroutine's back. -/
theorem write (h : StatesInvariant s a) {x : CensusWrite} (hx : x.Owned a.plan.attemptId)
    (hstate : ∀ row, x = .attemptState row →
      (row.status = .started → a.collected = none) ∧
      (row.status = .verified → ∃ c, a.collected = some c ∧ IsVerified a.plan.base c.result row) ∧
      (row.status = .failed → a.phase = .closing ∨ a.phase = .raised)) :
    ((s.write x).ofAttempt a.plan.attemptId).attempts.Pairwise StartedFirst ∧
    (∀ t ∈ ((s.write x).ofAttempt a.plan.attemptId).attempts, t.status = .verified →
      ∃ c, a.collected = some c ∧ IsVerified a.plan.base c.result t) ∧
    (a.phase ≠ .closing → a.phase ≠ .raised →
      ∀ t ∈ ((s.write x).ofAttempt a.plan.attemptId).attempts, t.status ≠ .failed) := by
  rcases attempts_write (s := s) hx with ⟨row, rfl, hrows⟩ | ⟨-, hrows⟩
  · obtain ⟨hstarted, hverified, hfailed⟩ := hstate row rfl
    rw [hrows]
    refine ⟨List.pairwise_append.mpr ⟨h.ordered, List.pairwise_singleton _ _, ?_⟩, ?_, ?_⟩
    · intro t ht y hy hstatus hy'
      obtain rfl := List.mem_singleton.mp hy
      obtain ⟨c, hc, -⟩ := h.verified t ht hstatus
      exact absurd (hc.symm.trans (hstarted hy')) nofun
    · intro t ht hstatus
      rcases List.mem_append.mp ht with ht | ht
      · exact h.verified t ht hstatus
      · obtain rfl := List.mem_singleton.mp ht
        exact hverified hstatus
    · intro hclosing hraised t ht hstatus
      rcases List.mem_append.mp ht with ht | ht
      · exact (h.unhandled hclosing hraised).2 t ht hstatus
      · obtain rfl := List.mem_singleton.mp ht
        exact (hfailed hstatus).elim hclosing hraised
  · rw [hrows]
    exact ⟨h.ordered, h.verified, fun hclosing hraised => (h.unhandled hclosing hraised).2⟩

theorem openingCall (h : StatesInvariant s a) (ha : AttemptInvariant s a) {op : CensusOp}
    {k : CensusAns op → CensusProgram Unit} {ans : CensusAns op} (call : a.opening = .call op k)
    (answered : Answered op s ans s') : StatesInvariant s' { a with opening := k ans } := by
  have hopening : a.opening = insert (.attemptState a.plan.base.started) :=
    ha.opening.resolve_right fun hdone => hdone op k call
  have hnone : a.collected = none := by
    by_contra hsome
    exact ha.handedOver hsome op k call
  have hop : op = .write (.attemptState a.plan.base.started) := by
    rw [hopening] at call
    cases call
    rfl
  rcases answered.store_eq with rfl | ⟨x, hx, rfl⟩
  · exact { h with }
  · obtain rfl : x = .attemptState a.plan.base.started := by simpa [hop] using hx.symm
    obtain ⟨hordered, hverified, hfailed⟩ :=
      h.write (x := .attemptState a.plan.base.started) rfl fun row hrow => by
        cases hrow
        exact ⟨fun _ => hnone, nofun, nofun⟩
    exact {
      ordered := hordered
      verified := hverified
      unhandled := fun hclosing hraised =>
        ⟨(h.unhandled hclosing hraised).1, hfailed hclosing hraised⟩
      handed := h.handed
      worker := h.worker
      publishes := fun hc => absurd hnone hc
      returned := fun hphase => (h.returned hphase).write _ }

/-- The insert of the failed state is only there once the handler runs. -/
theorem closingCall (h : StatesInvariant s a) (ha : AttemptInvariant s a) {op : CensusOp}
    {k : CensusAns op → CensusProgram Unit} {ans : CensusAns op} (call : a.closing = .call op k)
    (answered : Answered op s ans s') : StatesInvariant s' { a with closing := k ans } := by
  have hclosing : a.closing = insert (.attemptState a.plan.base.failed) :=
    ha.closing.resolve_right fun hdone => hdone op k call
  have hphase : a.phase = .closing ∨ a.phase = .raised := by
    by_contra hneither
    obtain ⟨hne, hne'⟩ := not_or.mp hneither
    exact (h.unhandled hne hne').1 op k call
  have hop : op = .write (.attemptState a.plan.base.failed) := by
    rw [hclosing] at call
    cases call
    rfl
  have hhandled : ∀ P : Prop, a.phase ≠ .closing → a.phase ≠ .raised → P := fun P hne hne' =>
    absurd hphase (not_or.mpr ⟨hne, hne'⟩)
  rcases answered.store_eq with rfl | ⟨x, hx, rfl⟩
  · exact { h with unhandled := fun hne hne' => hhandled _ hne hne' }
  · obtain rfl : x = .attemptState a.plan.base.failed := by simpa [hop] using hx.symm
    obtain ⟨hordered, hverified, -⟩ :=
      h.write (x := .attemptState a.plan.base.failed) rfl fun row hrow => by
        cases hrow
        exact ⟨nofun, nofun, fun _ => hphase⟩
    have hinterferes := interferes_failed a.plan.base s
    exact {
      ordered := hordered
      verified := hverified
      unhandled := fun hne hne' => hhandled _ hne hne'
      handed := h.handed
      worker := h.worker
      publishes := fun hc => returns_published_interferes (h.publishes hc) hinterferes
      returned := fun hreturned => (h.returned hreturned).interferes hinterferes }

theorem workerCall (h : StatesInvariant s a) (ha : AttemptInvariant s a) {op : CensusOp}
    {k : CensusAns op → CensusProgram Unit} {ans : CensusAns op} (call : a.worker = .call op k)
    (answered : Answered op s ans s') :
    StatesInvariant s' { a with worker := k ans, log := a.log ++ [⟨op, ans⟩] } := by
  rcases Option.eq_none_or_eq_some a.collected with hc | ⟨c, hc⟩
  · exact absurd call ((ha.idle hc).2.1 op k)
  have hasks := h.worker c hc
  rw [call] at hasks
  have hsome : a.collected ≠ none := fun hnone => absurd (hnone.symm.trans hc) nofun
  have hpublishes := h.publishes hsome
  rw [call] at hpublishes
  have hnext := (hpublishes ans ⟨s', a.log ++ [⟨op, ans⟩]⟩ ⟨s, .refl _ _, answered, rfl⟩).2
  have hworker : ∀ c', a.collected = some c' →
      Asks (StoresOnly (IsVerified a.plan.base c'.result)) (k ans) := by
    intro c' hc'
    obtain rfl : c = c' := Option.some.inj (hc.symm.trans hc')
    exact hasks.2 ans
  rcases answered.store_eq with rfl | ⟨x, rfl, rfl⟩
  · exact { h with worker := hworker, publishes := fun _ => hnext }
  · have hown : x.Owned a.plan.attemptId := by
      obtain ⟨-, hinvariant, -⟩ := ha.workerCall call answered
      exact (hinvariant.gate c hc).1.1 ⟨.write x, ans⟩ (by simp)
    obtain ⟨hordered, hverified, hfailed⟩ := h.write hown fun row hrow => by
      have hstate : IsVerified a.plan.base c.result row := hasks.1 row (by rw [hrow])
      obtain ⟨digest, -, rfl⟩ := id hstate
      exact ⟨nofun, fun _ => ⟨c, hc, hstate⟩, nofun⟩
    exact {
      ordered := hordered
      verified := hverified
      unhandled := fun hne hne' => ⟨(h.unhandled hne hne').1, hfailed hne hne'⟩
      handed := h.handed
      worker := hworker
      publishes := fun _ => hnext
      returned := fun hreturned => (h.returned hreturned).write _ }

/-- The worker is handed what was collected, and has stored nothing yet. -/
theorem collected (h : StatesInvariant s a) (ha : AttemptInvariant s a)
    (phase : a.phase = .collecting) (c : Collected a.plan.job a.plan.target) :
    StatesInvariant s
      { a with phase := .publishing, collected := some c, worker := a.plan.worker c } := by
  have hnone := ha.early (.inr phase)
  refine { h with
    verified := ?_
    unhandled := fun _ _ => h.unhandled (by simp [phase]) (by simp [phase])
    handed := fun _ => Option.some_ne_none c
    worker := ?_
    publishes := fun _ => returns_published_worker a.plan c _
    returned := nofun }
  · intro t ht hstatus
    obtain ⟨c', hc', -⟩ := h.verified t ht hstatus
    exact absurd (hnone.symm.trans hc') nofun
  · intro c' hc'
    obtain rfl := Option.some.inj hc'
    exact asks_worker a.plan c

theorem interrupt (h : StatesInvariant s a) : StatesInvariant s a.interrupt := by
  have hraised : StatesInvariant s { a with phase := .raised } :=
    { h with unhandled := fun _ hne => absurd rfl hne, handed := nofun, returned := nofun }
  have hhandled : StatesInvariant s a.handle :=
    { h with unhandled := fun hne _ => absurd rfl hne, handed := nofun, returned := nofun }
  cases hphase : a.phase <;> simp only [Attempt.interrupt, hphase]
  case collecting => exact hhandled
  case publishing => exact hhandled
  case returned => exact h
  case raised => exact h
  all_goals exact hraised

theorem step (h : StatesInvariant s a) (ha : AttemptInvariant s a) (hs : AttemptStep s a s' a') :
    StatesInvariant s' a' := by
  cases hs with
  | openingCall call answered => exact h.openingCall ha call answered
  | workerCall call answered => exact h.workerCall ha call answered
  | closingCall call answered => exact h.closingCall ha call answered
  | collected phase c => exact h.collected ha phase c
  | opened phase returned =>
    exact { h with
      unhandled := fun _ _ => h.unhandled (by simp [phase]) (by simp [phase])
      handed := nofun
      returned := nofun }
  | published phase returned =>
    have hpublished := h.publishes (h.handed phase)
    rw [returned] at hpublished
    exact { h with
      unhandled := fun _ _ => h.unhandled (by simp [phase]) (by simp [phase])
      handed := nofun
      returned := fun _ => hpublished }
  | closed phase returned =>
    exact { h with
      unhandled := fun _ hne => absurd rfl hne
      handed := nofun
      returned := nofun }
  | interrupted => exact h.interrupt

end StatesInvariant

/-! ## Every reachable state -/

namespace WorldInvariant

variable {s₀ : CensusStore} {w w' : CensusWorld}

/-- After a step of one attempt the others stand where they stood. -/
theorem mem_attempts (h : WorldInvariant s₀ w) {before after : List Attempt} {a a' b : Attempt}
    (split : w.attempts = before ++ a :: after) (hb : b ∈ before ++ a' :: after) :
    b = a' ∨ b ∈ w.attempts ∧ a.plan.attemptId ≠ b.plan.attemptId := by
  have hnodup := h.nodup
  rw [split, List.map_append, List.map_cons, List.nodup_append] at hnodup
  obtain ⟨-, hafter, hbefore⟩ := hnodup
  rw [List.mem_append, List.mem_cons] at hb
  rcases hb with hb | rfl | hb
  · exact .inr ⟨by simp [split, hb], (hbefore _ (List.mem_map_of_mem hb) _ List.mem_cons_self).symm⟩
  · exact .inl rfl
  · refine .inr ⟨by simp [split, hb], fun heq => (List.nodup_cons.mp hafter).1 ?_⟩
    rw [heq]
    exact List.mem_map_of_mem (f := fun a => a.plan.attemptId) hb

theorem states_step (h : WorldInvariant s₀ w) (ha : ∀ a ∈ w.attempts, StatesInvariant w.store a)
    (hs : CensusStep w w') : ∀ a ∈ w'.attempts, StatesInvariant w'.store a := by
  cases hs with
  | start plan fresh =>
    intro a hmem
    rcases List.mem_append.mp hmem with hmem | hmem
    · exact ha a hmem
    · obtain rfl := List.mem_singleton.mp hmem
      exact .start plan (h.rows _ fresh)
  | attempt split step =>
    intro b hb
    rename_i before after a a' s
    have hmem : a ∈ w.attempts := by simp [split]
    obtain ⟨-, -, hother⟩ := (h.attempts a hmem).step step
    rcases h.mem_attempts split hb with rfl | ⟨hb, hne⟩
    · exact (ha a hmem).step (h.attempts a hmem) step
    · exact (ha b hb).of_ofAttempt_eq (hother _ hne)
  | registerConfigs rows => exact fun a hmem => (ha a hmem).of_ofAttempt_eq rfl
  | insertAnchor row => exact fun a hmem => (ha a hmem).of_ofAttempt_eq rfl
  | targetFailure row fresh =>
    intro a hmem
    refine (ha a hmem).of_ofAttempt_eq (@ofAttempt_write_other _ row.scope.attemptId _ ?_ ?_ _)
    · exact fun r hr => by rw [List.mem_singleton.mp hr]
    · exact fun heq => fresh (heq ▸ h.used a hmem)

end WorldInvariant

theorem states_reachable {w₀ w : CensusWorld} (init : w₀.Initial)
    (reach : Relation.ReflTransGen CensusStep w₀ w) : ∀ a ∈ w.attempts, StatesInvariant w.store a := by
  induction reach with
  | refl => exact fun a ha => absurd (init.attempts ▸ ha) List.not_mem_nil
  | tail reach hs ih => exact ((WorldInvariant.initial init).reachable reach).states_step ih hs

/-! ## What returned stays -/

theorem AttemptStep.returned_stays {s s' : CensusStore} {a a' : Attempt} (h : AttemptStep s a s' a')
    (hreturned : a.phase = .returned) : a'.phase = .returned := by
  cases h with
  | openingCall call answered => exact hreturned
  | workerCall call answered => exact hreturned
  | closingCall call answered => exact hreturned
  | opened phase returned => exact absurd (hreturned.symm.trans phase) (by simp)
  | collected phase c => exact absurd (hreturned.symm.trans phase) (by simp)
  | published phase returned => rfl
  | closed phase returned => exact absurd (hreturned.symm.trans phase) (by simp)
  | interrupted =>
    rw [Attempt.interrupt, hreturned]
    exact hreturned

/-- A step keeps the publications, and an attempt that returned. -/
theorem CensusStep.keeps {w w' : CensusWorld} (h : CensusStep w w')
    (hw : ∀ a ∈ w.attempts, AttemptInvariant w.store a) :
    (∀ p ∈ w.store.publications, p ∈ w'.store.publications) ∧
      ∀ a ∈ w.attempts, a.phase = .returned →
        ∃ a' ∈ w'.attempts, a'.plan = a.plan ∧ a'.phase = .returned := by
  cases h with
  | registerConfigs rows => exact ⟨fun _ h => h, fun a ha hphase => ⟨a, ha, rfl, hphase⟩⟩
  | insertAnchor row => exact ⟨fun _ h => h, fun a ha hphase => ⟨a, ha, rfl, hphase⟩⟩
  | targetFailure row fresh => exact ⟨fun _ h => h, fun a ha hphase => ⟨a, ha, rfl, hphase⟩⟩
  | start plan fresh =>
    exact ⟨fun _ h => h, fun a ha hphase => ⟨a, List.mem_append_left _ ha, rfl, hphase⟩⟩
  | @attempt before after b b' s split step =>
    constructor
    · intro p hp
      rcases step.store_eq (hw b (by simp [split])) with rfl | ⟨x, -, rfl⟩
      · exact hp
      · exact publications_write x hp
    · intro a ha hphase
      rw [split, List.mem_append, List.mem_cons] at ha
      rcases ha with ha | rfl | ha
      · exact ⟨a, by simp [ha], rfl, hphase⟩
      · exact ⟨b', by simp, step.plan_eq, step.returned_stays hphase⟩
      · exact ⟨a, by simp [ha], rfl, hphase⟩

/-- The current state of an attempt that returned is the one its publication matches. -/
theorem StatesInvariant.current {s : CensusStore} {a : Attempt} (h : StatesInvariant s a)
    (ha : AttemptInvariant s a) (hreturned : a.phase = .returned) :
    ∃ p, (s.ofAttempt a.plan.attemptId).publications = [p] ∧ p.target = a.plan.base.target ∧
      (∃ t ∈ s.attemptsCurrent, t.toAttemptBase = a.plan.base ∧ AttemptMatches p t) ∧
      ∀ e ∈ s.errors, e.scope.attemptId ≠ a.plan.attemptId := by
  obtain ⟨c, tables, p, hc, hgated⟩ := ha.gated (h.returned hreturned)
  obtain ⟨t, ht, hbase, hmatch⟩ := hgated.verifiedState
  refine ⟨p, hgated.publications, hgated.target, ?_, hgated.errors⟩
  obtain ⟨hmem, hid⟩ := List.mem_filter.mp ht
  obtain ⟨last, hlast, hkey⟩ : ∃ last ∈ s.attemptsCurrent, last.key = t.key := exists_final hmem
  refine ⟨last, hlast, ?_⟩
  -- The last state of the key is a state of the attempt, stored at or after `t`: it is verified.
  have hlastId : last.attemptId = a.plan.attemptId :=
    (congrArg Prod.snd hkey).trans (of_decide_eq_true hid)
  have hown : last ∈ (s.ofAttempt a.plan.attemptId).attempts :=
    List.mem_filter.mpr ⟨mem_of_mem_final hlast, decide_eq_true hlastId⟩
  have hstatus : last.status = .verified := by
    obtain ⟨earlier, later, hrows, hlater⟩ := mem_final_iff.mp hlast
    rw [hrows, List.mem_append, List.mem_cons] at hmem
    rcases hmem with hmem | rfl | hmem
    · have hordered := h.ordered
      rw [CensusStore.ofAttempt, hrows, List.filter_append, List.pairwise_append] at hordered
      have hstarted := hordered.2.2 t (List.mem_filter.mpr ⟨hmem, hid⟩) last
        (List.mem_filter.mpr ⟨List.mem_cons_self, decide_eq_true hlastId⟩) hmatch.status
      have hfailed := (h.unhandled (by simp [hreturned]) (by simp [hreturned])).2 last hown
      cases hlaststatus : last.status with
      | started => exact absurd hlaststatus hstarted
      | failed => exact absurd hlaststatus hfailed
      | verified => rfl
    · exact hmatch.status
    · exact absurd hkey.symm (hlater _ hmem)
  -- All verified states of the attempt are the one that follows from what it collected.
  obtain ⟨c₁, hc₁, d₁, hd₁, hrow₁⟩ := h.verified last hown hstatus
  obtain ⟨c₂, hc₂, d₂, hd₂, hrow₂⟩ := h.verified t ht hmatch.status
  obtain rfl : c₁ = c₂ := Option.some.inj (hc₁.symm.trans hc₂)
  obtain rfl : d₁ = d₂ := Except.ok.inj (hd₁.symm.trans hd₂)
  rw [hrow₁, ← hrow₂]
  exact ⟨hbase, hmatch⟩

theorem returned_eligible_iff {w₀ w : CensusWorld} (init : w₀.Initial)
    (reach : Relation.ReflTransGen CensusStep w₀ w) {a : Attempt} (ha : a ∈ w.attempts)
    (hreturned : a.phase = .returned) :
    ∃ p ∈ w.store.publications, p.attemptId = a.plan.attemptId ∧ p.target = a.plan.base.target ∧
      ∀ w', Relation.ReflTransGen CensusStep w w' → p ∈ w'.store.publications ∧
        (w'.store.Eligible p ↔
          (∃ c ∈ w'.store.currentConfig (a.plan.base.chainId, a.plan.base.jobName,
            a.plan.base.targetKind, a.plan.base.targetAddress), a.plan.base.configHash = c.configHash) ∧
          ∃ anchor ∈ w'.store.canonicalAnchor a.plan.base.chainId a.plan.base.snapshotDate,
            a.plan.base.anchorBlock = anchor.blockNumber ∧
              a.plan.base.anchorHash = anchor.blockHash) := by
  have hw := (WorldInvariant.initial init).reachable reach
  obtain ⟨p, hp, htarget, -⟩ :=
    (states_reachable init reach a ha).current (hw.attempts a ha) hreturned
  have hmem : p ∈ (w.store.ofAttempt a.plan.attemptId).publications := hp ▸ List.mem_singleton_self p
  obtain ⟨hstored, hid⟩ := List.mem_filter.mp hmem
  refine ⟨p, hstored, of_decide_eq_true hid, htarget, fun w' later => ?_⟩
  -- In every later state the attempt has returned and the publication is stored.
  have hlater : p ∈ w'.store.publications ∧
      ∃ b ∈ w'.attempts, b.plan = a.plan ∧ b.phase = .returned := by
    induction later with
    | refl => exact ⟨hstored, a, ha, rfl, hreturned⟩
    | tail hrun hstep ih =>
      obtain ⟨hkept, b, hb, hplan, hphase⟩ := ih
      have hinvariant := (WorldInvariant.initial init).reachable (reach.trans hrun)
      obtain ⟨hpublications, hattempts⟩ := hstep.keeps hinvariant.attempts
      obtain ⟨b', hb', hplan', hphase'⟩ := hattempts b hb hphase
      exact ⟨hpublications p hkept, b', hb', hplan'.trans hplan, hphase'⟩
  obtain ⟨hkept, b, hb, hplan, hphase⟩ := hlater
  have hw' := (WorldInvariant.initial init).reachable (reach.trans later)
  have hb' := hw'.attempts b hb
  obtain ⟨q, hq, -, hattempt, herrors⟩ :=
    (states_reachable init (reach.trans later) b hb).current hb' hphase
  obtain rfl : p = q := by
    have hmem' : p ∈ (w'.store.ofAttempt b.plan.attemptId).publications :=
      List.mem_filter.mpr ⟨hkept, hplan ▸ hid⟩
    exact List.mem_singleton.mp (hq ▸ hmem')
  refine ⟨hkept, ?_⟩
  obtain ⟨t, ht, hbase, hmatch⟩ := hattempt
  have hconfig : p.configHash = a.plan.base.configHash := by rw [hmatch.configHash, ← hplan, ← hbase]
  have hblock : p.anchorBlock = a.plan.base.anchorBlock := by rw [hmatch.anchorBlock, ← hplan, ← hbase]
  have hhash : p.anchorHash = a.plan.base.anchorHash := by rw [hmatch.anchorHash, ← hplan, ← hbase]
  have hchain : p.chainId = a.plan.base.chainId := congrArg TargetKey.chainId htarget
  have hjob : p.jobName = a.plan.base.jobName := congrArg TargetKey.jobName htarget
  have hkind : p.targetKind = a.plan.base.targetKind := congrArg TargetKey.targetKind htarget
  have haddress : p.targetAddress = a.plan.base.targetAddress :=
    congrArg TargetKey.targetAddress htarget
  have hdate : p.snapshotDate = a.plan.base.snapshotDate := congrArg TargetKey.snapshotDate htarget
  rw [← hconfig, ← hblock, ← hhash, ← hchain, ← hjob, ← hkind, ← haddress, ← hdate]
  constructor
  · exact fun heligible => ⟨heligible.config, heligible.anchor⟩
  · rintro ⟨hc, hanchor⟩
    refine ⟨hc, hanchor, ⟨t, ht, hmatch⟩, fun e he heq => ?_⟩
    exact herrors e (mem_of_mem_final he) (heq.trans ((of_decide_eq_true hid).trans (by rw [hplan])))

/-- An attempt whose worker has ended, once its coroutine resumed. -/
def soloReturned (used : List Uuid) (plan : AttemptPlan) (result : Collected plan.job plan.target)
    (c : CensusProgram Unit × AttemptWorld) : CensusWorld :=
  ⟨c.2.store, used, [{ running plan c result with phase := .returned }]⟩

theorem step_returned (used : List Uuid) (plan : AttemptPlan) (result : Collected plan.job plan.target)
    {c : CensusProgram Unit × AttemptWorld} (h : c.1 = .ret ()) :
    CensusStep (solo used (handedOver plan result) c) (soloReturned used plan result c) :=
  solo_step (a := running plan c result) (.published rfl h)

def sampleReturned : CensusWorld := soloReturned ["attempt"] samplePlan sampleCollected (sampleWorker 7)

/-- Seven operations are all there are. -/
theorem sampleWorker_returned : (sampleWorker 7).1 = .ret () := by
  have hended : (match (sampleWorker 7).1 with
      | .ret _ => true
      | _ => false) = true := by decide +kernel
  cases hworker : (sampleWorker 7).1 with
  | ret a => rfl
  | raise e => simp [hworker] at hended
  | call op k => simp [hworker] at hended

theorem sampleReturned_reaches :
    Relation.ReflTransGen CensusStep ⟨sampleCensusStore, [], []⟩ sampleReturned :=
  (sampleWorld_reaches 7).tail
    (step_returned ["attempt"] samplePlan sampleCollected sampleWorker_returned)

theorem returned_eligible_iff_sample :
    ∃ p ∈ sampleReturned.store.publications, p.attemptId = "attempt" ∧
      sampleReturned.store.Eligible p := by
  obtain ⟨p, hp, hid, -, hlater⟩ := returned_eligible_iff sampleCensusStore_initial
    sampleReturned_reaches List.mem_cons_self rfl
  refine ⟨p, hp, hid, (hlater sampleReturned .refl).2.mpr ?_⟩
  rw [sampleReturned, soloReturned, sampleWorker_store]
  exact ⟨⟨_, rfl, rfl⟩, _, rfl, rfl, rfl⟩

end RpcStateIndexer
