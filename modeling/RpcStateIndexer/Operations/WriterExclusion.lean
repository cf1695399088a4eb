import RpcStateIndexer.Operations.WriterGuard

/-!
# Mutual exclusion of writers

A process announces itself before its second query, and its row stays active until a released beat
replaces it.  Of two processes that are both past their second query, the one that asked later saw
the row of the other.
-/

namespace RpcStateIndexer

open Reasoning Program

/-- How far a process has come; `astray` is where no process ever gets. -/
inductive GuardStage where
  | idle
  | announced
  | refused
  | holding
  | leaving
  | released
  | astray
  deriving DecidableEq

namespace WriterGuard

variable (g : WriterGuard)

/-- The process runs under the same lock: of one chain, and of one class. -/
def SameLock (g' : WriterGuard) : Prop :=
  g.chainId = g'.chainId ∧ g.discoveryScope = g'.discoveryScope

/-- A row that this process writes. -/
def Owns (row : HeartbeatRow) : Prop :=
  row.chainId = g.chainId ∧ row.processId = g.processId ∧ row.operation = g.operation

instance (row : HeartbeatRow) : Decidable (g.Owns row) :=
  inferInstanceAs (Decidable (_ ∧ _ ∧ _))

theorem owns_row (heartbeatAt : Nat) (state : String) : g.Owns (g.row heartbeatAt state) :=
  ⟨rfl, rfl, rfl⟩

theorem isActive_row (heartbeatAt : Nat) : (g.row heartbeatAt "active").IsActive := rfl

theorem not_isActive_row (heartbeatAt : Nat) : ¬ (g.row heartbeatAt "released").IsActive := by
  show ¬ HeartbeatRow.details "released" = HeartbeatRow.details "active"
  decide

/-- The stage after an answered beat. -/
def beatStage (stage : GuardStage) (row : HeartbeatRow) (landed : Bool) : GuardStage :=
  if ¬ g.Owns row then .astray
  else match stage with
    -- a first beat that raised leaves the process unannounced, also where it landed
    | .idle => if row.IsActive ∧ landed then .announced else .idle
    | .announced => .astray
    | .refused => if row.IsActive then .astray else .refused
    | .holding => if row.IsActive then .holding else if landed then .released else .leaving
    | .leaving => if row.IsActive then .astray else if landed then .released else .leaving
    | .released => .astray
    | .astray => .astray

/-- The stage after an answered query. -/
def queryStage (stage : GuardStage) (own : Bool) : Except String (List Nat) → GuardStage
  | .ok after =>
    if stage ≠ .announced then stage
    else if !own then .astray
    else if after.any fun process => process ≠ g.processId then .refused
    else .holding
  | .error _ => if stage = .announced then .refused else stage

def move (stage : GuardStage) : (op : GuardOp) → GuardAns op → GuardStage
  | .freshWriterProcesses chainId staleSeconds scope, answer => g.queryStage stage
      (chainId = g.chainId && staleSeconds = g.staleSeconds && scope = g.discoveryScope) answer
  | .heartbeat row, answer => g.beatStage stage row (Except.isOk answer)
  | .utcNow, _ => stage
  | .setAcquired _, _ => stage
  | .acquired, _ => stage
  | .stopTask, _ => stage

/-! ## The stages of a session -/

/-- Safety over the stages of one process. -/
abbrev Stays {α : Type} (Q : Except GuardException α → GuardStage → Prop) (p : GuardProgram α)
    (stage : GuardStage) : Prop :=
  Safe (Parties.staged g.move) (fun stage => stage ≠ .astray) Q p stage

variable {g} {α : Type} {Q : Except GuardException α → GuardStage → Prop} {stage : GuardStage}

theorem stays_call {op : GuardOp} {k : GuardAns op → GuardProgram α}
    (next : GuardAns op → GuardStage) (hnext : ∀ a, g.move stage op a = next a)
    (h : ∀ a, next a ≠ .astray ∧ g.Stays Q (k a) (next a)) : g.Stays Q (.call op k) stage := by
  rintro a _ rfl
  rw [hnext a]
  exact h a

theorem stays_heartbeat {row : HeartbeatRow} {k : Except String Unit → GuardProgram α}
    (h : ∀ landed, g.beatStage stage row landed ≠ .astray)
    (hk : ∀ answer, g.Stays Q (k answer) (g.beatStage stage row answer.isOk)) :
    g.Stays Q (.call (.heartbeat row) k) stage :=
  stays_call (fun answer : Except String Unit => g.beatStage stage row answer.isOk) (fun _ => rfl)
    fun answer => ⟨h _, hk answer⟩

theorem stays_queryFresh {k : List Nat → GuardProgram α}
    (h : ∀ answer, g.queryStage stage true answer ≠ .astray)
    (hok : ∀ active, g.Stays Q (k active) (g.queryStage stage true (.ok active)))
    (herror : ∀ kind, Q (.error (.store kind)) (g.queryStage stage true (.error kind))) :
    g.Stays Q (g.queryFresh >>= k) stage := by
  apply stays_call (g.queryStage stage true) (by simp [move])
  rintro (kind | active)
  · exact ⟨h _, herror kind⟩
  · exact ⟨h _, hok active⟩

theorem stays_write {k : Unit → GuardProgram α} {heartbeatAt : Nat} {state : String}
    (h : ∀ landed, g.beatStage stage (g.row heartbeatAt state) landed ≠ .astray)
    (hok : g.Stays Q (k ()) (g.beatStage stage (g.row heartbeatAt state) true))
    (herror : ∀ kind,
      Q (.error (.store kind)) (g.beatStage stage (g.row heartbeatAt state) false)) :
    g.Stays Q (g.write heartbeatAt state >>= k) stage := by
  apply stays_heartbeat h
  rintro (kind | ⟨⟩)
  · exact herror kind
  · exact hok

theorem stays_setAcquired {k : Unit → GuardProgram α} {acquired : Bool} (h : stage ≠ .astray)
    (hk : g.Stays Q (k ()) stage) : g.Stays Q (setAcquired acquired >>= k) stage :=
  stays_call (fun _ => stage) (fun _ => rfl) fun _ => ⟨h, hk⟩

theorem stays_utcNow {k : Nat → GuardProgram α} (h : stage ≠ .astray)
    (hk : ∀ now, g.Stays Q (k now) stage) : g.Stays Q (utcNow >>= k) stage :=
  stays_call (fun _ => stage) (fun _ => rfl) fun now => ⟨h, hk now⟩

theorem beatStage_active (now : Nat) (landed : Bool) : g.beatStage stage (g.row now "active") landed =
    match stage with
    | .idle => if landed then .announced else .idle
    | .holding => .holding
    | _ => .astray := by
  cases stage <;> simp [beatStage, owns_row, isActive_row]

theorem beatStage_released (landed : Bool) : g.beatStage stage (g.row 0 "released") landed =
    match stage with
    | .idle => .idle
    | .refused => .refused
    | .holding | .leaving => if landed then .released else .leaving
    | _ => .astray := by
  cases stage <;> simp [beatStage, owns_row, not_isActive_row]

/-- A refused process that backs out stays refused. -/
theorem stays_backOut :
    g.Stays (fun r stage => r.isOk = false ∧ stage = .refused) g.backOut .refused := by
  have hbeat : ∀ landed, g.beatStage .refused (g.row 0 "released") landed = .refused :=
    fun landed => beatStage_released landed
  apply stays_heartbeat
  · intro landed
    rw [hbeat]
    decide
  · rintro (kind | ⟨⟩)
    · rw [hbeat]
      exact stays_setAcquired (by decide) ⟨rfl, rfl⟩
    · rw [hbeat]
      exact stays_setAcquired (by decide) ⟨rfl, rfl⟩

theorem stays_confirm :
    g.Stays (fun r stage => if r.isOk then stage = .holding else stage = .refused) g.confirm
      .announced := by
  have hquery : ∀ after, g.queryStage .announced true (.ok after) =
      if after.any fun process => process ≠ g.processId then .refused else .holding := fun _ => rfl
  apply stays_queryFresh
  · rintro (kind | after)
    · show GuardStage.refused ≠ .astray
      decide
    · rw [hquery]
      split <;> decide
  · intro after
    rw [hquery]
    by_cases hothers : (after.any fun process => process ≠ g.processId) = true
    · rw [if_pos hothers, if_pos hothers]
      apply stays_backOut.mono (fun _ h => h)
      rintro r stage ⟨hraised, hstage⟩
      rw [if_neg (by simp [hraised])]
      exact hstage
    · rw [if_neg hothers, if_neg hothers]
      rfl
  · intro kind
    rfl

/-- `acquire` returns where the process holds the lock and nowhere else. -/
theorem stays_acquire :
    g.Stays (fun r stage => if r.isOk then stage = .holding else stage = .idle ∨ stage = .refused)
      g.acquire .idle := by
  apply stays_queryFresh
  · rintro (kind | active)
    · show GuardStage.idle ≠ .astray
      decide
    · show GuardStage.idle ≠ .astray
      decide
  · intro active
    show g.Stays _ _ .idle
    by_cases hactive : active ≠ []
    · rw [if_pos hactive]
      exact .inl rfl
    · rw [if_neg hactive]
      apply stays_utcNow (by decide)
      intro now
      apply stays_write
      · intro landed
        rw [beatStage_active]
        cases landed <;> decide
      · rw [beatStage_active]
        apply stays_setAcquired (by decide)
        apply stays_confirm.mono (fun _ h => h)
        intro r stage h
        by_cases hok : r.isOk = true
        · rw [if_pos hok] at h ⊢
          exact h
        · rw [if_neg hok] at h ⊢
          exact .inr h
      · intro kind
        rw [beatStage_active]
        exact .inl rfl
  · intro kind
    exact .inl rfl

theorem stays_heartbeatLoop (beats : Nat) :
    g.Stays (fun _ stage => stage = .holding) (g.heartbeatLoop beats) .holding := by
  induction beats with
  | zero => rfl
  | succ beats ih =>
    apply stays_utcNow (by decide)
    intro now
    have hbeat : ∀ landed, g.beatStage .holding (g.row now "active") landed = .holding :=
      fun landed => beatStage_active now landed
    apply stays_heartbeat
    · intro landed
      rw [hbeat]
      decide
    · intro answer
      rw [hbeat]
      exact ih

/-- Where a process may be when it writes a released beat. -/
def MayLeave (stage : GuardStage) : Prop :=
  stage = .idle ∨ stage = .refused ∨ stage = .holding ∨ stage = .leaving

theorem MayLeave.ne_astray (h : MayLeave stage) : stage ≠ .astray := by
  rcases h with rfl | rfl | rfl | rfl <;> decide

theorem MayLeave.beat (h : MayLeave stage) (g : WriterGuard) :
    g.beatStage stage (g.row 0 "released") true ≠ .astray ∧
      MayLeave (g.beatStage stage (g.row 0 "released") false) := by
  rw [beatStage_released, beatStage_released]
  rcases h with rfl | rfl | rfl | rfl <;> exact ⟨by decide, by simp [MayLeave]⟩

theorem stays_writeReleased (attempts : Nat) (h : MayLeave stage) :
    g.Stays (fun _ stage => stage ≠ .astray) (g.writeReleased attempts) stage := by
  induction attempts generalizing stage with
  | zero => exact h.ne_astray
  | succ attempts ih =>
    obtain ⟨hlanded, hfailed⟩ := h.beat g
    apply stays_heartbeat
    · intro landed
      cases landed with
      | true => exact hlanded
      | false => exact hfailed.ne_astray
    · rintro (kind | ⟨⟩)
      · show g.Stays _ (if attempts = 0 then _ else _) _
        by_cases hlast : attempts = 0
        · rw [if_pos hlast]
          exact hfailed.ne_astray
        · rw [if_neg hlast]
          exact ih hfailed
      · exact hlanded

theorem stays_withdraw (h : MayLeave stage) :
    g.Stays (fun _ stage => stage ≠ .astray) g.withdraw stage := by
  refine stays_call (fun _ => stage) (fun _ => rfl) fun acquired => ⟨h.ne_astray, ?_⟩
  cases acquired with
  | false => exact h.ne_astray
  | true =>
    apply safe_bind.mpr
    apply (stays_writeReleased 5 h).mono (fun _ h => h)
    rintro (e | failure) stage' hstage'
    · exact hstage'
    · exact stays_setAcquired hstage' hstage'

theorem stays_release (h : MayLeave stage) : g.Stays (fun _ _ => True) g.release stage := by
  refine stays_call (fun _ => stage) (fun _ => rfl) fun taskFailure => ⟨h.ne_astray, ?_⟩
  apply safe_bind.mpr
  apply (stays_withdraw h).mono (fun _ h => h)
  rintro (e | releaseFailure) stage' hstage'
  · trivial
  · show Safe _ _ _ (ofExcept (cleanup _)) _
    cases cleanup (Option.toList taskFailure ++ releaseFailure.toList) <;> trivial

/-- Whatever the answers, no process strays from its stages. -/
theorem stays_session (beats : Nat) : g.Stays (fun _ _ => True) (g.session beats) .idle := by
  apply safe_bind.mpr
  apply safe_outcome.mpr
  apply stays_acquire.mono (fun _ h => h)
  intro r stage hstage
  cases r with
  | ok _ =>
    obtain rfl : stage = .holding := hstage
    apply safe_bind.mpr
    apply (stays_heartbeatLoop beats).mono (fun _ h => h)
    rintro (e | ⟨⟩) stage' rfl
    · trivial
    · exact stays_release (.inr (.inr (.inl rfl)))
  | error e =>
    have hidle : stage = .idle ∨ stage = .refused := hstage
    apply safe_bind.mpr
    apply (stays_release (hidle.imp_right .inl)).mono (fun _ h => h)
    rintro (e' | ⟨⟩) stage' -
    · trivial
    · trivial

/-! ## What a stage says of the last operation -/

theorem stage_of_beat {row : HeartbeatRow} {landed : Bool} {next : GuardStage}
    (h : g.beatStage stage row landed = next) :
    (next ≠ .astray → g.Owns row) ∧
    (next = .announced → row.IsActive ∧ landed = true) ∧
    (next = .holding → row.IsActive ∧ stage = .holding) ∧
    (next = .leaving → ¬ row.IsActive ∧ landed = false ∧ (stage = .holding ∨ stage = .leaving)) := by
  subst h
  by_cases howns : g.Owns row
  · by_cases hactive : row.IsActive <;> cases stage <;> cases landed <;>
      simp [beatStage, howns, hactive]
  · simp [beatStage, howns]

theorem stage_of_query {own : Bool} {answer : Except String (List Nat)} {next : GuardStage}
    (h : g.queryStage stage own answer = next) :
    next ≠ .announced ∧ (next = .leaving → stage = .leaving) ∧
    (next = .holding → stage = .holding ∨ stage = .announced ∧ own = true ∧
      ∃ after, answer = .ok after ∧ ∀ process ∈ after, process = g.processId) := by
  subst h
  cases answer with
  | error kind => cases stage <;> simp [queryStage]
  | ok after =>
    rw [queryStage]
    by_cases hstage : stage = .announced
    · rw [if_neg (not_not.mpr hstage)]
      cases own with
      | false => simp
      | true =>
        by_cases hothers : (after.any fun process => process ≠ g.processId) = true
        · rw [if_neg (by simp), if_pos hothers]
          simp
        · rw [if_neg (by simp), if_neg hothers]
          refine ⟨by decide, nofun, fun _ => .inr ⟨hstage, rfl, after, rfl, ?_⟩⟩
          simpa using hothers
    · rw [if_pos hstage]
      exact ⟨hstage, id, .inl⟩

end WriterGuard

/-! ## Processes over one table -/

/-- Every guard draws a `process_id` of its own. -/
structure Fleet (P : Type) where
  guard : P → WriterGuard
  processId_inj : Function.Injective fun p => (guard p).processId

/-- The heartbeat table and the clock of its server, and for each process the flag of its guard and
whether the process has died. -/
structure GuardWorld (P : Type) where
  clock : Nat
  beats : List HeartbeatRow
  acquired : P → Bool
  crashed : P → Bool

namespace Fleet

variable {P : Type} (fleet : Fleet P)

/-- The table after an insert that was answered; one that raised may have landed. -/
inductive Inserts (beats : List HeartbeatRow) (row : HeartbeatRow) :
    Except String Unit → List HeartbeatRow → Prop
  | landed : Inserts beats row (.ok ()) (beats ++ [row])
  | landedRaising (kind : String) : Inserts beats row (.error kind) (beats ++ [row])
  | lost (kind : String) : Inserts beats row (.error kind) beats

def Answers [DecidableEq P] (p : P) : (op : GuardOp) → GuardWorld P → GuardAns op → GuardWorld P → Prop
  | .freshWriterProcesses chainId staleSeconds scope, w, answer, w' =>
    (answer = .ok (freshWriterProcesses w.beats w.clock chainId staleSeconds scope) ∨
      ∃ kind, answer = .error kind) ∧ w' = w
  | .heartbeat row, w, answer, w' => ∃ beats, Inserts w.beats row answer beats ∧ w' = { w with beats }
  | .utcNow, w, _, w' => w' = w
  | .setAcquired acquired, w, _, w' =>
    w' = { w with acquired := Function.update w.acquired p acquired }
  | .acquired, w, answer, w' => answer = w.acquired p ∧ w' = w
  | .stopTask, w, _, w' => w' = w

def env [DecidableEq P] (p : P) (op : GuardOp) (w : GuardWorld P) (answer : GuardAns op) (w' : GuardWorld P) : Prop :=
  w.crashed p = false ∧ Answers p op w answer w'

inductive Ambient [DecidableEq P] : GuardWorld P → GuardWorld P → Prop
  | tick (w : GuardWorld P) (clock : Nat) : Ambient w { w with clock }
  | crash (w : GuardWorld P) (p : P) :
    Ambient w { w with crashed := Function.update w.crashed p true }

/-- The row that stands for the process in the merged table is an active beat. -/
def Announces (w : GuardWorld P) (p : P) : Prop :=
  ∃ row ∈ final HeartbeatRow.key w.beats, row.key = (fleet.guard p).key ∧ row.IsActive

/-- Active beats stay fresh, for everybody who may look at them. -/
def BeatsFresh (stage : P → GuardStage) (w : GuardWorld P) : Prop :=
  ∀ p, w.crashed p = false →
    stage p = .announced ∨ stage p = .holding ∨ stage p = .leaving →
    ∀ row ∈ final HeartbeatRow.key w.beats, row.key = (fleet.guard p).key → row.IsActive →
    ∀ q, (fleet.guard q).SameLock (fleet.guard p) →
      w.clock ≤ row.heartbeatAt + (fleet.guard q).staleSeconds

/-- The process is past a successful acquire, and no released beat of it has landed. -/
def Holds (stage : P → GuardStage) (w : GuardWorld P) (p : P) : Prop :=
  w.crashed p = false ∧ (stage p = .holding ∨ stage p = .leaving) ∧ fleet.Announces w p

abbrev System (P : Type) := Parties P GuardOp GuardAns GuardException Unit GuardStage (GuardWorld P)

/-- Every process is about to run a session, with the beats it may get to. -/
def start (beats : P → Nat) (clock : Nat) : System P where
  program p := (fleet.guard p).session (beats p)
  stage _ := .idle
  world := ⟨clock, [], fun _ => false, fun _ => false⟩

abbrev Run [DecidableEq P] : System P → System P → Prop :=
  Parties.Run fleet.BeatsFresh env (fun p => (fleet.guard p).move) Ambient

variable {fleet}

theorem key_ne {p q : P} (h : p ≠ q) : (fleet.guard p).key ≠ (fleet.guard q).key := by
  intro hkey
  exact h (fleet.processId_inj (Prod.mk.inj hkey).2)

theorem key_of_owns {p : P} {row : HeartbeatRow} (h : (fleet.guard p).Owns row) :
    row.key = (fleet.guard p).key := by
  rw [HeartbeatRow.key, h.1, h.2.1]
  rfl

theorem announces_insert_other {w : GuardWorld P} {p q : P} {row : HeartbeatRow}
    (howns : (fleet.guard p).Owns row) (hne : q ≠ p) :
    fleet.Announces { w with beats := w.beats ++ [row] } q ↔ fleet.Announces w q := by
  have hkey : row.key ≠ (fleet.guard q).key := by
    rw [key_of_owns howns]
    exact key_ne (Ne.symm hne)
  constructor
  · rintro ⟨r, hr, hrkey, hactive⟩
    rcases mem_final_append.mp hr with hnew | ⟨hold, -⟩
    · rw [List.mem_singleton.mp (mem_of_mem_final hnew)] at hrkey
      exact absurd hrkey hkey
    · exact ⟨r, hold, hrkey, hactive⟩
  · rintro ⟨r, hr, hrkey, hactive⟩
    refine ⟨r, mem_final_append.mpr (.inr ⟨hr, ?_⟩), hrkey, hactive⟩
    intro later hlater
    rw [List.mem_singleton.mp hlater, hrkey]
    exact hkey

theorem announces_insert_self {w : GuardWorld P} {p : P} {row : HeartbeatRow}
    (howns : (fleet.guard p).Owns row) :
    fleet.Announces { w with beats := w.beats ++ [row] } p ↔ row.IsActive := by
  have hlast : row ∈ final HeartbeatRow.key (w.beats ++ [row]) :=
    mem_final_append.mpr (.inl (mem_final_cons.mpr (.inr ⟨rfl, List.forall_mem_nil _⟩)))
  constructor
  · rintro ⟨r, hr, hrkey, hactive⟩
    rw [← final_unique hr hlast (hrkey.trans (key_of_owns howns).symm)]
    exact hactive
  · intro hactive
    exact ⟨row, hlast, key_of_owns howns, hactive⟩

/-! ## The invariant -/

/-- Rows are their writers' own, whoever has announced itself is in the table, and a lock has one
holder. -/
structure Excludes (fleet : Fleet P) (stage : P → GuardStage) (w : GuardWorld P) : Prop where
  owned : ∀ row ∈ w.beats, ∃ p, (fleet.guard p).Owns row
  announced : ∀ p, stage p = .announced ∨ stage p = .holding → fleet.Announces w p
  one : ∀ p q, (fleet.guard p).SameLock (fleet.guard q) → fleet.Holds stage w p →
    fleet.Holds stage w q → p = q

theorem excludes_start (fleet : Fleet P) (beats : P → Nat) (clock : Nat) :
    fleet.Excludes (fleet.start beats clock).stage (fleet.start beats clock).world := by
  refine ⟨List.forall_mem_nil _, ?_, ?_⟩
  · rintro p (hstage | hstage) <;> cases hstage
  · rintro p q - ⟨-, hstage | hstage, -⟩ <;> cases hstage

variable [DecidableEq P]

/-- A move of one process that leaves the table alone and gains it nothing. -/
theorem Excludes.keep {stage : P → GuardStage} {w w' : GuardWorld P} {p : P} {next : GuardStage}
    (h : fleet.Excludes stage w) (hbeats : w'.beats = w.beats) (hcrashed : w'.crashed = w.crashed)
    (hannounced : next = .announced ∨ next = .holding → stage p = .announced ∨ stage p = .holding)
    (hholds : next = .holding ∨ next = .leaving → stage p = .holding ∨ stage p = .leaving) :
    fleet.Excludes (Function.update stage p next) w' := by
  have hannounces : ∀ q, fleet.Announces w' q ↔ fleet.Announces w q := by
    intro q
    rw [Announces, Announces, hbeats]
  have hholder : ∀ q, fleet.Holds (Function.update stage p next) w' q → fleet.Holds stage w q := by
    rintro q ⟨halive, hstage, hq⟩
    refine ⟨hcrashed ▸ halive, ?_, (hannounces q).mp hq⟩
    by_cases hqp : q = p
    · subst hqp
      rw [Function.update_self] at hstage
      exact hholds hstage
    · rw [Function.update_of_ne hqp] at hstage
      exact hstage
  refine ⟨hbeats ▸ h.owned, ?_, fun a b hlock ha hb => h.one a b hlock (hholder a ha) (hholder b hb)⟩
  intro q hq
  apply (hannounces q).mpr
  apply h.announced q
  by_cases hqp : q = p
  · subst hqp
    rw [Function.update_self] at hq
    exact hannounced hq
  · rw [Function.update_of_ne hqp] at hq
    exact hq

/-- A beat of one process that landed. -/
theorem Excludes.beat {stage : P → GuardStage} {w : GuardWorld P} {p : P} {row : HeartbeatRow}
    {landed : Bool} (h : fleet.Excludes stage w)
    (hnext : (fleet.guard p).beatStage (stage p) row landed ≠ .astray) :
    fleet.Excludes (Function.update stage p ((fleet.guard p).beatStage (stage p) row landed))
      { w with beats := w.beats ++ [row] } := by
  obtain ⟨howns, hannounced, hholding, hleaving⟩ :=
    WriterGuard.stage_of_beat (rfl : (fleet.guard p).beatStage (stage p) row landed = _)
  have hown := howns hnext
  -- the beat of a holder is one more active beat, so the holder was a holder before
  have hholder : ∀ q, fleet.Holds (Function.update stage p
      ((fleet.guard p).beatStage (stage p) row landed)) { w with beats := w.beats ++ [row] } q →
      fleet.Holds stage w q := by
    rintro q ⟨halive, hstage, hq⟩
    by_cases hqp : q = p
    · subst hqp
      have hactive := (announces_insert_self hown).mp hq
      rw [Function.update_self] at hstage
      rcases hstage with hstage | hstage
      · have hheld := (hholding hstage).2
        exact ⟨halive, .inl hheld, h.announced q (.inr hheld)⟩
      · exact absurd hactive (hleaving hstage).1
    · rw [Function.update_of_ne hqp] at hstage
      exact ⟨halive, hstage, (announces_insert_other hown hqp).mp hq⟩
  refine ⟨?_, ?_, fun a b hlock ha hb => h.one a b hlock (hholder a ha) (hholder b hb)⟩
  · intro r hr
    rcases List.mem_append.mp hr with hold | hnew
    · exact h.owned r hold
    · rw [List.mem_singleton.mp hnew]
      exact ⟨p, hown⟩
  · intro q hq
    by_cases hqp : q = p
    · subst hqp
      rw [Function.update_self] at hq
      apply (announces_insert_self hown).mpr
      exact hq.elim (fun hstage => (hannounced hstage).1) fun hstage => (hholding hstage).1
    · rw [Function.update_of_ne hqp] at hq
      exact (announces_insert_other hown hqp).mpr (h.announced q hq)

/-- The query of an announced process that sees nobody else: then nobody else holds its lock. -/
theorem Excludes.query {stage : P → GuardStage} {w : GuardWorld P} {p : P}
    (h : fleet.Excludes stage w) (hfresh : fleet.BeatsFresh stage w)
    (halive : w.crashed p = false) (hstage : stage p = .announced)
    (hown : ∀ process ∈ freshWriterProcesses w.beats w.clock (fleet.guard p).chainId
      (fleet.guard p).staleSeconds (fleet.guard p).discoveryScope,
      process = (fleet.guard p).processId) :
    fleet.Excludes (Function.update stage p .holding) w := by
  -- a holder's row is fresh, and so among those that the query reads
  have hnobody : ∀ q, q ≠ p → (fleet.guard p).SameLock (fleet.guard q) → ¬ fleet.Holds stage w q := by
    rintro q hqp ⟨hchain, hclass⟩ ⟨hqalive, hqstage, row, hrow, hkey, hactive⟩
    apply hqp
    apply fleet.processId_inj
    apply hown
    obtain ⟨writer, hwriter⟩ := h.owned row (mem_of_mem_final hrow)
    obtain ⟨hrowChain, hrowProcess⟩ := Prod.mk.inj hkey
    have hsame : writer = q := fleet.processId_inj (hwriter.2.1.symm.trans hrowProcess)
    subst hsame
    refine mem_freshWriterProcesses.mpr ⟨row, hrow, hwriter.2.1, hwriter.1.trans hchain.symm, ?_,
      hfresh _ hqalive (.inr hqstage) row hrow hkey hactive p ⟨hchain, hclass⟩⟩
    rw [hwriter.2.2, hclass]
    simp [WriterGuard.discoveryScope, discoveryScopeOperations]
  have hholder : ∀ q, q ≠ p → fleet.Holds (Function.update stage p .holding) w q →
      fleet.Holds stage w q := by
    rintro q hqp ⟨hqalive, hqstage, hq⟩
    rw [Function.update_of_ne hqp] at hqstage
    exact ⟨hqalive, hqstage, hq⟩
  refine ⟨h.owned, ?_, ?_⟩
  · intro q hq
    by_cases hqp : q = p
    · rw [hqp]
      exact h.announced p (.inl hstage)
    · rw [Function.update_of_ne hqp] at hq
      exact h.announced q hq
  · intro a b hlock ha hb
    by_cases hap : a = p
    · subst hap
      by_contra hba
      exact hnobody b (Ne.symm hba) hlock (hholder b (Ne.symm hba) hb)
    · by_cases hbp : b = p
      · subst hbp
        exact absurd (hholder a hap ha) (hnobody a hap ⟨hlock.1.symm, hlock.2.symm⟩)
      · exact h.one a b hlock (hholder a hap ha) (hholder b hbp hb)

theorem Excludes.ambient {stage : P → GuardStage} {w w' : GuardWorld P}
    (h : fleet.Excludes stage w) (hstep : Ambient w w') : fleet.Excludes stage w' := by
  cases hstep with
  | tick clock => exact ⟨h.owned, h.announced, h.one⟩
  | crash p =>
    refine ⟨h.owned, h.announced, ?_⟩
    have hholder : ∀ q, fleet.Holds stage { w with crashed := Function.update w.crashed p true } q →
        fleet.Holds stage w q := by
      rintro q ⟨halive, hstage, hq⟩
      refine ⟨?_, hstage, hq⟩
      by_cases hqp : q = p
      · subst hqp
        simp at halive
      · exact (Function.update_of_ne hqp _ _).symm.trans halive
    intro a b hlock ha hb
    exact h.one a b hlock (hholder a ha) (hholder b hb)

/-- What one operation of one process does, by the kind of the operation. -/
theorem Excludes.step {stage : P → GuardStage} {w w' : GuardWorld P} {p : P} {op : GuardOp}
    {answer : GuardAns op} (hfresh : fleet.BeatsFresh stage w) (h : fleet.Excludes stage w)
    (hnext : (fleet.guard p).move (stage p) op answer ≠ .astray) (henv : env p op w answer w') :
    fleet.Excludes (Function.update stage p ((fleet.guard p).move (stage p) op answer)) w' := by
  obtain ⟨halive, henv⟩ := henv
  cases op with
  | freshWriterProcesses chainId staleSeconds scope =>
    obtain ⟨hanswer, rfl⟩ := henv
    obtain ⟨hannounced, hleaving, hholding⟩ := WriterGuard.stage_of_query
      (rfl : (fleet.guard p).move (stage p) (.freshWriterProcesses chainId staleSeconds scope)
        answer = _)
    by_cases hgained : (fleet.guard p).move (stage p)
        (.freshWriterProcesses chainId staleSeconds scope) answer = .holding ∧ stage p ≠ .holding
    · rcases hholding hgained.1 with hheld | ⟨hstage, hown, after, hafter, hall⟩
      · exact absurd hheld hgained.2
      · rw [hgained.1]
        simp only [Bool.and_eq_true, decide_eq_true_eq] at hown
        obtain ⟨⟨rfl, rfl⟩, rfl⟩ := hown
        rcases hanswer with hanswer | ⟨kind, hanswer⟩
        · rw [hafter] at hanswer
          exact h.query hfresh halive hstage (Except.ok.inj hanswer ▸ hall)
        · rw [hafter] at hanswer
          cases hanswer
    · have hheld : (fleet.guard p).move (stage p) (.freshWriterProcesses chainId staleSeconds scope)
          answer = .holding → stage p = .holding := by
        intro hholds
        by_contra hnot
        exact hgained ⟨hholds, hnot⟩
      apply h.keep rfl rfl
      · exact fun hstage => .inr (hstage.elim (fun h => absurd h hannounced) hheld)
      · exact fun hstage => hstage.imp hheld hleaving
  | heartbeat row =>
    obtain ⟨beats, hinserts, rfl⟩ := henv
    cases hinserts with
    | landed => exact h.beat hnext
    | landedRaising kind => exact h.beat hnext
    | lost kind =>
      obtain ⟨-, hannounced, hholding, hleaving⟩ := WriterGuard.stage_of_beat
        (rfl : (fleet.guard p).beatStage (stage p) row false = _)
      apply h.keep rfl rfl
      · rintro (hstage | hstage)
        · exact absurd (hannounced hstage).2 Bool.false_ne_true
        · exact .inr (hholding hstage).2
      · rintro (hstage | hstage)
        · exact .inl (hholding hstage).2
        · exact (hleaving hstage).2.2
  | utcNow =>
    obtain rfl : w' = w := henv
    exact h.keep rfl rfl id id
  | setAcquired acquired =>
    obtain rfl : w' = _ := henv
    exact h.keep rfl rfl id id
  | acquired =>
    obtain ⟨-, rfl⟩ := henv
    exact h.keep rfl rfl id id
  | stopTask =>
    obtain rfl : w' = w := henv
    exact h.keep rfl rfl id id

theorem Run.excludes {beats : P → Nat} {clock : Nat} {s : System P}
    (h : fleet.Run (fleet.start beats clock) s) : fleet.Excludes s.stage s.world := by
  refine (Parties.invariant_run (C := fun _ stage => stage ≠ .astray) (Q := fun _ _ _ => True) ?_ ?_ ?_
    (excludes_start fleet beats clock) h).2
  · intro stage w w' _ hexcludes hambient
    exact hexcludes.ambient hambient
  · intro stage w p op answer w' hfresh hexcludes _ hnext henv
    exact hexcludes.step hfresh hnext henv
  · intro p
    refine ⟨nofun, ?_⟩
    exact WriterGuard.stays_session (beats p)

omit [DecidableEq P] in
/-- The beat of a process of another lock changes nothing that this process can read. -/
theorem mem_fresh_insert {beats : List HeartbeatRow} {p q : P} {row : HeartbeatRow}
    (hrows : ∀ row ∈ beats, ∃ p, (fleet.guard p).Owns row)
    (hother : ¬ (fleet.guard p).SameLock (fleet.guard q)) (howns : (fleet.guard q).Owns row)
    (now processId : Nat) :
    processId ∈ freshWriterProcesses (beats ++ [row]) now (fleet.guard p).chainId
        (fleet.guard p).staleSeconds (fleet.guard p).discoveryScope ↔
      processId ∈ freshWriterProcesses beats now (fleet.guard p).chainId
        (fleet.guard p).staleSeconds (fleet.guard p).discoveryScope := by
  -- rows of the other process are never among those the query selects
  have hunread : ∀ r, (fleet.guard q).Owns r → r.chainId = (fleet.guard p).chainId →
      decide (r.operation = "discover") ≠ (fleet.guard p).discoveryScope := by
    intro r hr hchain hclass
    apply hother
    refine ⟨hchain.symm.trans hr.1, hclass.symm.trans ?_⟩
    rw [hr.2.2]
    simp [WriterGuard.discoveryScope, discoveryScopeOperations]
  rw [mem_freshWriterProcesses, mem_freshWriterProcesses]
  constructor
  · rintro ⟨r, hr, hid, hchain, hclass, hfresh⟩
    rcases mem_final_append.mp hr with hnew | ⟨hold, -⟩
    · rw [List.mem_singleton.mp (mem_of_mem_final hnew)] at hchain hclass
      exact absurd hclass (hunread row howns hchain)
    · exact ⟨r, hold, hid, hchain, hclass, hfresh⟩
  · rintro ⟨r, hr, hid, hchain, hclass, hfresh⟩
    refine ⟨r, mem_final_append.mpr (.inr ⟨hr, ?_⟩), hid, hchain, hclass, hfresh⟩
    intro later hlater hkey
    rw [List.mem_singleton.mp hlater] at hkey
    obtain ⟨writer, hwriter⟩ := hrows r (mem_of_mem_final hr)
    have hsame : writer = q :=
      fleet.processId_inj (hwriter.2.1.symm.trans ((Prod.mk.inj hkey).2.symm.trans howns.2.1))
    subst hsame
    exact hunread r hwriter hchain hclass

/-- A process whose next operation is answered goes on; the beats that are active are fresh. -/
theorem Run.move {start s : System P} {p : P} {op : GuardOp} {k : GuardAns op → GuardProgram Unit}
    {w' : GuardWorld P} (answer : GuardAns op) (h : fleet.Run start s)
    (hop : s.program p = .call op k)
    (hfresh : ∀ row ∈ s.world.beats, row.IsActive → s.world.clock ≤ row.heartbeatAt)
    (henv : env p op s.world answer w') :
    fleet.Run start
      { program := Function.update s.program p (k answer)
        stage := Function.update s.stage p ((fleet.guard p).move (s.stage p) op answer)
        world := w' } := by
  refine h.tail ⟨?_, .party p hop henv⟩
  intro q _ _ row hrow _ hactive r _
  exact (hfresh row (mem_of_mem_final hrow) hactive).trans (Nat.le_add_right _ _)

/-- In every run in which active beats stay fresh: a lock has at most one holder, where a process
holds its lock from the return of its acquire until a released beat has landed; and a query reads
processes of the same lock only, whatever processes of another lock write. -/
theorem writers_exclude (fleet : Fleet P) (beats : P → Nat) (clock : Nat) {s : System P}
    (hrun : fleet.Run (fleet.start beats clock) s) :
    (∀ p q, (fleet.guard p).SameLock (fleet.guard q) → fleet.Holds s.stage s.world p →
      fleet.Holds s.stage s.world q → p = q) ∧
    (∀ p, (fleet.guard p).Stays
      (fun r stage => if r.isOk then stage = .holding else stage = .idle ∨ stage = .refused)
      (fleet.guard p).acquire .idle) ∧
    (∀ p, s.world.crashed p = false → s.stage p = .holding → fleet.Holds s.stage s.world p) ∧
    (∀ p, ∀ processId ∈ freshWriterProcesses s.world.beats s.world.clock (fleet.guard p).chainId
        (fleet.guard p).staleSeconds (fleet.guard p).discoveryScope,
      ∃ q, (fleet.guard q).processId = processId ∧ (fleet.guard p).SameLock (fleet.guard q)) ∧
    ∀ p q row, ¬ (fleet.guard p).SameLock (fleet.guard q) → (fleet.guard q).Owns row →
      ∀ now processId, processId ∈ freshWriterProcesses (s.world.beats ++ [row]) now
          (fleet.guard p).chainId (fleet.guard p).staleSeconds (fleet.guard p).discoveryScope ↔
        processId ∈ freshWriterProcesses s.world.beats now (fleet.guard p).chainId
          (fleet.guard p).staleSeconds (fleet.guard p).discoveryScope := by
  have h := Run.excludes hrun
  refine ⟨h.one, fun p => WriterGuard.stays_acquire, ?_, ?_, ?_⟩
  · intro p halive hstage
    exact ⟨halive, .inl hstage, h.announced p (.inr hstage)⟩
  · intro p processId hmem
    obtain ⟨row, hrow, rfl, hchain, hclass, -⟩ := mem_freshWriterProcesses.mp hmem
    obtain ⟨q, hq⟩ := h.owned row (mem_of_mem_final hrow)
    refine ⟨q, hq.2.1.symm, hchain.symm.trans hq.1, hclass.symm.trans ?_⟩
    rw [hq.2.2]
    simp [WriterGuard.discoveryScope, discoveryScopeOperations]
  · intro p q row hother howns now processId
    exact mem_fresh_insert h.owned hother howns now processId

theorem toNat_injective : Function.Injective Bool.toNat := by
  intro a b h
  cases a <;> cases b <;> first | rfl | cases h

/-- Two processes of one class, under different operations. -/
def pairFleet : Fleet Bool where
  guard census := ⟨1, if census then "census" else "pools", 120, census.toNat, "host", 0⟩
  processId_inj := toNat_injective

/-- Where the two processes stand. -/
def pair (first second : GuardProgram Unit) (stage stage' : GuardStage) (w : GuardWorld Bool) :
    System Bool where
  program census := if census then second else first
  stage census := if census then stage' else stage
  world := w

theorem Run.first {start : System Bool} {second : GuardProgram Unit} {stage stage' : GuardStage}
    {w w' : GuardWorld Bool} (op : GuardOp) {k : GuardAns op → GuardProgram Unit} (answer : GuardAns op)
    (h : pairFleet.Run start (pair (.call op k) second stage stage' w))
    (hfresh : ∀ row ∈ w.beats, row.IsActive → w.clock ≤ row.heartbeatAt) (henv : env false op w answer w') :
    pairFleet.Run start
      (pair (k answer) second ((pairFleet.guard false).move stage op answer) stage' w') := by
  have hgo := Run.move answer h (p := false) rfl hfresh henv
  have hpair : ∀ {γ : Type} (x y z : γ), Function.update (fun b : Bool => if b = true then y else x) false z
      = fun b => if b = true then y else z := by
    intro γ x y z
    funext b
    cases b <;> rfl
  simpa only [pair, hpair, Bool.false_eq_true, if_false, if_true] using hgo

theorem Run.second {start : System Bool} {first : GuardProgram Unit} {stage stage' : GuardStage}
    {w w' : GuardWorld Bool} (op : GuardOp) {k : GuardAns op → GuardProgram Unit} (answer : GuardAns op)
    (h : pairFleet.Run start (pair first (.call op k) stage stage' w))
    (hfresh : ∀ row ∈ w.beats, row.IsActive → w.clock ≤ row.heartbeatAt) (henv : env true op w answer w') :
    pairFleet.Run start
      (pair first (k answer) stage ((pairFleet.guard true).move stage' op answer) w') := by
  have hgo := Run.move answer h (p := true) rfl hfresh henv
  have hpair : ∀ {γ : Type} (x y z : γ), Function.update (fun b : Bool => if b = true then y else x) true z
      = fun b => if b = true then z else x := by
    intro γ x y z
    funext b
    cases b <;> rfl
  simpa only [pair, hpair, Bool.false_eq_true, if_false, if_true] using hgo

def firstBeat : HeartbeatRow := (pairFleet.guard false).row 500 "active"
def secondBeat : HeartbeatRow := (pairFleet.guard true).row 500 "active"
def firstReleased : HeartbeatRow := (pairFleet.guard false).row 0 "released"

theorem fresh_both : freshWriterProcesses [firstBeat, secondBeat] 500 1 120 false = [0, 1] := by decide +kernel

theorem fresh_second : freshWriterProcesses [firstBeat, secondBeat, firstReleased] 500 1 120 false = [1] := by
  decide +kernel

theorem pair_run : ∃ s : System Bool, pairFleet.Run (pairFleet.start (fun _ => 1) 500) s ∧
    s.stage false = .refused ∧ pairFleet.Holds s.stage s.world true := by
  let w₀ : GuardWorld Bool := ⟨500, [], fun _ => false, fun _ => false⟩
  have h₀ : pairFleet.Run (pairFleet.start (fun _ => 1) 500)
      (pair ((pairFleet.guard false).session 1) ((pairFleet.guard true).session 1) .idle .idle w₀) := by
    have hstart : pairFleet.start (fun _ => 1) 500 =
        pair ((pairFleet.guard false).session 1) ((pairFleet.guard true).session 1) .idle .idle w₀ := by
      unfold start pair
      congr
      · funext b
        cases b <;> rfl
      · funext b
        cases b <;> rfl
    exact hstart ▸ .refl
  have hnone : ∀ row ∈ w₀.beats, row.IsActive → w₀.clock ≤ row.heartbeatAt := List.forall_mem_nil _
  have hfirst : ∀ row ∈ [firstBeat], row.IsActive → 500 ≤ row.heartbeatAt := by decide
  have hboth : ∀ row ∈ [firstBeat, secondBeat], row.IsActive → 500 ≤ row.heartbeatAt := by decide
  have hleft : ∀ row ∈ [firstBeat, secondBeat, firstReleased], row.IsActive → 500 ≤ row.heartbeatAt := by
    decide
  -- both find nobody, and both announce themselves
  have h₁ := Run.first (.freshWriterProcesses 1 120 false) (.ok []) h₀ hnone ⟨rfl, .inl rfl, rfl⟩
  have h₂ := Run.second (.freshWriterProcesses 1 120 false) (.ok []) h₁ hnone ⟨rfl, .inl rfl, rfl⟩
  have h₃ := Run.first .utcNow (500 : Nat) h₂ hnone ⟨rfl, rfl⟩
  have h₄ := Run.first (.heartbeat firstBeat) (.ok ()) h₃ hnone ⟨rfl, _, .landed, rfl⟩
  have h₅ := Run.first (.setAcquired true) () h₄ hfirst ⟨rfl, rfl⟩
  have h₆ := Run.second .utcNow (500 : Nat) h₅ hfirst ⟨rfl, rfl⟩
  have h₇ := Run.second (.heartbeat secondBeat) (.ok ()) h₆ hfirst ⟨rfl, _, .landed, rfl⟩
  have h₈ := Run.second (.setAcquired true) () h₇ hboth ⟨rfl, rfl⟩
  -- the first one reads both and backs out, the second one then reads itself
  have h₉ := Run.first (.freshWriterProcesses 1 120 false) (.ok [0, 1]) h₈ hboth
    ⟨rfl, .inl (congrArg Except.ok fresh_both.symm), rfl⟩
  have h₁₀ := Run.first (.heartbeat firstReleased) (.ok ()) h₉ hboth ⟨rfl, _, .landed, rfl⟩
  have h₁₁ := Run.second (.freshWriterProcesses 1 120 false) (.ok [1]) h₁₀ hleft
    ⟨rfl, .inl (congrArg Except.ok fresh_second.symm), rfl⟩
  refine ⟨_, h₁₁, by decide, rfl, .inl (by decide), secondBeat, by decide +kernel, rfl, rfl⟩

/-- Two processes of one lock find nobody and announce themselves; the one that looks again first backs
out, and the other one holds the lock alone. -/
theorem writers_exclude_sample : ∃ s : System Bool, s.stage false = .refused ∧
    pairFleet.Holds s.stage s.world true ∧
    ∀ p, (pairFleet.guard true).SameLock (pairFleet.guard p) → pairFleet.Holds s.stage s.world p →
      p = true := by
  obtain ⟨s, hrun, hrefused, hholds⟩ := pair_run
  refine ⟨s, hrefused, hholds, fun p hlock hp => ?_⟩
  exact ((writers_exclude pairFleet (fun _ => 1) 500 hrun).1 true p hlock hholds hp).symm

end Fleet

end RpcStateIndexer
