import Mathlib.Algebra.Order.Archimedean.Basic
import Mathlib.Algebra.Order.Floor.Ring
import Mathlib.Data.Rat.Floor
import Mathlib.Tactic.Linarith
import Mathlib.Tactic.NormNum
import RpcStateIndexer.Reasoning.Binary64

/-!
# Waiting for the source census

Before a recent date is computed, the counts of its source jobs are polled until two readings in a row
are complete and the same, or the deadline comes.  The seconds that are left are counted whole, so the wait
may be given up before its deadline.  The clock is any that is not ahead of a sleep: what follows holds for
every sequence of readings and of clock readings.
-/

namespace RpcStateIndexer

open Reasoning

/-- The row of the count query; `row.get` takes a column that is absent for zero. -/
structure SourceCountRow where
  started : Option Nat
  published : Option Nat

/-- `(started_attempts, publications)` for each job, in the order in which the jobs were counted. -/
abbrev SourceCounts := List (String × Nat × Nat)

namespace SourceCounts

/-- `counts[job_name] = value`; a job that is named twice keeps its place. -/
def set (counts : SourceCounts) (jobName : String) (value : Nat × Nat) : SourceCounts :=
  if counts.any fun entry => entry.1 = jobName then
    counts.map fun entry => if entry.1 = jobName then (jobName, value) else entry
  else counts ++ [(jobName, value)]

end SourceCounts

def censusSourcesReady (counts : SourceCounts) : Bool :=
  !counts.isEmpty && counts.all fun (_, started, published) => decide (0 < published) && decide (started = 0)

/-- The reading of one poll; `query` is the repository, which may answer a job with no row. -/
def censusSourceCounts (query : String → List SourceCountRow) (jobNames : List String) : SourceCounts :=
  jobNames.foldl (fun counts jobName =>
    counts.set jobName (match query jobName with
      | [] => (0, 0)
      | row :: _ => (row.started.getD 0, row.published.getD 0))) []

/-- The `ServiceError` that says the source census is not complete, with what its text shows. -/
structure SourceCensusNotComplete where
  moduleName : String
  snapshotDate : Nat
  detail : SourceCounts
  deriving DecidableEq

/-- What a wait raises. -/
inductive SourceWaitFault where
  | service (e : SourceCensusNotComplete)
  | overflowError (message : String)
  | valueError (message : String)
  deriving DecidableEq

/-- The arguments of one wait; dates are counted in days, and `today` is the reference date. -/
structure SourceWait where
  jobNames : List String
  snapshotDate : Nat
  moduleName : String
  waitSeconds : Int
  pollSeconds : Int
  today : Nat

/-- What a wait meets: the repository at each poll, and the clock at the start and at each poll. -/
structure SourceWorld where
  query : Nat → String → List SourceCountRow
  start : ℚ
  clock : Nat → ℚ

/-- `int` of a number drops the part behind the point. -/
def truncate (x : ℚ) : Int := if 0 ≤ x then ⌊x⌋ else ⌈x⌉

/-- What a poll comes to: the wait is over, it raises, or it sleeps and keeps the counts in mind. -/
inductive PollResult where
  | ready
  | incomplete
  /-- the time that is left is infinite, and `int` raises -/
  | infinite
  | sleep (seconds : Int) (stable : Option SourceCounts)
  deriving DecidableEq

namespace SourceWait

variable (wait : SourceWait) (world : SourceWorld)

/-- `snapshot_date >= reference - timedelta(days=1)` -/
def recent : Bool := wait.today ≤ wait.snapshotDate + 1

/-- `clock() + wait_seconds`: the seconds become a float before they are added; the sum may be infinite. -/
def deadline : Except SourceWaitFault (Option ℚ) :=
  match Binary64.round wait.waitSeconds with
  | none => .error (.overflowError "int too large to convert to float")
  | some seconds => .ok (Binary64.round (world.start + seconds))

/-- `deadline - clock()` -/
def timeLeft (deadline : Option ℚ) (now : ℚ) : Option ℚ :=
  deadline.bind fun deadline => Binary64.round (deadline - now)

/-- The body of the loop. -/
def poll (deadline : Option ℚ) (now : ℚ) (stable : Option SourceCounts) (counts : SourceCounts) :
    PollResult :=
  let ready := censusSourcesReady counts
  if ready = true ∧ (wait.recent = false ∨ wait.waitSeconds = 0 ∨ stable = some counts) then .ready
  else
    match (timeLeft deadline now).map truncate with
    | none => .infinite
    | some remaining =>
      if wait.recent = false ∨ wait.waitSeconds = 0 ∨ remaining ≤ 0 then .incomplete
      else .sleep (min wait.pollSeconds (max remaining 1)) (if ready then some counts else none)

def counts (k : Nat) : SourceCounts := censusSourceCounts (world.query k) wait.jobNames

/-- What the error of poll `k` shows. -/
def notComplete (k : Nat) : SourceWaitFault :=
  .service ⟨wait.moduleName, wait.snapshotDate, wait.counts world k⟩

/-- The loop from poll `k` on, with what it keeps in mind.  `sleep` takes no negative length. -/
def awaitFrom (deadline : Option ℚ) :
    Nat → Nat → Option SourceCounts → Option (Nat × Except SourceWaitFault Unit)
  | 0, _, _ => none
  | fuel + 1, k, stable =>
    match wait.poll deadline (world.clock k) stable (wait.counts world k) with
    | .ready => some (k, .ok ())
    | .incomplete => some (k, .error (wait.notComplete world k))
    | .infinite => some (k, .error (.overflowError "cannot convert float infinity to integer"))
    | .sleep seconds stable =>
      if seconds < 0 then some (k, .error (.valueError "sleep length must be non-negative"))
      else awaitFrom deadline fuel (k + 1) stable

/-- `_await_census_sources`: the poll at which it ends, and how.  Without a deadline it does not begin. -/
def awaitCensusSources (fuel : Nat) : Option (Nat × Except SourceWaitFault Unit) :=
  match wait.deadline world with
  | .error e => some (0, .error e)
  | .ok deadline => wait.awaitFrom world deadline fuel 0 none

/-! ## The polls of a wait -/

/-- Only a complete reading is kept in mind, and only for one poll. -/
def stableBefore : Nat → Option SourceCounts
  | 0 => none
  | k + 1 => if censusSourcesReady (wait.counts world k) then some (wait.counts world k) else none

def pollAt (deadline : Option ℚ) (k : Nat) : PollResult :=
  wait.poll deadline (world.clock k) (wait.stableBefore world k) (wait.counts world k)

/-- How the wait ends at poll `k`, if it does. -/
def outcomeAt (deadline : Option ℚ) (k : Nat) : Option (Except SourceWaitFault Unit) :=
  match wait.pollAt world deadline k with
  | .ready => some (.ok ())
  | .incomplete => some (.error (wait.notComplete world k))
  | .infinite => some (.error (.overflowError "cannot convert float infinity to integer"))
  | .sleep seconds _ =>
    if seconds < 0 then some (.error (.valueError "sleep length must be non-negative")) else none

/-- The reading is complete, and where the date is recent and there is a wait, so was the one before it,
with the same counts. -/
def Complete (k : Nat) : Prop :=
  censusSourcesReady (wait.counts world k) = true ∧
    (wait.recent = false ∨ wait.waitSeconds = 0 ∨
      ∃ j, k = j + 1 ∧ censusSourcesReady (wait.counts world j) = true ∧
        wait.counts world j = wait.counts world k)

/-- The deadline has come, if there is a wait at all. -/
def DeadlineReached (k : Nat) : Prop :=
  wait.recent = false ∨ wait.waitSeconds = 0 ∨
    ∃ deadline, wait.deadline world = .ok (some deadline) ∧ deadline ≤ world.clock k

/-- No poll before poll `k` has found a complete reading, or the deadline. -/
def Pending (k : Nat) : Prop := ∀ j < k, ¬ wait.Complete world j ∧ ¬ wait.DeadlineReached world j

/-- Between two polls the clock advances at least by the sleep that was asked for. -/
def ClockAdvances : Prop :=
  ∀ deadline k seconds stable, wait.deadline world = .ok deadline →
    (∀ j < k, wait.outcomeAt world deadline j = none) →
    wait.pollAt world deadline k = .sleep seconds stable → world.clock k + seconds ≤ world.clock (k + 1)

/-- With enough fuel the wait ends at poll `k`. -/
def EndsAt (k : Nat) (r : Except SourceWaitFault Unit) : Prop :=
  ∀ fuel, k < fuel → wait.awaitCensusSources world fuel = some (k, r)

/-- The wait ends.  It returns at the first complete reading, and where the deadline comes before one it
raises that the census is not complete. -/
structure EndsInTime : Prop where
  ends : ∃ k, wait.EndsAt world k (.ok ()) ∨ wait.EndsAt world k (.error (wait.notComplete world k))
  returns (k : Nat) : wait.EndsAt world k (.ok ()) ↔ wait.Complete world k ∧ wait.Pending world k
  raises (k : Nat) (e : SourceWaitFault) : wait.EndsAt world k (.error e) ↔
    e = wait.notComplete world k ∧ ¬ wait.Complete world k ∧ wait.DeadlineReached world k ∧
      wait.Pending world k

/-- A poll that has nothing complete to return finds a time left that is finite and, while the deadline is
still ahead, at least a second long. -/
structure SecondsLeft : Prop where
  deadline : ∃ deadline, wait.deadline world = .ok deadline ∧
    ∀ k, wait.Pending world k → ¬ wait.Complete world k →
      ∃ left, timeLeft deadline (world.clock k) = some left ∧
        (wait.DeadlineReached world k ∨ 1 ≤ left ∧ 0 ≤ wait.pollSeconds)
  /-- without an interval between the polls, nothing else makes the clock advance -/
  comes : wait.pollSeconds ≤ 0 → ∃ k, wait.Complete world k ∨ wait.DeadlineReached world k

/-- No whole second is left exactly when less than one is. -/
theorem truncate_nonpos_iff {x : ℚ} : truncate x ≤ 0 ↔ x < 1 := by
  unfold truncate
  split
  · rw [Int.floor_le_iff, Int.cast_zero, zero_add]
  · next hneg =>
    have hlt : x < 0 := not_le.mp hneg
    constructor
    · intro _
      linarith
    · intro _
      exact Int.ceil_le.mpr (by rw [Int.cast_zero]; exact hlt.le)

variable {wait world} {deadline : Option ℚ}

theorem stableBefore_eq_some {k : Nat} {counts : SourceCounts} :
    wait.stableBefore world k = some counts ↔
      ∃ j, k = j + 1 ∧ censusSourcesReady (wait.counts world j) = true ∧ wait.counts world j = counts := by
  constructor
  · intro h
    cases k with
    | zero => cases h
    | succ j =>
      rw [stableBefore, Option.ite_none_right_eq_some] at h
      exact ⟨j, rfl, h.1, Option.some.inj h.2⟩
  · rintro ⟨j, rfl, hready, rfl⟩
    rw [stableBefore, if_pos hready]

theorem pollAt_of_complete {k : Nat} (h : wait.Complete world k) :
    wait.pollAt world deadline k = .ready := by
  obtain ⟨hready, hstable⟩ := h
  rw [← stableBefore_eq_some] at hstable
  rw [pollAt, poll, if_pos ⟨hready, hstable⟩]

/-- The wait is over, as far as the whole seconds that are left tell. -/
def Over (wait : SourceWait) (left : ℚ) : Prop :=
  wait.recent = false ∨ wait.waitSeconds = 0 ∨ truncate left ≤ 0

/-- What a poll does that has nothing complete to return. -/
theorem pollAt_cases (deadline : Option ℚ) {k : Nat} (h : ¬ wait.Complete world k) :
    (timeLeft deadline (world.clock k) = none ∧ wait.pollAt world deadline k = .infinite) ∨
    ∃ left, timeLeft deadline (world.clock k) = some left ∧
      (wait.Over left ∧ wait.pollAt world deadline k = .incomplete ∨
        ¬ wait.Over left ∧ wait.pollAt world deadline k =
          .sleep (min wait.pollSeconds (max (truncate left) 1)) (wait.stableBefore world (k + 1))) := by
  unfold Complete at h
  rw [← stableBefore_eq_some] at h
  unfold pollAt poll
  rw [if_neg h]
  cases timeLeft deadline (world.clock k) with
  | none => exact .inl ⟨rfl, rfl⟩
  | some left =>
    refine .inr ⟨left, rfl, ?_⟩
    by_cases hover : wait.Over left
    · exact .inl ⟨hover, if_pos hover⟩
    · exact .inr ⟨hover, if_neg hover⟩

theorem outcomeAt_of_complete {k : Nat} (h : wait.Complete world k) :
    wait.outcomeAt world deadline k = some (.ok ()) := by
  rw [outcomeAt, pollAt_of_complete h]

theorem complete_of_outcomeAt {k : Nat} (h : wait.outcomeAt world deadline k = some (.ok ())) :
    wait.Complete world k := by
  by_contra hno
  unfold outcomeAt at h
  rcases pollAt_cases deadline hno with ⟨-, hpoll⟩ | ⟨left, -, ⟨-, hpoll⟩ | ⟨-, hpoll⟩⟩
  · rw [hpoll] at h
    cases h
  · rw [hpoll] at h
    cases h
  · rw [hpoll] at h
    dsimp only at h
    split at h <;> cases h

/-- At the deadline the time that is left is none, and a wait that can tell so raises. -/
theorem outcomeAt_of_reached {k : Nat} (hdeadline : wait.deadline world = .ok deadline)
    (h : ¬ wait.Complete world k) (hreached : wait.DeadlineReached world k) :
    wait.outcomeAt world deadline k = some (.error (wait.notComplete world k)) ∨
      timeLeft deadline (world.clock k) = none ∧ wait.outcomeAt world deadline k =
        some (.error (.overflowError "cannot convert float infinity to integer")) := by
  unfold outcomeAt
  rcases pollAt_cases deadline h with ⟨hnone, hpoll⟩ | ⟨left, hleft, ⟨-, hpoll⟩ | ⟨hover, -⟩⟩
  · exact .inr ⟨hnone, by rw [hpoll]⟩
  · exact .inl (by rw [hpoll])
  · refine absurd (hreached.imp_right (Or.imp_right ?_)) hover
    rintro ⟨d, hd, hle⟩
    obtain rfl := Except.ok.inj (hdeadline.symm.trans hd)
    have hnonpos : left ≤ 0 := Binary64.round_nonpos hleft (sub_nonpos.mpr hle)
    exact truncate_nonpos_iff.mpr (hnonpos.trans_lt zero_lt_one)

/-- Ahead of the deadline the wait goes on exactly while at least a second is left, in sleeps that are not
negative. -/
theorem outcomeAt_eq_none_iff {k : Nat} (h : ¬ wait.Complete world k)
    (hahead : wait.recent = true ∧ wait.waitSeconds ≠ 0) :
    wait.outcomeAt world deadline k = none ↔
      ∃ left, timeLeft deadline (world.clock k) = some left ∧ 1 ≤ left ∧ 0 ≤ wait.pollSeconds := by
  have hsecond : ∀ left, ¬ wait.Over left ↔ 1 ≤ left := by
    intro left
    rw [← not_lt, ← truncate_nonpos_iff, not_iff_not]
    exact ⟨fun hover => (hover.resolve_left (by simp [hahead.1])).resolve_left hahead.2,
      fun hlate => .inr (.inr hlate)⟩
  unfold outcomeAt
  rcases pollAt_cases deadline h with
    ⟨hnone, hpoll⟩ | ⟨left, hleft, ⟨hover, hpoll⟩ | ⟨hover, hpoll⟩⟩
  · rw [hpoll, hnone]
    exact iff_of_false nofun fun ⟨_, hno, _⟩ => nomatch hno
  · rw [hpoll, hleft]
    refine iff_of_false nofun ?_
    rintro ⟨_, ⟨⟩, hlong, -⟩
    exact (hsecond left).mpr hlong hover
  · rw [hpoll, hleft]
    have hlong : ¬ truncate left ≤ 0 := fun hlate => hover (.inr (.inr hlate))
    dsimp only
    constructor
    · intro hnone
      refine ⟨left, rfl, (hsecond left).mp hover, ?_⟩
      split at hnone
      · cases hnone
      · omega
    · rintro ⟨_, -, -, hpoll⟩
      rw [if_neg (by omega)]

/-! ## Where a wait ends -/

theorem awaitFrom_outcomeAt (fuel k : Nat) :
    wait.awaitFrom world deadline (fuel + 1) k (wait.stableBefore world k) =
      match wait.outcomeAt world deadline k with
      | some r => some (k, r)
      | none => wait.awaitFrom world deadline fuel (k + 1) (wait.stableBefore world (k + 1)) := by
  have hstep : wait.awaitFrom world deadline (fuel + 1) k (wait.stableBefore world k) =
      match wait.pollAt world deadline k with
      | .ready => some (k, .ok ())
      | .incomplete => some (k, .error (wait.notComplete world k))
      | .infinite => some (k, .error (.overflowError "cannot convert float infinity to integer"))
      | .sleep seconds stable =>
        if seconds < 0 then some (k, .error (.valueError "sleep length must be non-negative"))
        else wait.awaitFrom world deadline fuel (k + 1) stable := rfl
  rw [hstep, outcomeAt]
  by_cases hcomplete : wait.Complete world k
  · rw [pollAt_of_complete hcomplete]
  · rcases pollAt_cases deadline hcomplete with
      ⟨-, hpoll⟩ | ⟨left, -, ⟨-, hpoll⟩ | ⟨-, hpoll⟩⟩
    · rw [hpoll]
    · rw [hpoll]
    · rw [hpoll]
      dsimp only
      split <;> rfl

/-- The polls before the first that ends the wait are passed one by one. -/
theorem awaitFrom_of_open {n : Nat} (fuel : Nat) {k : Nat}
    (h : ∀ j < n, wait.outcomeAt world deadline (k + j) = none) :
    wait.awaitFrom world deadline (fuel + n) k (wait.stableBefore world k) =
      wait.awaitFrom world deadline fuel (k + n) (wait.stableBefore world (k + n)) := by
  induction n generalizing k with
  | zero => rfl
  | succ n ih =>
    have hrest : ∀ j < n, wait.outcomeAt world deadline (k + 1 + j) = none := by
      intro j hj
      rw [show k + 1 + j = k + (j + 1) from by omega]
      exact h (j + 1) (Nat.succ_lt_succ hj)
    rw [← Nat.add_assoc, awaitFrom_outcomeAt, show wait.outcomeAt world deadline k = none from
      h 0 (Nat.succ_pos n)]
    dsimp only
    rw [ih hrest, show k + 1 + n = k + (n + 1) from by omega]

theorem EndsAt.unique {k k' : Nat} {r r' : Except SourceWaitFault Unit} (h : wait.EndsAt world k r)
    (h' : wait.EndsAt world k' r') : k = k' ∧ r = r' := by
  have hsame := (h (k + k' + 1) (by omega)).symm.trans (h' (k + k' + 1) (by omega))
  obtain ⟨hk, hr⟩ := Prod.mk.inj (Option.some.inj hsame)
  exact ⟨hk, hr⟩

theorem endsAt_of_outcomeAt (hdeadline : wait.deadline world = .ok deadline) {k : Nat}
    (h : ∀ j < k, wait.outcomeAt world deadline j = none) {r : Except SourceWaitFault Unit}
    (hlast : wait.outcomeAt world deadline k = some r) : wait.EndsAt world k r := by
  intro fuel hfuel
  obtain ⟨rest, rfl⟩ : ∃ rest, fuel = rest + 1 + k := ⟨fuel - k - 1, by omega⟩
  have hopen : ∀ j < k, wait.outcomeAt world deadline (0 + j) = none := by
    intro j hj
    rw [Nat.zero_add]
    exact h j hj
  have hrun := awaitFrom_of_open (rest + 1) hopen
  rw [Nat.zero_add, awaitFrom_outcomeAt, hlast] at hrun
  rw [awaitCensusSources, hdeadline]
  exact hrun

/-- A wait ends at the first poll that ends it. -/
theorem endsAt_iff (hdeadline : wait.deadline world = .ok deadline) {k : Nat}
    {r : Except SourceWaitFault Unit} : wait.EndsAt world k r ↔
      wait.outcomeAt world deadline k = some r ∧ ∀ j < k, wait.outcomeAt world deadline j = none := by
  refine ⟨fun h => ?_, fun h => endsAt_of_outcomeAt hdeadline h.2 h.1⟩
  classical
  have hsome : ∃ j, wait.outcomeAt world deadline j ≠ none := by
    by_contra hno
    have hopen : ∀ j < k + 1, wait.outcomeAt world deadline (0 + j) = none := fun j _ =>
      not_not.mp (not_exists.mp hno (0 + j))
    have hrun := awaitFrom_of_open 0 hopen
    have hends := h (0 + (k + 1)) (by omega)
    rw [awaitCensusSources, hdeadline] at hends
    cases hrun.symm.trans hends
  have hbefore : ∀ j < Nat.find hsome, wait.outcomeAt world deadline j = none := fun j hj =>
    not_not.mp (Nat.find_min hsome hj)
  obtain ⟨r', hr'⟩ := Option.ne_none_iff_exists'.mp (Nat.find_spec hsome)
  obtain ⟨rfl, rfl⟩ := (endsAt_of_outcomeAt hdeadline hbefore hr').unique h
  exact ⟨hr', hbefore⟩

/-- A poll that goes on has found neither. -/
theorem pending_of_open (hdeadline : wait.deadline world = .ok deadline) {k : Nat}
    (hopen : ∀ j < k, wait.outcomeAt world deadline j = none) : wait.Pending world k := by
  intro j hj
  have hnone := hopen j hj
  have hcomplete : ¬ wait.Complete world j := by
    intro hno
    rw [outcomeAt_of_complete hno] at hnone
    cases hnone
  refine ⟨hcomplete, fun hreached => ?_⟩
  obtain hout | ⟨-, hout⟩ := outcomeAt_of_reached hdeadline hcomplete hreached
  · cases hout.symm.trans hnone
  · cases hout.symm.trans hnone

/-- What a wait that returns or raises as it should has left behind it. -/
theorem EndsInTime.open_of_pending (h : wait.EndsInTime world) (hdeadline : wait.deadline world = .ok deadline)
    {k : Nat} (hpending : wait.Pending world k) : ∀ j < k, wait.outcomeAt world deadline j = none := by
  intro j
  induction j using Nat.strongRecOn with
  | _ j ih =>
    intro hj
    have hbefore : ∀ i < j, wait.outcomeAt world deadline i = none := fun i hi => ih i hi (hi.trans hj)
    cases hout : wait.outcomeAt world deadline j with
    | none => rfl
    | some r =>
      have hends := endsAt_of_outcomeAt hdeadline hbefore hout
      cases r with
      | ok u => exact absurd ((h.returns j).mp hends).1 (hpending j hj).1
      | error e => exact absurd ((h.raises j e).mp hends).2.2.1 (hpending j hj).2

theorem SecondsLeft.of_endsInTime (h : wait.EndsInTime world) : wait.SecondsLeft world := by
  cases hdeadline : wait.deadline world with
  | error e =>
    -- without a deadline the wait does not begin
    have hends : wait.EndsAt world 0 (.error e) := fun fuel _ => by rw [awaitCensusSources, hdeadline]
    obtain ⟨rfl, -⟩ := (h.raises 0 e).mp hends
    unfold SourceWait.deadline at hdeadline
    split at hdeadline
    · cases Except.error.inj hdeadline
    · cases hdeadline
  | ok deadline =>
    refine ⟨⟨deadline, hdeadline, fun k hpending hcomplete => ?_⟩, fun _ => ?_⟩
    · have hopen := h.open_of_pending hdeadline hpending
      by_cases hreached : wait.DeadlineReached world k
      · have hends := (h.raises k _).mpr ⟨rfl, hcomplete, hreached, hpending⟩
        have hout := ((endsAt_iff hdeadline).mp hends).1
        obtain hsame | ⟨-, hinfinite⟩ := outcomeAt_of_reached hdeadline hcomplete hreached
        · cases hleft : timeLeft deadline (world.clock k) with
          | some left => exact ⟨left, rfl, .inl hreached⟩
          | none =>
            rw [outcomeAt] at hout
            rcases pollAt_cases deadline hcomplete with ⟨-, hpoll⟩ | ⟨left, hsome, -⟩
            · rw [hpoll] at hout
              cases hout
            · cases hleft.symm.trans hsome
        · cases hinfinite.symm.trans hout
      · have hnone : wait.outcomeAt world deadline k = none := by
          cases hout : wait.outcomeAt world deadline k with
          | none => rfl
          | some r =>
            have hends := endsAt_of_outcomeAt hdeadline hopen hout
            cases r with
            | ok u => exact absurd ((h.returns k).mp hends).1 hcomplete
            | error e => exact absurd ((h.raises k e).mp hends).2.2.1 hreached
        have hahead : wait.recent = true ∧ wait.waitSeconds ≠ 0 :=
          ⟨(Bool.eq_false_or_eq_true _).resolve_right fun hold => hreached (.inl hold),
            fun hzero => hreached (.inr (.inl hzero))⟩
        obtain ⟨left, hleft, hlong⟩ := (outcomeAt_eq_none_iff hcomplete hahead).mp hnone
        exact ⟨left, hleft, .inr hlong⟩
    · obtain ⟨k, hends | hends⟩ := h.ends
      · exact ⟨k, .inl ((h.returns k).mp hends).1⟩
      · exact ⟨k, .inr ((h.raises k _).mp hends).2.2.1⟩

namespace SecondsLeft

variable (h : wait.SecondsLeft world) (hdeadline : wait.deadline world = .ok deadline)

include h hdeadline

/-- A poll that is ahead of the deadline, with nothing complete to return, sleeps. -/
theorem sleeps {k : Nat} (hpending : wait.Pending world k) (hcomplete : ¬ wait.Complete world k)
    (hahead : ¬ wait.DeadlineReached world k) :
    wait.outcomeAt world deadline k = none ∧ ∃ seconds, min wait.pollSeconds 1 ≤ seconds ∧
      wait.pollAt world deadline k = .sleep seconds (wait.stableBefore world (k + 1)) := by
  obtain ⟨_, hdeadline', hleft⟩ := h.deadline
  obtain rfl := Except.ok.inj (hdeadline.symm.trans hdeadline')
  obtain ⟨left, hleft, hlong⟩ := hleft k hpending hcomplete
  have hlong := hlong.resolve_left hahead
  have hopen : wait.outcomeAt world deadline k = none := by
    refine (outcomeAt_eq_none_iff hcomplete ⟨?_, fun hzero => hahead (.inr (.inl hzero))⟩).mpr
      ⟨left, hleft, hlong⟩
    exact (Bool.eq_false_or_eq_true _).resolve_right fun hold => hahead (.inl hold)
  refine ⟨hopen, ?_⟩
  rw [outcomeAt] at hopen
  rcases pollAt_cases deadline hcomplete with ⟨-, hpoll⟩ | ⟨left, -, ⟨-, hpoll⟩ | ⟨-, hpoll⟩⟩
  · rw [hpoll] at hopen
    cases hopen
  · rw [hpoll] at hopen
    cases hopen
  · exact ⟨_, by omega, hpoll⟩

theorem open_of_pending {k : Nat} (hpending : wait.Pending world k) :
    ∀ j < k, wait.outcomeAt world deadline j = none := fun j hj =>
  (h.sleeps hdeadline (fun i hi => hpending i (hi.trans hj)) (hpending j hj).1 (hpending j hj).2).1

theorem outcomeAt_at_deadline {k : Nat} (hpending : wait.Pending world k)
    (hcomplete : ¬ wait.Complete world k) (hreached : wait.DeadlineReached world k) :
    wait.outcomeAt world deadline k = some (.error (wait.notComplete world k)) := by
  obtain ⟨_, hdeadline', hleft⟩ := h.deadline
  obtain rfl := Except.ok.inj (hdeadline.symm.trans hdeadline')
  obtain ⟨left, hleft, -⟩ := hleft k hpending hcomplete
  exact (outcomeAt_of_reached hdeadline hcomplete hreached).resolve_right fun ⟨hnone, _⟩ =>
    nomatch hnone.symm.trans hleft

/-- Each sleep is at least a second long, or the condition says that the wait ends. -/
theorem exists_end (hclock : wait.ClockAdvances world) :
    ∃ k, wait.Complete world k ∨ wait.DeadlineReached world k := by
  by_contra hno
  have hnone : ∀ k, ¬ wait.Complete world k ∧ ¬ wait.DeadlineReached world k := fun k =>
    not_or.mp (not_exists.mp hno k)
  have hpoll : 0 < wait.pollSeconds := by
    by_contra hzero
    exact hno (h.comes (not_lt.mp hzero))
  have hpending : ∀ k, wait.Pending world k := fun k j _ => hnone j
  have hlate : ∀ k : Nat, world.clock 0 + k ≤ world.clock k := by
    intro k
    induction k with
    | zero => simp
    | succ k ih =>
      obtain ⟨-, seconds, hlong, hsleep⟩ := h.sleeps hdeadline (hpending k) (hnone k).1 (hnone k).2
      have hadvance := hclock deadline k seconds _ hdeadline (h.open_of_pending hdeadline (hpending k)) hsleep
      have hcast : (1 : ℚ) ≤ seconds := by exact_mod_cast (by omega : (1 : Int) ≤ seconds)
      push_cast
      linarith
  -- a deadline that is finite is overtaken, and one that is not leaves no time that is
  obtain ⟨_, hdeadline', hleft⟩ := h.deadline
  obtain rfl := Except.ok.inj (hdeadline.symm.trans hdeadline')
  obtain ⟨left, hleft, -⟩ := hleft 0 (hpending 0) (hnone 0).1
  cases deadline with
  | none => cases hleft
  | some deadline =>
    obtain ⟨k, hk⟩ := exists_nat_gt (deadline - world.clock 0)
    have := hlate k
    exact (hnone k).2 (.inr (.inr ⟨deadline, hdeadline, by linarith⟩))

theorem endsInTime (hclock : wait.ClockAdvances world) : wait.EndsInTime world := by
  classical
  have hend := h.exists_end hdeadline hclock
  have hfirst : wait.Pending world (Nat.find hend) := fun j hj => not_or.mp (Nat.find_min hend hj)
  constructor
  case ends =>
    refine ⟨Nat.find hend, ?_⟩
    have hopen := h.open_of_pending hdeadline hfirst
    by_cases hcomplete : wait.Complete world (Nat.find hend)
    · exact .inl (endsAt_of_outcomeAt hdeadline hopen (outcomeAt_of_complete hcomplete))
    · have hreached := (Nat.find_spec hend).resolve_left hcomplete
      exact .inr (endsAt_of_outcomeAt hdeadline hopen
        (h.outcomeAt_at_deadline hdeadline hfirst hcomplete hreached))
  case returns =>
    intro k
    rw [endsAt_iff hdeadline]
    constructor
    · rintro ⟨hout, hopen⟩
      exact ⟨complete_of_outcomeAt hout, pending_of_open hdeadline hopen⟩
    · rintro ⟨hcomplete, hpending⟩
      exact ⟨outcomeAt_of_complete hcomplete, h.open_of_pending hdeadline hpending⟩
  case raises =>
    intro k e
    rw [endsAt_iff hdeadline]
    constructor
    · rintro ⟨hout, hopen⟩
      have hpending := pending_of_open hdeadline hopen
      have hcomplete : ¬ wait.Complete world k := by
        intro hno
        rw [outcomeAt_of_complete hno] at hout
        cases hout
      have hreached : wait.DeadlineReached world k := by
        by_contra hahead
        cases (h.sleeps hdeadline hpending hcomplete hahead).1.symm.trans hout
      have hlast := h.outcomeAt_at_deadline hdeadline hpending hcomplete hreached
      obtain rfl := Except.error.inj (Option.some.inj (hout.symm.trans hlast))
      exact ⟨rfl, hcomplete, hreached, hpending⟩
    · rintro ⟨rfl, hcomplete, hreached, hpending⟩
      exact ⟨h.outcomeAt_at_deadline hdeadline hpending hcomplete hreached,
        h.open_of_pending hdeadline hpending⟩

end SecondsLeft

/-- A wait returns at the first complete reading and raises once its deadline is reached exactly when each
poll that has nothing complete to return finds the deadline reached or a whole second left. -/
theorem await_ends_in_time_iff (hclock : wait.ClockAdvances world) :
    wait.EndsInTime world ↔ wait.SecondsLeft world := by
  refine ⟨SecondsLeft.of_endsInTime, fun h => ?_⟩
  obtain ⟨deadline, hdeadline, -⟩ := h.deadline
  exact h.endsInTime hdeadline hclock

/-- A wait of 100 seconds, with a poll each minute. -/
def hundredSeconds : SourceWait where
  jobNames := ["daily_cl_liquidity"]
  snapshotDate := 0
  moduleName := "cl_profile"
  waitSeconds := 100
  pollSeconds := 60
  today := 1

/-- The job is done after a minute. -/
def doneAfterMinute : SourceWorld where
  query k _ := [⟨if k = 0 then some 1 else some 0, some 5⟩]
  start := 0
  clock k := 60 * k

theorem doneAfterMinute_complete (k : Nat) : hundredSeconds.Complete doneAfterMinute (k + 2) :=
  ⟨rfl, .inr (.inr ⟨k + 1, rfl, rfl, rfl⟩)⟩

theorem doneAfterMinute_runs : hundredSeconds.deadline doneAfterMinute = .ok (some 100) ∧
    hundredSeconds.pollAt doneAfterMinute (some 100) 0 = .sleep 60 none ∧
    hundredSeconds.pollAt doneAfterMinute (some 100) 1 =
      .sleep 40 (some [("daily_cl_liquidity", 0, 5)]) ∧
    timeLeft (some 100) (doneAfterMinute.clock 0) = some 100 ∧
    timeLeft (some 100) (doneAfterMinute.clock 1) = some 40 := by
  decide +kernel

theorem doneAfterMinute_advances : hundredSeconds.ClockAdvances doneAfterMinute := by
  obtain ⟨hstart, hfirst, hsecond, -⟩ := doneAfterMinute_runs
  intro deadline k seconds stable hdeadline _ hsleep
  obtain rfl := Except.ok.inj (hstart.symm.trans hdeadline)
  match k with
  | 0 =>
    rw [hfirst] at hsleep
    cases hsleep
    show (60 * (0 : Nat) : ℚ) + (60 : Int) ≤ 60 * (1 : Nat)
    norm_num
  | 1 =>
    rw [hsecond] at hsleep
    cases hsleep
    show (60 * (1 : Nat) : ℚ) + (40 : Int) ≤ 60 * (2 : Nat)
    norm_num
  | k + 2 =>
    rw [pollAt_of_complete (doneAfterMinute_complete k)] at hsleep
    cases hsleep

theorem doneAfterMinute_secondsLeft : hundredSeconds.SecondsLeft doneAfterMinute where
  deadline := by
    obtain ⟨hstart, -, -, hfirst, hsecond⟩ := doneAfterMinute_runs
    refine ⟨some 100, hstart, fun k _ hcomplete => ?_⟩
    match k with
    | 0 => exact ⟨100, hfirst, .inr (by norm_num [hundredSeconds])⟩
    | 1 => exact ⟨40, hsecond, .inr (by norm_num [hundredSeconds])⟩
    | k + 2 => exact absurd (doneAfterMinute_complete k) hcomplete
  comes := fun hpoll => absurd hpoll (by decide)

/-- The second complete reading comes after the deadline, and is taken. -/
theorem await_ends_in_time_iff_sample : hundredSeconds.EndsInTime doneAfterMinute :=
  (await_ends_in_time_iff doneAfterMinute_advances).mpr doneAfterMinute_secondsLeft

/-! ## Before the deadline -/

/-- The first sleep, of 60 seconds, takes half a second more. -/
def halfSecondLate : SourceWorld where
  query := fun _ _ => []
  start := 0
  clock
    | 0 => 0
    | 1 => 121 / 2
    | _ => 199 / 2

theorem halfSecondLate_runs : hundredSeconds.deadline halfSecondLate = .ok (some 100) ∧
    hundredSeconds.pollAt halfSecondLate (some 100) 0 = .sleep 60 none ∧
    hundredSeconds.pollAt halfSecondLate (some 100) 1 = .sleep 39 none ∧
    hundredSeconds.pollAt halfSecondLate (some 100) 2 = .incomplete := by
  decide +kernel

theorem halfSecondLate_last (k : Nat) :
    hundredSeconds.pollAt halfSecondLate (some 100) (k + 2) = .incomplete := by
  obtain ⟨-, -, -, hlast⟩ := halfSecondLate_runs
  exact hlast

theorem halfSecondLate_advances : hundredSeconds.ClockAdvances halfSecondLate := by
  obtain ⟨hstart, hfirst, hsecond, -⟩ := halfSecondLate_runs
  intro deadline k seconds stable hdeadline _ hsleep
  obtain rfl := Except.ok.inj (hstart.symm.trans hdeadline)
  match k with
  | 0 =>
    rw [hfirst] at hsleep
    cases hsleep
    show (0 : ℚ) + (60 : Int) ≤ 121 / 2
    norm_num
  | 1 =>
    rw [hsecond] at hsleep
    cases hsleep
    show (121 / 2 : ℚ) + (39 : Int) ≤ 199 / 2
    norm_num
  | k + 2 =>
    rw [halfSecondLate_last] at hsleep
    cases hsleep

theorem halfSecondLate_ahead {k : Nat} : ¬ hundredSeconds.DeadlineReached halfSecondLate k := by
  rintro (hold | hzero | ⟨deadline, hdeadline, hle⟩)
  · cases hold
  · cases hzero
  · obtain rfl := Option.some.inj (Except.ok.inj (halfSecondLate_runs.1.symm.trans hdeadline))
    have hclock : halfSecondLate.clock k < 100 := by
      match k with
      | 0 => norm_num [halfSecondLate]
      | 1 => norm_num [halfSecondLate]
      | k + 2 =>
        show (199 / 2 : ℚ) < 100
        norm_num
    exact absurd hle (not_le.mpr hclock)

/-- The third poll has half a second left, counts none, and raises ahead of the deadline. -/
theorem await_raises_before_deadline :
    hundredSeconds.ClockAdvances halfSecondLate ∧
      hundredSeconds.EndsAt halfSecondLate 2 (.error (hundredSeconds.notComplete halfSecondLate 2)) ∧
      ¬ hundredSeconds.EndsInTime halfSecondLate := by
  obtain ⟨hstart, hfirst, hsecond, -⟩ := halfSecondLate_runs
  have hends : hundredSeconds.EndsAt halfSecondLate 2
      (.error (hundredSeconds.notComplete halfSecondLate 2)) := by
    refine endsAt_of_outcomeAt hstart (fun j hj => ?_) ?_
    · obtain rfl | rfl : j = 0 ∨ j = 1 := by omega
      · rw [outcomeAt, hfirst]
        rfl
      · rw [outcomeAt, hsecond]
        rfl
    · rw [outcomeAt, halfSecondLate_last 0]
  refine ⟨halfSecondLate_advances, hends, fun h => ?_⟩
  exact halfSecondLate_ahead ((h.raises 2 _).mp hends).2.2.1

end SourceWait

end RpcStateIndexer
