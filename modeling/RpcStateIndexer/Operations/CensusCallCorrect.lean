import RpcStateIndexer.Operations.CensusPrepare

/-!
# What a census call leaves behind

When every target is finished the call has one outcome for each, in the order of the plan: the attempt
that returned, or the reason there is none.  No target is attempted that the plan does not name, and
none twice.
-/

namespace RpcStateIndexer

open Reasoning Program CensusRunner

/-! ## The census moves by its own steps -/

theorem Progress.censusStep {w w' : CensusWorld} (h : Progress w w') : CensusStep w w' := by
  obtain ⟨before, after, a, a', s, split, step, rfl⟩ := h
  exact .attempt split step

theorem Progress.used {w w' : CensusWorld} (h : Progress w w') : w'.used = w.used := by
  obtain ⟨before, after, a, a', s, split, step, rfl⟩ := h
  rfl

/-- An attempt stays in the world, and one that returned has returned. -/
theorem CensusStep.attempt_kept {w w' : CensusWorld} (h : CensusStep w w') {a : Attempt}
    (ha : a ∈ w.attempts) :
    ∃ a' ∈ w'.attempts, a'.plan = a.plan ∧ (a.phase = .returned → a'.phase = .returned) := by
  cases h with
  | registerConfigs rows => exact ⟨a, ha, rfl, fun h => h⟩
  | insertAnchor row => exact ⟨a, ha, rfl, fun h => h⟩
  | targetFailure row fresh => exact ⟨a, ha, rfl, fun h => h⟩
  | start plan fresh => exact ⟨a, List.mem_append_left _ ha, rfl, fun h => h⟩
  | @attempt before after b b' s split step =>
    rw [split, List.mem_append, List.mem_cons] at ha
    rcases ha with ha | rfl | ha
    · exact ⟨a, by simp [ha], rfl, fun h => h⟩
    · exact ⟨b', by simp, step.plan_eq, step.returned_stays⟩
    · exact ⟨a, by simp [ha], rfl, fun h => h⟩

section Call

variable {self : CensusService} {lists : String → Except String (List String)} {plan : CensusPlan}
  {snapshotDate : Nat} {free : Prop} {w w' : ServiceWorld} {task task' : TargetTask}

theorem TargetStep.reaches (h : TargetStep self lists plan snapshotDate free w task w' task') :
    Relation.ReflTransGen CensusStep w.census w'.census := by
  cases h with
  | start attempt entered configured of fresh => exact .single (.start attempt fresh)
  | recorded row recording of fresh => exact .single (.targetFailure row fresh)
  | _ => exact .refl

theorem TargetStep.discovery_eq (h : TargetStep self lists plan snapshotDate free w task w' task') :
    w'.discovery = w.discovery := by
  cases h <;> rfl

theorem TargetStep.same (h : TargetStep self lists plan snapshotDate free w task w' task') :
    task'.job = task.job ∧ task'.target = task.target := by
  cases h <;> exact ⟨rfl, rfl⟩

/-- Whatever attempt is new in the world is the one that the target started. -/
theorem TargetStep.attempts (h : TargetStep self lists plan snapshotDate free w task w' task') :
    w'.census.attempts = w.census.attempts ∨ ∃ frozen attempt,
      attempt.Of self plan snapshotDate task.job task.target frozen ∧
      task'.run = .attempting attempt.attemptId ∧
      w'.census.attempts = w.census.attempts ++ [{ plan := attempt }] := by
  cases h with
  | start attempt entered configured of fresh => exact .inr ⟨_, attempt, of, rfl, rfl⟩
  | _ => exact .inl rfl

/-- The task has drawn no identifier yet. -/
def TargetTask.unstarted (task : TargetTask) : Bool :=
  match task.run with
  | .waiting => true
  | .entered _ => true
  | _ => false

/-- The attempt is of the target, on the call's date and anchor. -/
def TargetTask.Makes (self : CensusService) (plan : CensusPlan) (snapshotDate : Nat) (task : TargetTask)
    (a : Attempt) : Prop :=
  ∃ frozen, a.plan.Of self plan snapshotDate task.job task.target frozen

/-- A task that holds an identifier has an attempt of its own. -/
def TargetTask.Backed (self : CensusService) (plan : CensusPlan) (snapshotDate : Nat) (c : CensusWorld)
    (task : TargetTask) : Prop :=
  match task.run with
  | .attempting attemptId => ∃ a ∈ c.attempts, a.plan.attemptId = attemptId ∧
      task.Makes self plan snapshotDate a
  | .finished (.ok attemptId) => ∃ a ∈ c.attempts, a.plan.attemptId = attemptId ∧
      task.Makes self plan snapshotDate a ∧ a.phase = .returned
  | _ => True

theorem TargetTask.Backed.step {c c' : CensusWorld}
    (h : task.Backed self plan snapshotDate c) (hs : CensusStep c c') :
    task.Backed self plan snapshotDate c' := by
  unfold TargetTask.Backed at h ⊢
  split at h
  · obtain ⟨a, ha, hid, frozen, hof⟩ := h
    obtain ⟨a', ha', hplan, -⟩ := hs.attempt_kept ha
    exact ⟨a', ha', by rw [hplan, hid], frozen, hplan ▸ hof⟩
  · obtain ⟨a, ha, hid, ⟨frozen, hof⟩, hphase⟩ := h
    obtain ⟨a', ha', hplan, hreturned⟩ := hs.attempt_kept ha
    exact ⟨a', ha', by rw [hplan, hid], ⟨frozen, hplan ▸ hof⟩, hreturned hphase⟩
  · trivial

theorem TargetTask.Backed.later {c c' : CensusWorld} (h : task.Backed self plan snapshotDate c)
    (hrun : Relation.ReflTransGen CensusStep c c') : task.Backed self plan snapshotDate c' := by
  induction hrun with
  | refl => exact h
  | tail _ hs ih => exact ih.step hs

/-- An identifier names one attempt. -/
theorem WorldInvariant.unique {s₀ : CensusStore} {c : CensusWorld} (h : WorldInvariant s₀ c)
    {a b : Attempt} (ha : a ∈ c.attempts) (hb : b ∈ c.attempts)
    (hid : a.plan.attemptId = b.plan.attemptId) : a = b :=
  List.inj_on_of_nodup_map h.nodup ha hb hid

theorem TargetStep.backed {s₀ : CensusStore} (hw : WorldInvariant s₀ w.census)
    (h : TargetStep self lists plan snapshotDate free w task w' task')
    (hbacked : task.Backed self plan snapshotDate w.census) :
    task'.Backed self plan snapshotDate w'.census := by
  cases h with
  | start attempt entered configured of fresh =>
    exact ⟨_, List.mem_append_right _ (List.mem_singleton_self _), rfl, _, of⟩
  | returned attempting mem phase =>
    unfold TargetTask.Backed at hbacked
    rw [attempting] at hbacked
    obtain ⟨b, hb, hid, hmakes⟩ := hbacked
    obtain rfl := hw.unique hb mem hid
    exact ⟨b, hb, rfl, hmakes, phase⟩
  | _ => trivial

/-! ## One call -/

def TargetTask.entry (task : TargetTask) : JobConfig × CensusTarget := (task.job, task.target)

def JobWork.entries (entry : JobWork) : List (JobConfig × CensusTarget) :=
  entry.work.map fun target => (entry.job, target)

/-- What the plan names, job by job. -/
def CensusPlan.entries (plan : CensusPlan) : List (JobConfig × CensusTarget) :=
  plan.jobs.flatMap JobWork.entries

/-- The entries that attempts were made of. -/
def CensusWorld.made (c : CensusWorld) : List (JobConfig × CensusTarget) :=
  c.attempts.map fun a => (a.plan.job, a.plan.target)

/-- The entries that have no attempt yet. -/
def GatherState.remaining (g : GatherState) : List (JobConfig × CensusTarget) :=
  (g.tasks.filter TargetTask.unstarted).map TargetTask.entry ++ g.later.flatMap JobWork.entries

/-- A target takes a permit when one is free, and otherwise none. -/
theorem TargetStep.inside (h : TargetStep self lists plan snapshotDate free w task w' task') :
    task'.inside = true → task.inside = true ∨ free := by
  intro hinside
  cases h with
  | acquire permit waiting => exact .inr permit
  | read entered answered => exact .inl (by rw [TargetTask.inside, entered])
  | refuse errorName entered => exact .inl (by rw [TargetTask.inside, entered])
  | unconfigured errorName entered fault => exact .inl (by rw [TargetTask.inside, entered])
  | start attempt entered configured of fresh => exact .inl (by rw [TargetTask.inside, entered])
  | returned attempting mem phase => exact absurd hinside Bool.false_ne_true
  | raised errorName attempting mem phase => exact .inl (by rw [TargetTask.inside, attempting])
  | recorded row recording of fresh => exact absurd hinside Bool.false_ne_true
  | unrecorded recording => exact absurd hinside Bool.false_ne_true

/-- A target that starts its attempt had none before and starts no other. -/
theorem TargetStep.made (h : TargetStep self lists plan snapshotDate free w task w' task') :
    (w'.census.made = w.census.made ∧ (task'.unstarted = true → task.unstarted = true)) ∨
      (w'.census.made = w.census.made ++ [task.entry] ∧ task.unstarted = true ∧
        task'.unstarted = false) := by
  cases h with
  | start attempt entered configured of fresh =>
    refine .inr ⟨?_, by rw [TargetTask.unstarted, entered], rfl⟩
    unfold CensusWorld.made TargetTask.entry
    rw [List.map_append, ← of.job, ← of.target]
    rfl
  | acquire permit waiting => exact .inl ⟨rfl, fun _ => by rw [TargetTask.unstarted, waiting]⟩
  | read entered answered => exact .inl ⟨rfl, fun _ => by rw [TargetTask.unstarted, entered]⟩
  | _ => exact .inl ⟨rfl, fun h => absurd h Bool.false_ne_true⟩

/-- What is known of a call that began in `start`. -/
structure GatherInvariant (service : CensusService) (plan : CensusPlan) (snapshotDate : Nat)
    (start : ServiceWorld) (g : GatherState) : Prop where
  reach : Relation.ReflTransGen CensusStep start.census g.world.census
  discovery : g.world.discovery = start.discovery
  entries : (g.finished ++ g.tasks).map TargetTask.entry ++ g.later.flatMap JobWork.entries = plan.entries
  finished : ∀ task ∈ g.finished, task.isFinished = true
  permits : g.tasks.countP TargetTask.inside ≤ service.censusTargetConcurrency
  backed : ∀ task ∈ g.finished ++ g.tasks, task.Backed service plan snapshotDate g.world.census
  made : ∃ added, g.world.census.made = start.census.made ++ added ∧
    (added ++ g.remaining).Subperm plan.entries

namespace GatherInvariant

variable {start : ServiceWorld} {g g' : GatherState}

theorem ofBegin : GatherInvariant self plan snapshotDate start (.begin start plan) where
  reach := .refl
  discovery := rfl
  entries := by
    unfold GatherState.begin CensusPlan.entries
    rfl
  finished _ htask := absurd htask List.not_mem_nil
  permits := Nat.zero_le _
  backed _ htask := absurd htask List.not_mem_nil
  made := by
    refine ⟨[], (List.append_nil _).symm, ?_⟩
    unfold GatherState.remaining GatherState.begin CensusPlan.entries
    exact List.Subperm.refl _

theorem made_progress {c c' : CensusWorld} (h : Progress c c') : c'.made = c.made := by
  obtain ⟨before, after, a, a', s, split, step, rfl⟩ := h
  unfold CensusWorld.made
  rw [split, List.map_append, List.map_append, List.map_cons, List.map_cons, step.plan_eq]

theorem progress (h : GatherInvariant self plan snapshotDate start g) {c : CensusWorld}
    (step : Progress g.world.census c) :
    GatherInvariant self plan snapshotDate start { g with world := { g.world with census := c } } where
  reach := h.reach.tail step.censusStep
  discovery := h.discovery
  entries := h.entries
  finished := h.finished
  permits := h.permits
  backed task htask := (h.backed task htask).step step.censusStep
  made := by
    obtain ⟨added, hmade, hsub⟩ := h.made
    exact ⟨added, (made_progress step).trans hmade, hsub⟩

theorem isFinished_tasks (entry : JobWork) :
    (∀ task ∈ entry.tasks, task.inside = false ∧ task.unstarted = true) := by
  intro task htask
  obtain ⟨target, -, rfl⟩ := List.mem_map.mp htask
  exact ⟨rfl, rfl⟩

theorem nextJob (h : GatherInvariant self plan snapshotDate start g) {entry : JobWork}
    {later : List JobWork} (finished : ∀ task ∈ g.tasks, task.isFinished = true)
    (next : g.later = entry :: later) :
    GatherInvariant self plan snapshotDate start
      ⟨g.world, g.finished ++ g.tasks, entry.tasks, later⟩ := by
  have hentries : entry.tasks.map TargetTask.entry = entry.entries := by
    unfold JobWork.tasks JobWork.entries
    rw [List.map_map]
    rfl
  have hfresh : entry.tasks.filter TargetTask.unstarted = entry.tasks :=
    List.filter_eq_self.mpr fun task htask => (isFinished_tasks entry task htask).2
  -- nothing that is finished remains
  have hnone : g.tasks.filter TargetTask.unstarted = [] := by
    refine List.filter_eq_nil_iff.mpr fun task htask => ?_
    have hfinished := finished task htask
    unfold TargetTask.isFinished at hfinished
    unfold TargetTask.unstarted
    split at hfinished
    · rename_i hrun
      simp [hrun]
    · cases hfinished
  constructor
  case reach => exact h.reach
  case discovery => exact h.discovery
  case entries =>
    rw [List.map_append, hentries, ← h.entries, next, List.flatMap_cons, List.append_assoc]
  case finished =>
    intro task htask
    rcases List.mem_append.mp htask with htask | htask
    · exact h.finished task htask
    · exact finished task htask
  case permits =>
    have hzero : entry.tasks.countP TargetTask.inside = 0 := by
      refine List.countP_eq_zero.mpr fun task htask => ?_
      simp [(isFinished_tasks entry task htask).1]
    exact hzero ▸ Nat.zero_le _
  case backed =>
    intro task htask
    rcases List.mem_append.mp htask with htask | htask
    · exact h.backed task htask
    · obtain ⟨target, -, rfl⟩ := List.mem_map.mp htask
      trivial
  case made =>
    obtain ⟨added, hmade, hsub⟩ := h.made
    refine ⟨added, hmade, ?_⟩
    unfold GatherState.remaining at hsub ⊢
    rw [hnone, next, List.flatMap_cons] at hsub
    rw [hfresh, hentries]
    exact hsub

theorem target {s₀ : CensusStore} (hw : WorldInvariant s₀ g.world.census)
    (h : GatherInvariant self plan snapshotDate start g)
    {before after : List TargetTask} (split : g.tasks = before ++ task :: after)
    (step : TargetStep self lists plan snapshotDate
      (g.tasks.countP TargetTask.inside < self.censusTargetConcurrency) g.world task w' task') :
    GatherInvariant self plan snapshotDate start
      { g with world := w', tasks := before ++ task' :: after } := by
  have hentry : task'.entry = task.entry := Prod.ext step.same.1 step.same.2
  constructor
  case reach => exact h.reach.trans step.reaches
  case discovery => exact step.discovery_eq.trans h.discovery
  case entries =>
    rw [← h.entries, split]
    simp only [List.map_append, List.map_cons, hentry]
  case finished => exact h.finished
  case permits =>
    show (before ++ task' :: after).countP TargetTask.inside ≤ _
    have hpermits := h.permits
    have hinside := step.inside
    rw [split, List.countP_append, List.countP_cons] at hpermits hinside
    rw [List.countP_append, List.countP_cons]
    -- only a target that comes in raises the count, and it does so where a permit is free
    cases hin : task.inside <;> cases hin' : task'.inside <;> simp [hin, hin'] at hpermits hinside ⊢ <;>
      omega
  case backed =>
    have hkept : ∀ other ∈ g.finished ++ g.tasks, other.Backed self plan snapshotDate w'.census :=
      fun other hother => (h.backed other hother).later step.reaches
    intro other hother
    have hmem : task ∈ g.finished ++ g.tasks := by simp [split]
    rw [List.mem_append, List.mem_append, List.mem_cons] at hother
    rcases hother with hother | hother | rfl | hother
    · exact hkept other (List.mem_append_left _ hother)
    · exact hkept other (by simp [split, hother])
    · exact step.backed hw (h.backed task hmem)
    · exact hkept other (by simp [split, hother])
  case made =>
    obtain ⟨added, hmade, hsub⟩ := h.made
    unfold GatherState.remaining at hsub ⊢
    rw [split, List.filter_append, List.filter_cons, List.map_append, List.append_assoc] at hsub
    rw [List.filter_append, List.filter_cons, List.map_append, List.append_assoc]
    rcases step.made with ⟨hsame, hlate⟩ | ⟨hnew, hbefore, hafter⟩
    · refine ⟨added, hsame.trans hmade, List.Subperm.trans (List.Sublist.subperm ?_) hsub⟩
      refine ((List.Sublist.append_right ?_ _).append_left _).append_left _
      cases hin' : task'.unstarted
      · cases hin : task.unstarted <;> simp
      · simp [hlate hin', hentry]
    · -- the entry moves from those that remain to those of which an attempt was made
      refine ⟨added ++ [task.entry], ?_, ?_⟩
      · rw [hnew, hmade, List.append_assoc]
      · rw [hbefore] at hsub
        rw [hafter]
        refine List.Subperm.trans (List.Perm.subperm ?_) hsub
        simp only [if_true, Bool.false_eq_true, if_false, List.map_cons, List.append_assoc,
          List.cons_append, List.nil_append, List.perm_append_left_iff]
        exact List.perm_middle.symm

theorem run {w₀ : CensusWorld} (init : w₀.Initial)
    (reached : Relation.ReflTransGen CensusStep w₀ start.census)
    (run : Relation.ReflTransGen (GatherStep self lists plan snapshotDate) (.begin start plan) g) :
    GatherInvariant self plan snapshotDate start g := by
  induction run with
  | refl => exact ofBegin
  | tail _ hs ih =>
    cases hs with
    | progress step => exact ih.progress step
    | target split step =>
      -- identifiers are unique in what is reachable, so the attempt that returned is the target's own
      exact ih.target ((WorldInvariant.initial init).reachable (reached.trans ih.reach)) split step
    | nextJob finished next => exact ih.nextJob finished next

end GatherInvariant

/-! ## The outcome -/

/-- An attempt of the entry, on the date and the anchor of the call, returned under this identifier. -/
def CensusWorld.Completed (c : CensusWorld) (self : CensusService) (plan : CensusPlan)
    (snapshotDate : Nat) (entry : JobConfig × CensusTarget) (attemptId : Uuid) : Prop :=
  ∃ a ∈ c.attempts, a.plan.attemptId = attemptId ∧
    (∃ frozen, a.plan.Of self plan snapshotDate entry.1 entry.2 frozen) ∧ a.phase = .returned

namespace TargetTask

/-- A target that is finished has an attempt or a failure. -/
theorem result_of_finished (h : task.isFinished = true) :
    (∃ attemptId, task.attempt = some attemptId ∧ task.failure = none) ∨
      ∃ errorName : String,
        task.failure = some s!"{task.job.name}/{task.target.label}: {errorName}" := by
  cases hrun : task.run with
  | finished result =>
    cases result with
    | ok attemptId =>
      exact .inl ⟨attemptId, by rw [TargetTask.attempt, hrun], by rw [TargetTask.failure, hrun]⟩
    | error errorName => exact .inr ⟨errorName, by rw [TargetTask.failure, hrun]⟩
  | _ =>
    rw [TargetTask.isFinished, hrun] at h
    exact absurd h Bool.false_ne_true

theorem Backed.completed {c : CensusWorld} (h : task.Backed self plan snapshotDate c) {attemptId : Uuid}
    (hattempt : task.attempt = some attemptId) :
    c.Completed self plan snapshotDate task.entry attemptId := by
  unfold TargetTask.attempt at hattempt
  unfold TargetTask.Backed at h
  split at hattempt
  · rename_i made hrun
    obtain rfl := Option.some.inj hattempt
    rw [hrun] at h
    exact h
  · cases hattempt

/-- With no failure among them, finished targets have an attempt each. -/
theorem completed_of_no_failure {c : CensusWorld} {tasks : List TargetTask}
    (hfinished : ∀ task ∈ tasks, task.isFinished = true)
    (hbacked : ∀ task ∈ tasks, task.Backed self plan snapshotDate c)
    (hnone : tasks.filterMap TargetTask.failure = []) :
    List.Forall₂ (c.Completed self plan snapshotDate) (tasks.map TargetTask.entry)
      (tasks.filterMap TargetTask.attempt) := by
  induction tasks with
  | nil => exact .nil
  | cons task tasks ih =>
    have hfailure : task.failure = none :=
      List.filterMap_eq_nil_iff.mp hnone task List.mem_cons_self
    rcases result_of_finished (hfinished task List.mem_cons_self) with
      ⟨attemptId, hattempt, -⟩ | ⟨_, hsome⟩
    · rw [List.filterMap_cons_some hattempt, List.map_cons]
      refine .cons ((hbacked task List.mem_cons_self).completed hattempt) (ih ?_ ?_ ?_)
      · exact fun other hother => hfinished other (List.mem_cons_of_mem _ hother)
      · exact fun other hother => hbacked other (List.mem_cons_of_mem _ hother)
      · rwa [List.filterMap_cons_none hfailure] at hnone
    · exact nomatch hfailure.symm.trans hsome

end TargetTask

namespace GatherInvariant

variable {start : ServiceWorld} {g : GatherState}

theorem isFinished (h : GatherInvariant self plan snapshotDate start g) (ended : g.Ended) :
    ∀ task ∈ g.finished ++ g.tasks, task.isFinished = true :=
  fun task htask => (List.mem_append.mp htask).elim (h.finished task) (ended.tasks task)

theorem entries_eq (h : GatherInvariant self plan snapshotDate start g) (ended : g.Ended) :
    (g.finished ++ g.tasks).map TargetTask.entry = plan.entries := by
  have hentries := h.entries
  rwa [ended.later, List.flatMap_nil, List.append_nil] at hentries

/-- A call that returns has a returned attempt for each target of its plan. -/
theorem completed (h : GatherInvariant self plan snapshotDate start g) (ended : g.Ended)
    {attempts : List Uuid} (returned : g.outcome = .ok attempts) :
    List.Forall₂ (g.world.census.Completed self plan snapshotDate) plan.entries attempts := by
  unfold GatherState.outcome at returned
  dsimp only at returned
  split at returned
  · cases returned
  · rename_i hnone
    obtain rfl := Except.ok.inj returned
    rw [← h.entries_eq ended]
    exact TargetTask.completed_of_no_failure (h.isFinished ended) h.backed (not_not.mp hnone)

end GatherInvariant

/-- In every run of a census call at most as many targets as there are permits are inside at once, and
the attempts made are of planned targets, none of them twice.  When all have finished, the call returns
one returned attempt for each, in the order of the plan, or it raises with a failure for every target
that has no such attempt. -/
theorem gather_exact {w₀ : CensusWorld} (init : w₀.Initial) {start : ServiceWorld}
    (reached : Relation.ReflTransGen CensusStep w₀ start.census) {g : GatherState}
    (run : Relation.ReflTransGen (GatherStep self lists plan snapshotDate) (.begin start plan) g) :
    g.tasks.countP TargetTask.inside ≤ self.censusTargetConcurrency ∧
    (∃ added, g.world.census.made = start.census.made ++ added ∧ added.Subperm plan.entries) ∧
    (g.Ended →
      (∀ attempts, g.outcome = .ok attempts →
        List.Forall₂ (g.world.census.Completed self plan snapshotDate) plan.entries attempts) ∧
      ∀ e, g.outcome = .error e → ∃ failures, e = .jobRun failures ∧ failures ≠ [] ∧
        ∀ entry ∈ plan.entries,
          (∃ attemptId, g.world.census.Completed self plan snapshotDate entry attemptId) ∨
          ∃ errorName : String, s!"{entry.1.name}/{entry.2.label}: {errorName}" ∈ failures) := by
  have h := GatherInvariant.run init reached run
  obtain ⟨added, hmade, hsub⟩ := h.made
  refine ⟨h.permits, ⟨added, hmade, (List.sublist_append_left _ _).subperm.trans hsub⟩, fun ended => ?_⟩
  refine ⟨fun attempts => h.completed ended, fun e hout => ?_⟩
  unfold GatherState.outcome at hout
  dsimp only at hout
  split at hout
  · rename_i hsome
    refine ⟨_, (Except.error.inj hout).symm, hsome, fun entry hentry => ?_⟩
    rw [← h.entries_eq ended] at hentry
    obtain ⟨task, htask, rfl⟩ := List.mem_map.mp hentry
    rcases TargetTask.result_of_finished (h.isFinished ended task htask) with
      ⟨attemptId, hattempt, -⟩ | ⟨errorName, herror⟩
    · exact .inl ⟨attemptId, (h.backed task htask).completed hattempt⟩
    · exact .inr ⟨errorName, List.mem_filterMap.mpr ⟨task, htask, herror⟩⟩
  · cases hout

end Call

/-! ## A call for one pool -/

theorem GatherStep.progresses {self : CensusService} {lists : String → Except String (List String)}
    {plan : CensusPlan} {snapshotDate : Nat} {g : GatherState} {c c' : CensusWorld}
    (h : Relation.ReflTransGen Progress c c') :
    Relation.ReflTransGen (GatherStep self lists plan snapshotDate)
      { g with world := { g.world with census := c } } { g with world := { g.world with census := c' } } :=
  h.lift (fun c => { g with world := { g.world with census := c } }) fun c _ step =>
    @GatherStep.progress self lists plan snapshotDate { g with world := { g.world with census := c } } _ step

theorem solo_progress {s s' : CensusStore} {used : List Uuid} {a a' : Attempt}
    (h : AttemptStep s a s' a') : Progress ⟨s, used, [a]⟩ ⟨s', used, [a']⟩ :=
  ⟨[], [], a, a', s', rfl, h, rfl⟩

theorem worker_progress {used : List Uuid} (a : Attempt) {c c' : CensusProgram Unit × AttemptWorld}
    (h : Step workerEnv c c') : Progress (solo used a c) (solo used a c') := by
  cases h with
  | call answer =>
    rw [solo, solo, answer.2]
    exact solo_progress (.workerCall rfl answer.1)

/-- An attempt that is alone opens, collects, and returns once its worker has ended. -/
theorem progress_returned {s : CensusStore} (used : List Uuid) {plan : AttemptPlan}
    {result : Collected plan.job plan.target} {c : CensusProgram Unit × AttemptWorld}
    (run : Reaches workerEnv ((handedOver plan result).worker,
      ⟨s.write (.attemptState plan.base.started), []⟩) c) (ended : c.1 = .ret ()) :
    ∃ s' a, a.plan = plan ∧ a.phase = .returned ∧
      Relation.ReflTransGen Progress ⟨s, used, [{ plan }]⟩ ⟨s', used, [a]⟩ := by
  have hopening : AttemptStep s { plan } (s.write (.attemptState plan.base.started))
      { plan, opening := .ret () } :=
    @AttemptStep.openingCall { plan } (.write _) _ s _ (Except.ok ()) rfl (.written _ s)
  have hopened : AttemptStep (s.write (.attemptState plan.base.started)) { plan, opening := .ret () }
      (s.write (.attemptState plan.base.started))
      { plan, phase := .collecting, opening := .ret () } := .opened rfl rfl
  have hcollected : AttemptStep (s.write (.attemptState plan.base.started))
      { plan, phase := .collecting, opening := .ret () }
      (s.write (.attemptState plan.base.started)) (handedOver plan result) :=
    @AttemptStep.collected { plan, phase := .collecting, opening := .ret () } _ rfl result
  have hworker : Relation.ReflTransGen Progress
      ⟨s.write (.attemptState plan.base.started), used, [handedOver plan result]⟩
      (solo used (handedOver plan result) c) :=
    run.lift (solo used (handedOver plan result)) fun _ _ => worker_progress _
  have hreturned : AttemptStep c.2.store { handedOver plan result with worker := c.1, log := c.2.log }
      c.2.store { handedOver plan result with phase := .returned, worker := c.1, log := c.2.log } :=
    .published rfl ended
  exact ⟨c.2.store, _, rfl, rfl, .head (solo_progress hopening) (.head (solo_progress hopened)
    (.head (solo_progress hcollected) (hworker.tail (solo_progress hreturned))))⟩

def sampleCatalog : Catalog where
  chain := sampleChain
  tokens := []
  pools := [samplePool]
  universes := []
  jobs := [samplePoolJob]
  sweeps := []
  vendored _ := none
  tokens_unique := List.nodup_nil
  pools_unique := List.nodup_singleton _
  universes_unique := List.nodup_nil
  jobs_unique := List.nodup_singleton _

theorem samplePermits_pos : 1 ≤ 1 := Nat.le_refl 1

def sampleCensusService : CensusService where
  catalog := sampleCatalog
  abiRegistry := sampleRegistry
  canonicalHash _ := hexText (List.replicate 64 'f')
  canonicalJson _ := ""
  errorName _ := "DiscoveryError"
  discoveredQuarantineThreshold := 3
  censusTargetConcurrency := 1
  skipPublishedAnyConfigHash := true
  threshold_pos := by decide
  concurrency_pos := samplePermits_pos

/-- The universe of a pool, which has no members. -/
def sampleFrozen : FrozenUniverse := emptyUniverse (hexdigest (sha256 universeHeader))

theorem enter_samplePool (plan : CensusPlan) :
    plan.enter 0 samplePoolJob (.pool samplePool) = .ret sampleFrozen := by
  unfold CensusPlan.enter
  rfl

def sampleCallPlan : AttemptPlan where
  runner := sampleCensusService.runner
  job := samplePoolJob
  target := .pool samplePool
  snapshotDate := 0
  anchor := sampleAnchor
  frozen := sampleFrozen
  attemptId := "attempt"
  pool_frozen _ _ := rfl

def sampleCallResult : Collected sampleCallPlan.job sampleCallPlan.target := .pool samplePoolResult nofun

/-- The worker of the one attempt, after its seven operations. -/
@[irreducible] def sampleCallWorker : CensusProgram Unit × AttemptWorld :=
  advance (record "publication") 7 ((handedOver sampleCallPlan sampleCallResult).worker,
    ⟨sampleCensusStore.write (.attemptState sampleCallPlan.base.started), []⟩)

theorem sampleCallWorker_reached : Reaches workerEnv ((handedOver sampleCallPlan sampleCallResult).worker,
    ⟨sampleCensusStore.write (.attemptState sampleCallPlan.base.started), []⟩) sampleCallWorker := by
  rw [sampleCallWorker]
  exact reaches_advance (workerEnv_record "publication") 7 _

theorem sampleCallWorker_returned : sampleCallWorker.1 = .ret () := by
  have hended : (match sampleCallWorker.1 with
      | .ret _ => true
      | _ => false) = true := by decide +kernel
  cases hworker : sampleCallWorker.1 with
  | ret a => rfl
  | raise e => simp [hworker] at hended
  | call op k => simp [hworker] at hended

def sampleCensusPlan : CensusPlan where
  anchor := sampleAnchor
  jobs := [⟨samplePoolJob, [.pool samplePool]⟩]
  universes := ⟨100, [], [], []⟩

def sampleServiceWorld (census : CensusWorld) : ServiceWorld := ⟨census, .empty, [], true⟩

/-- The gathering of the one job, with its target at `run`. -/
def sampleGathering (census : CensusWorld) (run : TargetRun) : GatherState :=
  ⟨sampleServiceWorld census, [], [{ job := samplePoolJob, target := .pool samplePool, run }], []⟩

theorem sampleGathering_step (w w' : CensusWorld) (run run' : TargetRun)
    (step : TargetStep sampleCensusService (fun _ => .ok []) sampleCensusPlan 0
      ((sampleGathering w run).tasks.countP TargetTask.inside < sampleCensusService.censusTargetConcurrency)
      (sampleServiceWorld w) { job := samplePoolJob, target := .pool samplePool, run }
      (sampleServiceWorld w') { job := samplePoolJob, target := .pool samplePool, run := run' }) :
    GatherStep sampleCensusService (fun _ => .ok []) sampleCensusPlan 0 (sampleGathering w run)
      (sampleGathering w' run') :=
  @GatherStep.target sampleCensusService (fun _ => .ok []) sampleCensusPlan 0 (sampleGathering w run) [] []
    _ _ _ rfl step

/-- The one pool of the catalog, from the permit to the attempt that the call returns. -/
theorem sampleGathering_returns : ∃ w : CensusWorld,
    w.store.dayAnchors = sampleCensusStore.dayAnchors ∧ Relation.ReflTransGen
      (GatherStep sampleCensusService (fun _ => .ok []) sampleCensusPlan 0)
      (.begin (sampleServiceWorld ⟨sampleCensusStore, [], []⟩) sampleCensusPlan)
      (sampleGathering w (.finished (.ok "attempt"))) := by
  obtain ⟨s, a, hplan, hphase, hprogress⟩ := progress_returned ["attempt"]
    sampleCallWorker_reached sampleCallWorker_returned
  refine ⟨⟨s, ["attempt"], [a]⟩, (Progressed.ofProgress hprogress).dayAnchors, ?_⟩
  have hof : AttemptPlan.Of sampleCensusService sampleCensusPlan 0 samplePoolJob (.pool samplePool)
      sampleFrozen sampleCallPlan := ⟨rfl, rfl, rfl, rfl, rfl, rfl⟩
  have hconfigured : sampleCensusService.catalog.targetEffectiveConfig samplePoolJob (.pool samplePool) =
      .ok ⟨sampleChain.scope, samplePoolJob.scope, .pool samplePool, none, []⟩ := rfl
  have hjob : GatherStep sampleCensusService (fun _ => .ok []) sampleCensusPlan 0
      (.begin (sampleServiceWorld ⟨sampleCensusStore, [], []⟩) sampleCensusPlan)
      (sampleGathering ⟨sampleCensusStore, [], []⟩ .waiting) :=
    @GatherStep.nextJob _ _ _ _ (.begin (sampleServiceWorld ⟨sampleCensusStore, [], []⟩) sampleCensusPlan)
      ⟨samplePoolJob, [.pool samplePool]⟩ [] (fun _ htask => absurd htask List.not_mem_nil) rfl
  have hacquire := sampleGathering_step ⟨sampleCensusStore, [], []⟩ _ .waiting _
    (.acquire Nat.zero_lt_one rfl)
  have hstart := sampleGathering_step ⟨sampleCensusStore, [], []⟩
    ⟨sampleCensusStore, ["attempt"], [{ plan := sampleCallPlan }]⟩
    (.entered (.ret sampleFrozen)) (.attempting "attempt")
    (.start sampleCallPlan rfl hconfigured hof List.not_mem_nil)
  have hreturned := sampleGathering_step ⟨s, ["attempt"], [a]⟩ _ (.attempting "attempt") _
    (.returned (hplan ▸ rfl) List.mem_cons_self hphase)
  have hid : a.plan.attemptId = "attempt" := by rw [hplan, sampleCallPlan]
  rw [hid] at hreturned
  refine .head hjob (.head hacquire ?_)
  rw [show sampleCensusPlan.enter 0 samplePoolJob (.pool samplePool) = _ from enter_samplePool _]
  exact .head hstart ((GatherStep.progresses (g := sampleGathering ⟨s, [], []⟩ (.attempting "attempt"))
    hprogress).tail hreturned)

/-! ## A call with failures -/

theorem latePool_dates : ∀ first ∈ some 5, ∀ last ∈ (none : Option Nat), first < last :=
  fun _ _ _ hlast => absurd hlast (Option.not_mem_none _)

/-- A pool that starts after the date of the call. -/
def latePool : PoolConfig := { samplePool with dateStart := some 5, dates_ok := latePool_dates }

theorem busyPermits_pos : 1 ≤ 2 := by decide

/-- Two permits. -/
def busyCensusService : CensusService := { sampleCensusService with
  censusTargetConcurrency := 2
  concurrency_pos := busyPermits_pos }

def lateJob : JobConfig := { samplePoolJob with name := "late_reserves" }

def busyCensusPlan : CensusPlan where
  anchor := sampleAnchor
  jobs := [⟨samplePoolJob, [.pool samplePool, .pool latePool]⟩, ⟨lateJob, [.pool latePool]⟩]
  universes := ⟨100, [], [], []⟩

/-- The gathering of the first job, with its targets at `run` and `late`. -/
def busyGathering (census : CensusWorld) (run late : TargetRun) : GatherState :=
  ⟨sampleServiceWorld census, [],
    [{ job := samplePoolJob, target := .pool samplePool, run },
      { job := samplePoolJob, target := .pool latePool, run := late }], [⟨lateJob, [.pool latePool]⟩]⟩

/-- The gathering of the second job, with its target at `late`. -/
def lateGathering (census : CensusWorld) (late : TargetRun) : GatherState :=
  ⟨sampleServiceWorld census,
    [{ job := samplePoolJob, target := .pool samplePool, run := .finished (.ok "attempt") },
      { job := samplePoolJob, target := .pool latePool, run := .finished (.error "ValueError") }],
    [{ job := lateJob, target := .pool latePool, run := late }], []⟩

abbrev BusyStep : GatherState → GatherState → Prop :=
  GatherStep busyCensusService (fun _ => .ok []) busyCensusPlan 0

theorem busy_first (w w' : CensusWorld) {run run' : TargetRun} (late : TargetRun)
    (step : TargetStep busyCensusService (fun _ => .ok []) busyCensusPlan 0
      ((busyGathering w run late).tasks.countP TargetTask.inside < 2)
      (sampleServiceWorld w) { job := samplePoolJob, target := .pool samplePool, run }
      (sampleServiceWorld w') { job := samplePoolJob, target := .pool samplePool, run := run' }) :
    BusyStep (busyGathering w run late) (busyGathering w' run' late) :=
  @GatherStep.target busyCensusService (fun _ => .ok []) busyCensusPlan 0 (busyGathering w run late) [] _
    _ _ _ rfl step

theorem busy_second (w : CensusWorld) (run : TargetRun) {late late' : TargetRun}
    (step : TargetStep busyCensusService (fun _ => .ok []) busyCensusPlan 0
      ((busyGathering w run late).tasks.countP TargetTask.inside < 2)
      (sampleServiceWorld w) { job := samplePoolJob, target := .pool latePool, run := late }
      (sampleServiceWorld w) { job := samplePoolJob, target := .pool latePool, run := late' }) :
    BusyStep (busyGathering w run late) (busyGathering w run late') :=
  @GatherStep.target busyCensusService (fun _ => .ok []) busyCensusPlan 0 (busyGathering w run late)
    [{ job := samplePoolJob, target := .pool samplePool, run }] [] _ _ _ rfl step

theorem late_only (w : CensusWorld) {late late' : TargetRun}
    (step : TargetStep busyCensusService (fun _ => .ok []) busyCensusPlan 0
      ((lateGathering w late).tasks.countP TargetTask.inside < 2)
      (sampleServiceWorld w) { job := lateJob, target := .pool latePool, run := late }
      (sampleServiceWorld w) { job := lateJob, target := .pool latePool, run := late' }) :
    BusyStep (lateGathering w late) (lateGathering w late') :=
  @GatherStep.target busyCensusService (fun _ => .ok []) busyCensusPlan 0 (lateGathering w late) [] []
    _ _ _ rfl step

theorem enter_latePool (plan : CensusPlan) (job : JobConfig) :
    ∃ e, plan.enter 0 job (.pool latePool) = .raise e := ⟨_, rfl⟩

/-- Both targets of the first job are inside at once.  The pool that starts later fails under either job. -/
theorem busyGathering_ends : ∃ w : CensusWorld, Relation.ReflTransGen BusyStep
    (.begin (sampleServiceWorld ⟨sampleCensusStore, [], []⟩) busyCensusPlan)
    (lateGathering w (.finished (.error "ValueError"))) := by
  obtain ⟨s, a, hplan, hphase, hprogress⟩ := progress_returned ["attempt"]
    sampleCallWorker_reached sampleCallWorker_returned
  obtain ⟨e, henter⟩ := enter_latePool busyCensusPlan samplePoolJob
  obtain ⟨e', henter'⟩ := enter_latePool busyCensusPlan lateJob
  refine ⟨⟨s, ["attempt"], [a]⟩, ?_⟩
  have hof : AttemptPlan.Of busyCensusService busyCensusPlan 0 samplePoolJob (.pool samplePool)
      sampleFrozen sampleCallPlan := ⟨rfl, rfl, rfl, rfl, rfl, rfl⟩
  have hconfigured : busyCensusService.catalog.targetEffectiveConfig samplePoolJob (.pool samplePool) =
      .ok ⟨sampleChain.scope, samplePoolJob.scope, .pool samplePool, none, []⟩ := rfl
  have hjob : BusyStep (.begin (sampleServiceWorld ⟨sampleCensusStore, [], []⟩) busyCensusPlan)
      (busyGathering ⟨sampleCensusStore, [], []⟩ .waiting .waiting) :=
    @GatherStep.nextJob _ _ _ _ (.begin (sampleServiceWorld ⟨sampleCensusStore, [], []⟩) busyCensusPlan)
      ⟨samplePoolJob, [.pool samplePool, .pool latePool]⟩ [⟨lateJob, [.pool latePool]⟩]
      (fun _ htask => absurd htask List.not_mem_nil) rfl
  -- Each target of the first job takes one of the two permits.
  have hboth : Relation.ReflTransGen BusyStep
      (busyGathering ⟨sampleCensusStore, [], []⟩ .waiting .waiting)
      (busyGathering ⟨sampleCensusStore, [], []⟩ (.entered (.ret sampleFrozen)) (.entered (.raise e))) := by
    have hfirst := busy_first ⟨sampleCensusStore, [], []⟩ _ .waiting (.acquire (by decide) rfl)
    have hsecond := busy_second ⟨sampleCensusStore, [], []⟩ (.entered (.ret sampleFrozen))
      (.acquire (by decide) rfl)
    rw [show busyCensusPlan.enter 0 samplePoolJob (.pool samplePool) = _ from enter_samplePool _] at hfirst
    rw [show busyCensusPlan.enter 0 samplePoolJob (.pool latePool) = _ from henter] at hsecond
    exact .head hfirst (.single hsecond)
  -- The late pool is refused before an attempt, and its failure row is lost.
  have hrefused := busy_second ⟨sampleCensusStore, [], []⟩ (.entered (.ret sampleFrozen))
    (.refuse (e := e) "ValueError" rfl)
  have hstart := busy_first ⟨sampleCensusStore, [], []⟩
    ⟨sampleCensusStore, ["attempt"], [{ plan := sampleCallPlan }]⟩ (.recording "ValueError")
    (.start sampleCallPlan rfl hconfigured hof List.not_mem_nil)
  have hdropped : BusyStep (busyGathering ⟨sampleCensusStore, ["attempt"], [{ plan := sampleCallPlan }]⟩
      (.attempting "attempt") (.recording "ValueError"))
      (busyGathering ⟨sampleCensusStore, ["attempt"], [{ plan := sampleCallPlan }]⟩
        (.attempting "attempt") (.finished (.error "ValueError"))) := busy_second _ _ (.unrecorded rfl)
  have hprogressed : Relation.ReflTransGen BusyStep
      (busyGathering ⟨sampleCensusStore, ["attempt"], [{ plan := sampleCallPlan }]⟩
        (.attempting "attempt") (.finished (.error "ValueError")))
      (busyGathering ⟨s, ["attempt"], [a]⟩ (.attempting "attempt") (.finished (.error "ValueError"))) :=
    GatherStep.progresses (g := busyGathering ⟨s, [], []⟩ (.attempting "attempt")
      (.finished (.error "ValueError"))) hprogress
  have hid : a.plan.attemptId = "attempt" := by rw [hplan, sampleCallPlan]
  have hreturned := @busy_first ⟨s, ["attempt"], [a]⟩ _ (.attempting "attempt") _
    (.finished (.error "ValueError")) (.returned (hplan ▸ rfl) List.mem_cons_self hphase)
  rw [hid] at hreturned
  -- The second job waits for every target of the first.
  have hnext : BusyStep (busyGathering ⟨s, ["attempt"], [a]⟩ (.finished (.ok "attempt"))
      (.finished (.error "ValueError"))) (lateGathering ⟨s, ["attempt"], [a]⟩ .waiting) := by
    refine @GatherStep.nextJob _ _ _ _ (busyGathering ⟨s, ["attempt"], [a]⟩ (.finished (.ok "attempt"))
      (.finished (.error "ValueError"))) ⟨lateJob, [.pool latePool]⟩ [] (fun task htask => ?_) rfl
    rcases List.mem_pair.mp htask with rfl | rfl <;> rfl
  have hlate : Relation.ReflTransGen BusyStep (lateGathering ⟨s, ["attempt"], [a]⟩ .waiting)
      (lateGathering ⟨s, ["attempt"], [a]⟩ (.finished (.error "ValueError"))) := by
    have hacquire := @late_only ⟨s, ["attempt"], [a]⟩ .waiting _ (.acquire Nat.two_pos rfl)
    rw [show busyCensusPlan.enter 0 lateJob (.pool latePool) = _ from henter'] at hacquire
    exact .head hacquire (.head (late_only _ (.refuse "ValueError" rfl))
      (.single (late_only _ (.unrecorded rfl))))
  exact .head hjob (hboth.trans (.head hrefused (.head hstart (.head hdropped
    (hprogressed.trans (.head hreturned (.head hnext hlate)))))))

/-- One call returns its attempt; the other raises, with one attempt and two failures. -/
theorem gather_exact_sample :
    (∃ w : CensusWorld, List.Forall₂ (w.Completed sampleCensusService sampleCensusPlan 0)
      [(samplePoolJob, .pool samplePool)] ["attempt"]) ∧
    ∃ (w : CensusWorld) (failures : List String), failures.length = 2 ∧
      ∀ entry ∈ busyCensusPlan.entries,
        (∃ attemptId, w.Completed busyCensusService busyCensusPlan 0 entry attemptId) ∨
          ∃ errorName : String, s!"{entry.1.name}/{entry.2.label}: {errorName}" ∈ failures := by
  constructor
  · obtain ⟨w, -, hrun⟩ := sampleGathering_returns
    obtain ⟨-, -, hended⟩ := gather_exact sampleCensusStore_initial .refl hrun
    refine ⟨w, (hended ⟨rfl, fun task htask => ?_⟩).1 _ rfl⟩
    obtain rfl := List.mem_singleton.mp htask
    rfl
  · obtain ⟨w, hrun⟩ := busyGathering_ends
    obtain ⟨-, -, hended⟩ := gather_exact sampleCensusStore_initial .refl hrun
    obtain ⟨failures, heq, -, hentries⟩ := (hended ⟨rfl, fun task htask => by
      obtain rfl := List.mem_singleton.mp htask
      rfl⟩).2 _ rfl
    obtain rfl := ServiceException.jobRun.inj heq
    exact ⟨w, _, rfl, hentries⟩

end RpcStateIndexer
