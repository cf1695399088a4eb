import RpcStateIndexer.Census.ViewsCorrect
import RpcStateIndexer.Compute.ClProfileContract

/-!
# Recomputing a profile

The table of the profile is only ever appended to, keyed by the lower tick of a segment.  A history is
any interleaving of the census with runs of the module, which may stop anywhere; a run sees one state
of the published views.
-/

namespace RpcStateIndexer

open Reasoning Program

structure ComputeWorld where
  census : CensusWorld
  profile : List ProfileRow

/-- How the store answers.  The states come in any order; an insert that fails may have taken effect. -/
inductive ComputeAnswered : (op : ComputeOp) → ComputeWorld → ComputeAns op → ComputeWorld → Prop where
  | clStates {chainId snapshotDate : Nat} {w : ComputeWorld} {states : List ClStateSource}
      (perm : states.Perm (w.census.store.clStateSources chainId snapshotDate)) :
      ComputeAnswered (.clStates chainId snapshotDate) w (.ok states) w
  | ticks {chainId snapshotDate : Nat} {pool : String} {attempt : Uuid} {w : ComputeWorld} :
      ComputeAnswered (.ticks chainId snapshotDate pool attempt) w
        (.ok (w.census.store.tickSources chainId snapshotDate pool attempt)) w
  | inserted {rows : List ProfileRow} {w : ComputeWorld} :
      ComputeAnswered (.insertProfile rows) w (.ok ()) { w with profile := w.profile ++ rows }
  | failed {op : ComputeOp} {w : ComputeWorld} (e : Failure) : ComputeAnswered op w (.error e) w
  | unacknowledged {rows : List ProfileRow} {w : ComputeWorld} (e : Failure) :
      ComputeAnswered (.insertProfile rows) w (.error e) { w with profile := w.profile ++ rows }

/-- A step of a history: the census moves, or the module runs for a date and stops somewhere. -/
inductive ComputeStep : ComputeWorld → ComputeWorld → Prop where
  | census {w : ComputeWorld} {census : CensusWorld} (step : CensusStep w.census census) :
      ComputeStep w { w with census := census }
  | compute {w w' : ComputeWorld} {p : ComputeProgram Nat} (chainId snapshotDate : Nat)
      (run : Reaches ComputeAnswered (ClProfileModule.compute chainId snapshotDate, w) (p, w')) :
      ComputeStep w w'

/-! ## What the view should hold -/

/-- The segments of a published state. -/
def CensusStore.segmentsOf (s : CensusStore) (chainId snapshotDate : Nat) (state : ClStateSource) :
    Except String (List ProfileRow) :=
  segments chainId snapshotDate state
    (s.tickSources chainId snapshotDate state.poolAddress state.attemptId)

/-- The rows of the view for the date are exactly the segments of the states published for it. -/
def Converged (w : ComputeWorld) (chainId snapshotDate : Nat) : Prop :=
  ∀ row, (row ∈ profileView w.profile ∧ row.chainId = chainId ∧ row.snapshotDate = snapshotDate) ↔
    ∃ state ∈ w.census.store.clStateSources chainId snapshotDate, ∃ rows,
      w.census.store.segmentsOf chainId snapshotDate state = .ok rows ∧ row ∈ rows

/-- A tick that starts a segment: there is a higher one. -/
def StartsSegment (ticks : List TickSource) (tick : Int) : Prop :=
  (∃ source ∈ ticks, source.tick = tick) ∧ ∃ source ∈ ticks, tick < source.tick

/-- A tick that starts a segment of a published state. -/
def CensusStore.Starts (s : CensusStore) (chainId snapshotDate : Nat) (state : ClStateSource)
    (tick : Int) : Prop :=
  StartsSegment (s.tickSources chainId snapshotDate state.poolAddress state.attemptId) tick

/-- What is published replaces what the view holds for the date: every row of the view starts at a tick
that starts a segment of its pool again, and no two published states of one pool have segments that
start at the same tick. -/
structure Replaces (w : ComputeWorld) (chainId snapshotDate : Nat) : Prop where
  covered : ∀ row ∈ profileView w.profile, row.chainId = chainId → row.snapshotDate = snapshotDate →
    ∃ state ∈ w.census.store.clStateSources chainId snapshotDate,
      state.poolAddress = row.poolAddress ∧
        w.census.store.Starts chainId snapshotDate state row.tickLower
  apart : ∀ state ∈ w.census.store.clStateSources chainId snapshotDate,
    ∀ other ∈ w.census.store.clStateSources chainId snapshotDate,
      state.poolAddress = other.poolAddress → state ≠ other → ∀ tick,
        w.census.store.Starts chainId snapshotDate state tick →
          ¬ w.census.store.Starts chainId snapshotDate other tick

/-! ## What a run writes -/

section Run

variable {chainId snapshotDate : Nat}

/-- The rows of the states were appended, in the order of the states. -/
structure Wrote (chainId snapshotDate : Nat) (w : ComputeWorld) (states : List ClStateSource)
    (w' : ComputeWorld) : Prop where
  census : w'.census = w.census
  rows : ∃ written, w'.profile = w.profile ++ List.flatten written ∧
    List.Forall₂ (fun state rows => w.census.store.segmentsOf chainId snapshotDate state = .ok rows)
      states written

/-- An operation leaves the census alone. -/
theorem ComputeAnswered.census_eq {op : ComputeOp} {w w' : ComputeWorld} {a : ComputeAns op}
    (h : ComputeAnswered op w a w') : w'.census = w.census := by
  cases h <;> rfl

theorem returns_request (op : ComputeOp) (w : ComputeWorld) :
    Returns ComputeAnswered (fun w' => w'.census = w.census)
      (fun a w' => ComputeAnswered op w (.ok a) w') (ClProfileModule.request op) w := by
  intro a w' h
  refine ⟨h.census_eq, ?_⟩
  cases a with
  | error e => exact h.census_eq
  | ok a => exact h

theorem returns_insertRows (rows : List ProfileRow) (w : ComputeWorld) :
    Returns ComputeAnswered (fun w' => w'.census = w.census)
      (fun _ w' => w' = { w with profile := w.profile ++ rows }) (ClProfileModule.insertRows rows) w := by
  cases rows with
  | nil =>
    show w = { w with profile := w.profile ++ [] }
    rw [List.append_nil]
  | cons row rows =>
    apply (returns_request (.insertProfile (row :: rows)) w).mono
    intro _ w' h
    cases h
    rfl

theorem returns_computeState (state : ClStateSource) (w : ComputeWorld) :
    Returns ComputeAnswered (fun w' => w'.census = w.census)
      (fun _ w' => Wrote chainId snapshotDate w [state] w')
      (ClProfileModule.computeState chainId snapshotDate state) w := by
  refine Returns.bind (returns_request _ w) ?_
  intro ticks w₁ hticks
  cases hticks
  refine Returns.ofExcept_bind ?_ ?_
  · rfl
  intro rows hrows
  refine Returns.bind (returns_insertRows rows w) ?_
  rintro _ w₂ rfl
  apply Returns.ret
  refine ⟨rfl, [rows], ?_, .cons (except_mapError_eq_ok_iff.mp hrows) .nil⟩
  rw [List.flatten_singleton]

/-- The loop over the states writes the rows of each. -/
theorem returns_computeStates (states : List ClStateSource) (w : ComputeWorld) (written : Nat) :
    Returns ComputeAnswered (fun w' => w'.census = w.census)
      (fun _ w' => Wrote chainId snapshotDate w states w')
      (ClProfileModule.computeStates chainId snapshotDate written states) w := by
  induction states generalizing written w with
  | nil => exact ⟨rfl, [], (List.append_nil _).symm, .nil⟩
  | cons state states ih =>
    refine Returns.bind (returns_computeState state w) ?_
    rintro count w₁ ⟨hcensus₁, first, hprofile₁, hfirst⟩
    have hrest := ih w₁ (written + count)
    rw [hcensus₁] at hrest
    apply hrest.mono
    rintro _ w₂ ⟨hcensus₂, rest, hprofile₂, hrows⟩
    rw [hcensus₁] at hrows
    refine ⟨hcensus₂.trans hcensus₁, first ++ rest, ?_, List.rel_append hfirst hrows⟩
    rw [hprofile₂, hprofile₁, List.flatten_append, List.append_assoc]

/-- A run that returns wrote the rows of the published states. -/
theorem wrote_of_compute {w w' : ComputeWorld} {n : Nat}
    (run : Reaches ComputeAnswered (ClProfileModule.compute chainId snapshotDate, w) (.ret n, w')) :
    ∃ states : List ClStateSource,
      states.Perm (w.census.store.clStateSources chainId snapshotDate) ∧
        Wrote chainId snapshotDate w states w' := by
  have hreturns : Returns ComputeAnswered (fun w' => w'.census = w.census)
      (fun _ w' => ∃ states : List ClStateSource,
        states.Perm (w.census.store.clStateSources chainId snapshotDate) ∧
          Wrote chainId snapshotDate w states w')
      (ClProfileModule.compute chainId snapshotDate) w := by
    refine Returns.bind (returns_request _ w) ?_
    intro states w₁ hstates
    cases hstates with
    | clStates perm =>
      apply (returns_computeStates states w 0).mono
      intro _ w₂ hwrote
      exact ⟨states, perm, hwrote⟩
  exact Safe.returns hreturns rfl run

end Run

/-! ## The segments of a state -/

section Segments

variable {chainId snapshotDate : Nat} {state : ClStateSource} {ticks : List TickSource}
  {rows : List ProfileRow}

theorem mem_segments (h : segments chainId snapshotDate state ticks = .ok rows) {row : ProfileRow}
    (hrow : row ∈ rows) : row.chainId = chainId ∧ row.poolAddress = state.poolAddress ∧
      row.snapshotDate = snapshotDate ∧ row.sourceAttemptId = state.attemptId := by
  obtain ⟨-, rfl⟩ := segments_eq_ok_iff.mp h
  obtain ⟨s, -, rfl⟩ := List.mem_map.mp hrow
  exact ⟨rfl, rfl, rfl, rfl⟩

/-- Within a state a row is determined by its lower tick. -/
theorem segment_unique (hascending : ticks.Pairwise fun a b => a.tick < b.tick)
    (h : segments chainId snapshotDate state ticks = .ok rows) {row other : ProfileRow}
    (hrow : row ∈ rows) (hother : other ∈ rows) (heq : row.tickLower = other.tickLower) :
    row = other := by
  obtain ⟨-, rfl⟩ := segments_eq_ok_iff.mp h
  obtain ⟨s, hs, rfl⟩ := List.mem_map.mp hrow
  obtain ⟨s', hs', rfl⟩ := List.mem_map.mp hother
  rw [span_unique (ascending_netJumps hascending) hs hs' heq]

theorem exists_segment_iff (hascending : ticks.Pairwise fun a b => a.tick < b.tick)
    (h : segments chainId snapshotDate state ticks = .ok rows) (tick : Int) :
    (∃ row ∈ rows, row.tickLower = tick) ↔ StartsSegment ticks tick := by
  obtain ⟨-, rfl⟩ := segments_eq_ok_iff.mp h
  have hlower : tick ∈ (spans (0 : Int) (netJumps ticks)).map Span.lower ↔ _ :=
    mem_lower_spans (ascending_netJumps hascending)
  have hmap : (netJumps ticks).map Prod.fst = ticks.map TickSource.tick := by
    rw [netJumps, List.map_map]
    rfl
  rw [hmap] at hlower
  simp only [List.mem_map, exists_exists_and_eq_and] at hlower
  rw [StartsSegment, ← hlower]
  simp [spanRow]

end Segments

/-! ## The published views of a reachable census -/

section Published

variable {c₀ c : CensusWorld} (init : c₀.Initial) (empty : c₀.store = {})
  (reach : Relation.ReflTransGen CensusStep c₀ c)
include init empty reach

/-- The attempt of a published row determines what the row belongs to. -/
theorem published_scope_unique {α β κ κ' : Type} [DecidableEq κ] [DecidableEq κ'] {kind : TargetKind}
    {column : α → κ} {column' : β → κ'} {rows : List (Stored α)} {rows' : List (Stored β)}
    {x : Stored α × PublicationRow} {y : Stored β × PublicationRow}
    (hx : x ∈ c.store.published kind column rows) (hy : y ∈ c.store.published kind column' rows')
    (heq : x.1.scope.attemptId = y.1.scope.attemptId) : x.1.scope = y.1.scope ∧ x.2 = y.2 := by
  obtain ⟨-, hp, hid⟩ := CensusStore.mem_published.mp hx
  obtain ⟨-, hp', hid'⟩ := CensusStore.mem_published.mp hy
  obtain ⟨a, ha, _, hconsumed⟩ := exists_consumedAttempt init empty reach hp
  obtain ⟨a', ha', _, hconsumed'⟩ := exists_consumedAttempt init empty reach hp'
  have hw := (WorldInvariant.initial init).reachable reach
  have hplan : a.plan.attemptId = a'.plan.attemptId := by
    rw [← hconsumed.published.2, ← hconsumed'.published.2, ← hid, ← hid', heq]
  obtain rfl : a = a' := List.inj_on_of_nodup_map hw.nodup ha ha' hplan
  have htarget : CensusStore.targetOf kind x.1.scope = CensusStore.targetOf kind y.1.scope := by
    rw [← hconsumed.target, hconsumed'.target]
  constructor
  · simp only [CensusStore.targetOf, TargetKey.mk.injEq, true_and] at htarget
    obtain ⟨hchain, hjob, haddress, hdate⟩ := htarget
    have hsame : ∀ scope other : AttemptScope, scope.chainId = other.chainId →
        scope.jobName = other.jobName → scope.targetAddress = other.targetAddress →
        scope.snapshotDate = other.snapshotDate → scope.attemptId = other.attemptId →
        scope = other := by
      rintro ⟨⟩ ⟨⟩ rfl rfl rfl rfl rfl
      rfl
    exact hsame _ _ hchain hjob haddress hdate heq
  · rw [htarget, hp'] at hp
    exact (Option.some.inj hp).symm

theorem clStateSources_unique {chainId snapshotDate : Nat} {state other : ClStateSource}
    (h : state ∈ c.store.clStateSources chainId snapshotDate)
    (h' : other ∈ c.store.clStateSources chainId snapshotDate)
    (heq : state.attemptId = other.attemptId) : state = other := by
  obtain ⟨x, hx, rfl⟩ := List.mem_map.mp h
  obtain ⟨y, hy, rfl⟩ := List.mem_map.mp h'
  obtain ⟨hscope, hpublication⟩ := published_scope_unique init empty reach
    (List.mem_of_mem_filter hx) (List.mem_of_mem_filter hy) heq
  rw [hscope, hpublication]

theorem tickSources_ascending (chainId snapshotDate : Nat) (pool : String) (attempt : Uuid) :
    (c.store.tickSources chainId snapshotDate pool attempt).Pairwise fun a b => a.tick < b.tick := by
  apply sortBy_pairwise_lt
  rw [List.pairwise_map]
  have hkeys : c.store.poolTicksPublished.Pairwise fun x y =>
      Stored.key PoolTickRow.tick x.1 ≠ Stored.key PoolTickRow.tick y.1 := by
    apply List.Pairwise.filterMap _ _ (final_pairwise (Stored.key PoolTickRow.tick) c.store.poolTicks)
    intro r r' hne x hx y hy
    obtain ⟨p, -, rfl⟩ := Option.map_eq_some_iff.mp hx
    obtain ⟨p', -, rfl⟩ := Option.map_eq_some_iff.mp hy
    exact hne
  have hfilter := hkeys.filter fun x =>
    x.1.scope.chainId = chainId && x.1.scope.snapshotDate = snapshotDate &&
      x.1.scope.targetAddress = pool && x.1.scope.attemptId = attempt
  refine hfilter.imp_of_mem ?_
  intro x y hx hy hne htick
  rw [List.mem_filter] at hx hy
  simp only [Bool.and_eq_true, decide_eq_true_eq] at hx hy
  -- Both rows are of one attempt, so they have one scope and differ in their ticks.
  have hscope := (published_scope_unique init empty reach hx.1 hy.1 (hx.2.2.trans hy.2.2.symm)).1
  exact hne (Prod.ext hscope htick)

end Published

/-! ## When a recomputation converges -/

/-- A run of the module leaves the census alone. -/
theorem census_of_compute {chainId snapshotDate : Nat} {w : ComputeWorld}
    {x : ComputeProgram Nat × ComputeWorld}
    (run : Reaches ComputeAnswered (ClProfileModule.compute chainId snapshotDate, w) x) :
    x.2.census = w.census := by
  induction run with
  | refl => rfl
  | tail _ hstep ih =>
    cases hstep with
    | call answer => exact answer.census_eq.trans ih

/-- The census of a history is a run of the census. -/
theorem census_of_computeSteps {w₀ w : ComputeWorld} (h : Relation.ReflTransGen ComputeStep w₀ w) :
    Relation.ReflTransGen CensusStep w₀.census w.census := by
  induction h with
  | refl => exact .refl
  | tail _ hstep ih =>
    cases hstep with
    | census step => exact ih.tail step
    | compute chainId snapshotDate run =>
      rw [census_of_compute run]
      exact ih

section Converges

variable {chainId snapshotDate : Nat} {w w' : ComputeWorld} {states : List ClStateSource}

/-- The rows that were written are the segments of the published states. -/
theorem Wrote.mem_iff (h : Wrote chainId snapshotDate w states w')
    (perm : states.Perm (w.census.store.clStateSources chainId snapshotDate)) :
    ∃ new, w'.profile = w.profile ++ new ∧
      (∀ row, row ∈ new ↔ ∃ state ∈ w.census.store.clStateSources chainId snapshotDate, ∃ rows,
        w.census.store.segmentsOf chainId snapshotDate state = .ok rows ∧ row ∈ rows) ∧
      ∀ state ∈ w.census.store.clStateSources chainId snapshotDate, ∃ rows,
        w.census.store.segmentsOf chainId snapshotDate state = .ok rows := by
  obtain ⟨-, written, hprofile, hall⟩ := h
  refine ⟨written.flatten, hprofile, fun row => ?_, fun state hstate => ?_⟩
  · rw [List.mem_flatten]
    constructor
    · rintro ⟨rows, hrows, hrow⟩
      obtain ⟨state, hstate, hsegments⟩ := forall₂_right hall hrows
      exact ⟨state, perm.mem_iff.mp hstate, rows, hsegments, hrow⟩
    · rintro ⟨state, hstate, rows, hsegments, hrow⟩
      obtain ⟨rows', hrows', hsegments'⟩ := forall₂_left hall (perm.mem_iff.mpr hstate)
      obtain rfl := Except.ok.inj (hsegments.symm.trans hsegments')
      exact ⟨rows, hrows', hrow⟩
  · obtain ⟨rows, -, hsegments⟩ := forall₂_left hall (perm.mem_iff.mpr hstate)
    exact ⟨rows, hsegments⟩

end Converges

/-- After any history, a run of the module that returns leaves the view of the date with exactly the
segments of what is published if and only if what is published replaces what the view held. -/
theorem compute_converges_iff {c₀ : CensusWorld} {w w' : ComputeWorld} (init : c₀.Initial)
    (empty : c₀.store = {}) (history : Relation.ReflTransGen ComputeStep ⟨c₀, []⟩ w)
    {chainId snapshotDate n : Nat}
    (run : Reaches ComputeAnswered (ClProfileModule.compute chainId snapshotDate, w) (.ret n, w')) :
    Converged w' chainId snapshotDate ↔ Replaces w chainId snapshotDate := by
  have reach := census_of_computeSteps history
  obtain ⟨states, perm, hwrote⟩ := wrote_of_compute run
  obtain ⟨new, hprofile, hnew, hsegments⟩ := hwrote.mem_iff perm
  have hascending := tickSources_ascending init empty reach chainId snapshotDate
  have hview : ∀ row, row ∈ profileView w'.profile ↔ row ∈ final ProfileRow.key new ∨
      row ∈ profileView w.profile ∧ ∀ later ∈ new, later.key ≠ row.key := by
    intro row
    rw [profileView, hprofile, mem_final_append]
    rfl
  -- A new row starts where a segment of a published state of its pool starts, and conversely.
  have hstarts : ∀ state ∈ w.census.store.clStateSources chainId snapshotDate, ∀ tick,
      w.census.store.Starts chainId snapshotDate state tick →
        ∃ row ∈ new, row.key = (chainId, state.poolAddress, snapshotDate, tick) ∧
          row.sourceAttemptId = state.attemptId := by
    intro state hstate tick htick
    obtain ⟨rows, hrows⟩ := hsegments state hstate
    obtain ⟨row, hrow, rfl⟩ := (exists_segment_iff (hascending _ _) hrows tick).mpr htick
    obtain ⟨hchain, hpool, hdate, hattempt⟩ := mem_segments hrows hrow
    refine ⟨row, (hnew row).mpr ⟨state, hstate, rows, hrows, hrow⟩, ?_, hattempt⟩
    rw [ProfileRow.key, hchain, hpool, hdate]
  have hstate : ∀ row ∈ new, row.chainId = chainId ∧ row.snapshotDate = snapshotDate ∧
      ∃ state ∈ w.census.store.clStateSources chainId snapshotDate,
        state.poolAddress = row.poolAddress ∧
          w.census.store.Starts chainId snapshotDate state row.tickLower := by
    intro row hrow
    obtain ⟨state, hstate, rows, hrows, hmem⟩ := (hnew row).mp hrow
    obtain ⟨hchain, hpool, hdate, -⟩ := mem_segments hrows hmem
    exact ⟨hchain, hdate, state, hstate, hpool.symm,
      (exists_segment_iff (hascending _ _) hrows _).mp ⟨row, hmem, rfl⟩⟩
  rw [Converged, hwrote.census]
  simp only [hview, ← hnew]
  constructor
  · intro hconverged
    constructor
    · intro row hrow hchain hdate
      by_cases hkey : ∃ later ∈ new, later.key = row.key
      · obtain ⟨later, hlater, hsame⟩ := hkey
        simp only [ProfileRow.key, Prod.mk.injEq] at hsame
        obtain ⟨-, -, state, hmem, hpool, htick⟩ := hstate later hlater
        exact ⟨state, hmem, hpool.trans hsame.2.1, hsame.2.2.2 ▸ htick⟩
      · have hold : ∀ later ∈ new, later.key ≠ row.key := fun later hlater hsame =>
          hkey ⟨later, hlater, hsame⟩
        have hmem := (hconverged row).mp ⟨.inr ⟨hrow, hold⟩, hchain, hdate⟩
        exact absurd rfl (hold row hmem)
    · intro state hmem other hother hpool hne tick htick hthere
      obtain ⟨row, hrow, hkey, hattempt⟩ := hstarts state hmem tick htick
      obtain ⟨row', hrow', hkey', hattempt'⟩ := hstarts other hother tick hthere
      have hfinal := ((hview row).mpr ((hconverged row).mpr hrow).1)
      have hfinal' := ((hview row').mpr ((hconverged row').mpr hrow').1)
      have hsame : row = row' := final_unique hfinal hfinal' (by rw [hkey, hkey', hpool])
      apply hne
      apply clStateSources_unique init empty reach hmem hother
      rw [← hattempt, ← hattempt', hsame]
  · rintro ⟨hcovered, hapart⟩ row
    constructor
    · rintro ⟨hfinal | ⟨hrow, hold⟩, hchain, hdate⟩
      · exact mem_of_mem_final hfinal
      · obtain ⟨state, hmem, hpool, htick⟩ := hcovered row hrow hchain hdate
        obtain ⟨later, hlater, hkey, -⟩ := hstarts state hmem row.tickLower htick
        refine absurd ?_ (hold later hlater)
        rw [hkey, ProfileRow.key, hchain, hpool, hdate]
    · intro hrow
      obtain ⟨hchain, hdate, -⟩ := hstate row hrow
      refine ⟨.inl ?_, hchain, hdate⟩
      obtain ⟨last, hlast, hkey⟩ := (exists_final hrow : ∃ last ∈ final ProfileRow.key new, last.key = row.key)
      -- The last row of the key is a segment of the same state, so it is the same row.
      obtain ⟨state, hmem, rows, hrows, hin⟩ := (hnew row).mp hrow
      obtain ⟨other, hother, rows', hrows', hin'⟩ := (hnew last).mp (mem_of_mem_final hlast)
      simp only [ProfileRow.key, Prod.mk.injEq] at hkey
      have hpool : state.poolAddress = other.poolAddress := by
        rw [← (mem_segments hrows hin).2.1, ← (mem_segments hrows' hin').2.1, hkey.2.1]
      have hsame : state = other := by
        by_contra hne
        exact hapart state hmem other hother hpool hne row.tickLower
          ((exists_segment_iff (hascending _ _) hrows _).mp ⟨row, hin, rfl⟩)
          ((exists_segment_iff (hascending _ _) hrows' _).mp ⟨last, hin', hkey.2.2.2⟩)
      subst hsame
      obtain rfl := Except.ok.inj (hrows.symm.trans hrows')
      rw [segment_unique (hascending _ _) hrows hin hin' hkey.2.2.2.symm]
      exact hlast

/-! ## A pool that is published, and registered anew -/

theorem computeSteps_of_census {c c' : CensusWorld} (h : Relation.ReflTransGen CensusStep c c')
    (profile : List ProfileRow) :
    Relation.ReflTransGen ComputeStep ⟨c, profile⟩ ⟨c', profile⟩ :=
  h.lift (fun census => ComputeWorld.mk census profile) fun _ _ step => .census step

/-- A run over one published state. -/
theorem reaches_compute_one {chainId snapshotDate : Nat} {w : ComputeWorld} {state : ClStateSource}
    {row : ProfileRow} {rows : List ProfileRow}
    (hstates : w.census.store.clStateSources chainId snapshotDate = [state])
    (hrows : w.census.store.segmentsOf chainId snapshotDate state = .ok (row :: rows)) :
    Reaches ComputeAnswered (ClProfileModule.compute chainId snapshotDate, w)
      (.ret (0 + (row :: rows).length), { w with profile := w.profile ++ row :: rows }) := by
  refine .head (.call (ComputeAnswered.clStates (List.Perm.of_eq hstates.symm)))
    (.head (.call ComputeAnswered.ticks) ?_)
  rw [CensusStore.segmentsOf] at hrows
  show Reaches ComputeAnswered (ofExcept (Except.mapError _ (segments chainId snapshotDate state
    (w.census.store.tickSources chainId snapshotDate state.poolAddress state.attemptId))) >>= _ >>= _, w)
    _
  rw [hrows]
  exact .head (.call ComputeAnswered.inserted) .refl

/-- A run where nothing is published. -/
theorem reaches_compute_none {chainId snapshotDate : Nat} {w : ComputeWorld}
    (hstates : w.census.store.clStateSources chainId snapshotDate = []) :
    Reaches ComputeAnswered (ClProfileModule.compute chainId snapshotDate, w) (.ret 0, w) :=
  .head (.call (ComputeAnswered.clStates (List.Perm.of_eq hstates.symm))) .refl

def sampleClJob : JobConfig where
  name := "daily_cl_liquidity"
  targetKind := .pools
  tokenSelector := none
  poolSelector := samplePoolJob.poolSelector
  universeName := none
  cadence := .daily
  integrityMode := .clLiquidity
  coverageStart := none
  tokens_ok := nofun
  pools_ok _ := ⟨rfl, rfl, rfl, .inr rfl⟩

/-- A pool attempt has no holders. -/
theorem sampleClFrozen (pool : PoolConfig) (_ : CensusTarget.pool samplePool = .pool pool) :
    (emptyUniverse (hexdigest (sha256 []))).size = 0 := rfl

def sampleClPlan : AttemptPlan where
  runner := sampleRunner
  job := sampleClJob
  target := .pool samplePool
  snapshotDate := 0
  anchor := sampleAnchor
  frozen := emptyUniverse (hexdigest (sha256 []))
  attemptId := "attempt"
  pool_frozen := sampleClFrozen

/-- One position, from tick 0 to tick 16383. -/
def sampleClPublished : PoolClCollectionResult :=
  sampleClResult 1 (List.replicate 3
    ⟨0, 2, ⟨.multicall3, "eip1898", sampleAnchor.blockHash, ["p"], "d", true⟩⟩)

def sampleClCollected : Collected sampleClPlan.job sampleClPlan.target :=
  .poolCl sampleClPublished rfl

def sampleRegistration (digit : Char) (version : Nat) : ConfigRegistryRow :=
  ⟨100, "daily_cl_liquidity", .pool, samplePool.address, "daily", .clLiquidity, none, none,
    hexText (List.replicate 64 digit), "", true, version⟩

def sampleClStore : CensusStore where
  configRegistry := [sampleRegistration 'f' 1]
  dayAnchors := sampleCensusStore.dayAnchors

def sampleClOpened : CensusStore := sampleClStore.write (.attemptState sampleClPlan.base.started)

@[irreducible] def sampleClWorker (n : Nat) : CensusProgram Unit × AttemptWorld :=
  advance (record "publication") n
    ((handedOver sampleClPlan sampleClCollected).worker, ⟨sampleClOpened, []⟩)

def sampleClWorld : CensusWorld :=
  solo ["attempt"] (handedOver sampleClPlan sampleClCollected) (sampleClWorker 9)

/-- The census in which the configuration of the pool was registered anew. -/
def sampleReconfigured : CensusWorld :=
  { sampleClWorld with store := { sampleClWorld.store with
      configRegistry := sampleClWorld.store.configRegistry ++ [sampleRegistration 'e' 2] } }

theorem sampleClWorld_reaches : Relation.ReflTransGen CensusStep ⟨{}, [], []⟩ sampleClWorld := by
  have hworld : sampleClWorld = soloAfter "publication" ["attempt"]
      (handedOver sampleClPlan sampleClCollected) sampleClOpened 9 := by
    rw [sampleClWorld, sampleClWorker, soloAfter]
    rfl
  have hstore : Relation.ReflTransGen CensusStep ⟨{}, [], []⟩ ⟨sampleClStore, [], []⟩ := by
    refine .head (.registerConfigs [sampleRegistration 'f' 1]) (.single ?_)
    exact .insertAnchor ⟨100, 0, "resolution", 10, sampleAnchor.blockHash, sampleAnchor.parentHash,
      100, 11, hexText (List.replicate 64 '3'), 105, true, 0⟩
  rw [hworld]
  exact hstore.trans ((reaches_handedOver sampleClStore sampleClPlan sampleClCollected).trans
    (soloAfter_reaches "publication" ["attempt"] (handedOver sampleClPlan sampleClCollected)
      sampleClOpened 9))

def sampleClSource : ClStateSource where
  poolAddress := samplePool.address
  attemptId := "attempt"
  resultDigest := "41da16e0fbc65c0f50a9651e843f245c9c501bb76bfa7705e3396b06c1256441"

/-- The segment of the position. -/
def sampleSegment : ProfileRow :=
  spanRow 100 0 sampleClSource ⟨0, 16383, 1⟩

/-- The state is published, with its two ticks, until the configuration is registered anew. -/
theorem sampleClWorld_published : sampleClWorld.store.clStateSources 100 0 = [sampleClSource] ∧
    sampleClWorld.store.tickSources 100 0 samplePool.address "attempt" = [⟨0, 1⟩, ⟨16383, -1⟩] ∧
      sampleReconfigured.store.clStateSources 100 0 = [] := by
  decide +kernel

theorem sampleClWorld_segments :
    sampleClWorld.store.segmentsOf 100 0 sampleClSource = .ok [sampleSegment] := by
  show segments 100 0 sampleClSource
    (sampleClWorld.store.tickSources 100 0 samplePool.address "attempt") = _
  rw [sampleClWorld_published.2.1]
  rfl

/-- After the publication a run leaves the view with the segment of the position. -/
theorem compute_converges_iff_sample : ∃ w' n,
    Reaches ComputeAnswered (ClProfileModule.compute 100 0, ⟨sampleClWorld, []⟩) (.ret n, w') ∧
      Converged w' 100 0 ∧ profileView w'.profile = [sampleSegment] := by
  have hstates := sampleClWorld_published.1
  have run : Reaches ComputeAnswered (ClProfileModule.compute 100 0, ⟨sampleClWorld, []⟩) _ :=
    reaches_compute_one hstates sampleClWorld_segments
  refine ⟨_, _, run, (compute_converges_iff ⟨rfl, fun _ _ => rfl⟩ rfl
    (computeSteps_of_census sampleClWorld_reaches []) run).mpr ⟨?_, ?_⟩, rfl⟩
  · exact fun row hrow => absurd hrow List.not_mem_nil
  · intro state hstate other hother _ hne
    rw [hstates, List.mem_singleton] at hstate hother
    exact absurd (hstate.trans hother.symm) hne

/-- Once the configuration is registered anew nothing is published for the date, and a run that returns
leaves the segment of the earlier attempt in the view. -/
theorem stale_segment_remains : ∃ w,
    Relation.ReflTransGen ComputeStep ⟨⟨{}, [], []⟩, []⟩ w ∧
      Reaches ComputeAnswered (ClProfileModule.compute 100 0, w) (.ret 0, w) ∧
      w.census.store.clStateSources 100 0 = [] ∧ profileView w.profile = [sampleSegment] ∧
      ¬ Converged w 100 0 := by
  have hnone := sampleClWorld_published.2.2
  have hfirst : ComputeStep ⟨sampleClWorld, []⟩ ⟨sampleClWorld, [sampleSegment]⟩ :=
    .compute 100 0 (reaches_compute_one sampleClWorld_published.1 sampleClWorld_segments)
  have hregister : CensusStep sampleClWorld sampleReconfigured :=
    .registerConfigs [sampleRegistration 'e' 2]
  refine ⟨⟨sampleReconfigured, [sampleSegment]⟩, ?_, reaches_compute_none hnone, hnone, rfl, ?_⟩
  · exact (computeSteps_of_census sampleClWorld_reaches []).trans
      (.head hfirst (.single (.census hregister)))
  · intro hconverged
    have hrow : sampleSegment ∈ profileView [sampleSegment] := List.mem_cons_self
    obtain ⟨state, hstate, -⟩ := (hconverged sampleSegment).mp ⟨hrow, rfl, rfl⟩
    rw [hnone] at hstate
    exact List.not_mem_nil hstate

end RpcStateIndexer
