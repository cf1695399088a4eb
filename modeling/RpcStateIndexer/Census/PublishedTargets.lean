import RpcStateIndexer.Anchors.Immutability
import RpcStateIndexer.Census.Completion

/-!
# The skip gate

`published_target_addresses` answers which targets of a job are published on a date.  What an attempt
that returned has published is reported in every later state, and so is what was there before.
-/

namespace RpcStateIndexer

open Reasoning Program CensusRunner

namespace CensusStore

/-- The key is of the job, the kind and the date that are asked for. -/
def InScope (chainId : Nat) (jobName : String) (targetKind : TargetKind) (snapshotDate : Nat)
    (key : TargetKey) : Prop :=
  key.chainId = chainId ∧ key.jobName = jobName ∧ key.targetKind = targetKind ∧
    key.snapshotDate = snapshotDate

instance (chainId : Nat) (jobName : String) (targetKind : TargetKind) (snapshotDate : Nat)
    (key : TargetKey) : Decidable (InScope chainId jobName targetKind snapshotDate key) :=
  inferInstanceAs (Decidable (_ ∧ _))

/-- The joins of the query that counts a publication under any configuration: the canonical anchor of
the date, and a verified current state of the attempt. -/
def AnchoredVerified (s : CensusStore) (p : PublicationRow) : Prop :=
  (∃ a ∈ s.canonicalAnchor p.chainId p.snapshotDate,
    p.anchorBlock = a.blockNumber ∧ p.anchorHash = a.blockHash) ∧
  ∃ t ∈ s.attemptsCurrent, t.target = p.target ∧ t.attemptId = p.attemptId ∧ t.status = .verified

instance (s : CensusStore) (p : PublicationRow) : Decidable (s.AnchoredVerified p) :=
  inferInstanceAs (Decidable (_ ∧ _))

/-- `published_target_addresses`: lower case, each once. -/
def publishedTargetAddresses (s : CensusStore) (chainId : Nat) (jobName : String)
    (targetKind : TargetKind) (snapshotDate : Nat) (anyConfigHash : Bool) : List String :=
  let rows := s.publications.filter fun p => InScope chainId jobName targetKind snapshotDate p.target
  if anyConfigHash then
    ((rows.filter fun p => s.AnchoredVerified p).map fun p => p.targetAddress.toLower).dedup
  else
    (((rows.map PublicationRow.target).dedup.filterMap s.publicationsCurrent).map fun p =>
      p.targetAddress.toLower).dedup

/-- A publication of the key on an anchor that is stored for its date, by an attempt whose current state
is verified. -/
def Reported (s : CensusStore) (key : TargetKey) : Prop :=
  ∃ p ∈ s.publications, p.target = key ∧
    (∃ a ∈ s.resolutionsOf key.chainId key.snapshotDate,
      p.anchorBlock = a.blockNumber ∧ p.anchorHash = a.blockHash) ∧
    ∃ t ∈ s.attemptsCurrent, t.target = key ∧ t.attemptId = p.attemptId ∧ t.status = .verified

/-- While the rows of a date agree, the joins are with any of them. -/
theorem anchoredVerified_iff {s : CensusStore} (h : Agreed s) {p : PublicationRow} :
    s.AnchoredVerified p ↔
      (∃ a ∈ s.resolutionsOf p.chainId p.snapshotDate,
        p.anchorBlock = a.blockNumber ∧ p.anchorHash = a.blockHash) ∧
      ∃ t ∈ s.attemptsCurrent, t.target = p.target ∧ t.attemptId = p.attemptId ∧ t.status = .verified := by
  refine and_congr_left fun _ => ⟨?_, ?_⟩
  · rintro ⟨a, ha, hmatch⟩
    obtain ⟨hmem, hchain, hdate⟩ := mem_of_canonicalAnchor ha
    exact ⟨a, mem_resolutionsOf.mpr ⟨hmem, hchain, hdate⟩, hmatch⟩
  · rintro ⟨a, ha, hblock, hhash⟩
    obtain ⟨hmem, hchain, hdate⟩ := mem_resolutionsOf.mp ha
    obtain ⟨b, hb⟩ := Option.ne_none_iff_exists'.mp (h.canonicalAnchor_isSome hmem)
    obtain ⟨hbmem, hbchain, hbdate⟩ := mem_of_canonicalAnchor hb
    have hsame := block_eq_of_resolution (h.same b hbmem a hmem hbchain hbdate)
    refine ⟨b, by rw [← hchain, ← hdate]; exact hb, ?_, ?_⟩
    · exact hblock.trans (congrArg BlockRef.number hsame).symm
    · exact hhash.trans (congrArg BlockRef.blockHash hsame).symm

theorem mem_publishedTargetAddresses {s : CensusStore} (h : Agreed s) {chainId : Nat} {jobName : String}
    {targetKind : TargetKind} {snapshotDate : Nat} {address : String} :
    address ∈ s.publishedTargetAddresses chainId jobName targetKind snapshotDate true ↔
      ∃ key, InScope chainId jobName targetKind snapshotDate key ∧ s.Reported key ∧
        address = key.targetAddress.toLower := by
  simp only [publishedTargetAddresses, if_true, List.mem_dedup, List.mem_map, List.mem_filter,
    decide_eq_true_eq]
  constructor
  · rintro ⟨p, ⟨⟨hp, hscope⟩, hjoined⟩, rfl⟩
    obtain ⟨hanchor, hattempt⟩ := (anchoredVerified_iff h).mp hjoined
    exact ⟨p.target, hscope, ⟨p, hp, rfl, hanchor, hattempt⟩, rfl⟩
  · rintro ⟨key, hscope, ⟨p, hp, rfl, hanchor, hattempt⟩, rfl⟩
    exact ⟨p, ⟨⟨hp, hscope⟩, (anchoredVerified_iff h).mpr ⟨hanchor, hattempt⟩⟩, rfl⟩

/-- What the registry-gated view shows is counted under any configuration. -/
theorem publishedTargetAddresses_current_subset (s : CensusStore) (chainId : Nat) (jobName : String)
    (targetKind : TargetKind) (snapshotDate : Nat) :
    s.publishedTargetAddresses chainId jobName targetKind snapshotDate false ⊆
      s.publishedTargetAddresses chainId jobName targetKind snapshotDate true := by
  intro address haddress
  simp only [publishedTargetAddresses, if_false, if_true, Bool.false_eq_true, List.mem_dedup,
    List.mem_map, List.mem_filter, List.mem_filterMap, decide_eq_true_eq] at haddress ⊢
  obtain ⟨p, ⟨key, ⟨q, ⟨-, hscope⟩, hq⟩, hcurrent⟩, rfl⟩ := haddress
  obtain ⟨hp, heligible, htarget, -⟩ := mem_publicationsCurrent hcurrent
  obtain ⟨t, ht, hmatch⟩ := heligible.attempt
  refine ⟨p, ⟨⟨hp, ?_⟩, heligible.anchor, t, ht, hmatch.target.symm, hmatch.attemptId.symm, hmatch.status⟩,
    rfl⟩
  rw [htarget, ← hq]
  exact hscope

end CensusStore

/-! ## What stays reported -/

theorem mem_attemptsCurrent_iff {s : CensusStore} {t : AttemptRow} :
    t ∈ s.attemptsCurrent ↔ t ∈ (s.ofAttempt t.attemptId).attemptsCurrent := by
  have hkey : ∀ a b : AttemptRow, AttemptRow.key a = AttemptRow.key b →
      decide (a.attemptId = t.attemptId) = decide (b.attemptId = t.attemptId) := by
    intro a b hab
    rw [show a.attemptId = b.attemptId from congrArg Prod.snd hab]
  unfold CensusStore.attemptsCurrent CensusStore.ofAttempt
  rw [← filter_final hkey, List.mem_filter]
  simp

namespace CensusStore.Reported

variable {s s' : CensusStore} {key : TargetKey}

/-- A report rests on the publications, the anchors and the states of one attempt. -/
theorem of_kept (h : s.Reported key) (hpublications : s.publications ⊆ s'.publications)
    (hanchors : s.dayAnchors ⊆ s'.dayAnchors)
    (hrows : ∀ p ∈ s.publications, s'.ofAttempt p.attemptId = s.ofAttempt p.attemptId) :
    s'.Reported key := by
  obtain ⟨p, hp, htarget, ⟨a, ha, hmatch⟩, t, ht, htkey, hid, hstatus⟩ := h
  refine ⟨p, hpublications hp, htarget, ⟨a, ?_, hmatch⟩, t, ?_, htkey, hid, hstatus⟩
  · obtain ⟨hmem, hscope⟩ := mem_resolutionsOf.mp ha
    exact mem_resolutionsOf.mpr ⟨hanchors hmem, hscope⟩
  · rw [mem_attemptsCurrent_iff, hid] at ht ⊢
    rw [hrows p hp]
    exact ht

end CensusStore.Reported

/-- A stored anchor of the attempt's date is the one it was made on. -/
def Attempt.Anchored (s : CensusStore) (a : Attempt) : Prop :=
  ∃ row ∈ s.resolutionsOf a.plan.base.chainId a.plan.base.snapshotDate,
    a.plan.base.anchorBlock = row.blockNumber ∧ a.plan.base.anchorHash = row.blockHash

theorem reported_of_returned {w₀ w : CensusWorld} (init : w₀.Initial)
    (reach : Relation.ReflTransGen CensusStep w₀ w) {a : Attempt} (ha : a ∈ w.attempts)
    (hreturned : a.phase = .returned) (hanchored : a.Anchored w.store) :
    w.store.Reported a.plan.base.target := by
  have hw := (WorldInvariant.initial init).reachable reach
  obtain ⟨p, hp, htarget, ⟨t, ht, hbase, hmatch⟩, -⟩ :=
    (states_reachable init reach a ha).current (hw.attempts a ha) hreturned
  have hmem : p ∈ (w.store.ofAttempt a.plan.attemptId).publications := hp ▸ List.mem_singleton_self p
  obtain ⟨row, hrow, hblock, hhash⟩ := hanchored
  refine ⟨p, (List.mem_filter.mp hmem).1, htarget, ⟨row, hrow, ?_, ?_⟩, t, ht, ?_, hmatch.attemptId.symm,
    hmatch.status⟩
  · rw [hmatch.anchorBlock, hbase, hblock]
  · rw [hmatch.anchorHash, hbase, hhash]
  · rw [← hmatch.target, htarget]

/-- What holds of the identifiers that were drawn before a run. -/
structure KeepsUsed (w₀ w : CensusWorld) : Prop where
  used : w₀.used ⊆ w.used
  attempts : ∀ a ∈ w.attempts, a.plan.attemptId ∉ w₀.used
  rows : ∀ id ∈ w₀.used, w.store.ofAttempt id = w₀.store.ofAttempt id
  publications : w₀.store.publications ⊆ w.store.publications
  anchors : w₀.store.dayAnchors ⊆ w.store.dayAnchors

theorem KeepsUsed.initial {w : CensusWorld} (h : w.Initial) : KeepsUsed w w where
  used _ hid := hid
  attempts _ ha := absurd (h.attempts ▸ ha) List.not_mem_nil
  rows _ _ := rfl
  publications _ hp := hp
  anchors _ ha := ha

theorem write_dayAnchors (s : CensusStore) (x : CensusWrite) : (s.write x).dayAnchors = s.dayAnchors := by
  cases x <;> rfl

theorem KeepsUsed.step {w₀ w w' : CensusWorld} (h : KeepsUsed w₀ w)
    (hw : ∀ a ∈ w.attempts, AttemptInvariant w.store a) (hs : CensusStep w w') : KeepsUsed w₀ w' := by
  cases hs with
  | registerConfigs rows => exact { h with rows := fun id hid => h.rows id hid }
  | insertAnchor row =>
    exact { h with
      rows := fun id hid => h.rows id hid
      anchors := fun a ha => List.mem_append_left _ (h.anchors ha) }
  | start plan fresh =>
    refine { h with used := fun id hid => List.mem_cons_of_mem _ (h.used hid), attempts := ?_ }
    intro a ha hused
    rcases List.mem_append.mp ha with ha | ha
    · exact h.attempts a ha hused
    · obtain rfl := List.mem_singleton.mp ha
      exact fresh (h.used hused)
  | targetFailure row fresh =>
    refine { h with used := fun id hid => List.mem_cons_of_mem _ (h.used hid), rows := ?_ }
    intro id hid
    refine (@ofAttempt_write_other _ row.scope.attemptId _ ?_ ?_ _).trans (h.rows id hid)
    · exact fun r hr => by rw [List.mem_singleton.mp hr]
    · exact fun heq => fresh (heq ▸ h.used hid)
  | @attempt before after a a' s split step =>
    have ha : a ∈ w.attempts := by simp [split]
    obtain ⟨hplan, -, hother⟩ := (hw a ha).step step
    refine { used := h.used, attempts := ?_, rows := ?_, publications := ?_, anchors := ?_ }
    · intro b hb
      rw [List.mem_append, List.mem_cons] at hb
      rcases hb with hb | rfl | hb
      · exact h.attempts b (by simp [split, hb])
      · rw [hplan]
        exact h.attempts a ha
      · exact h.attempts b (by simp [split, hb])
    · exact fun id hid => (hother id fun heq => h.attempts a ha (heq ▸ hid)).trans (h.rows id hid)
    · intro p hp
      rcases step.store_eq (hw a ha) with rfl | ⟨x, -, rfl⟩
      · exact h.publications hp
      · exact publications_write x (h.publications hp)
    · rcases step.store_eq (hw a ha) with rfl | ⟨x, -, rfl⟩
      · exact h.anchors
      · rw [write_dayAnchors]
        exact h.anchors

theorem KeepsUsed.reachable {w₀ w : CensusWorld} (init : w₀.Initial)
    (reach : Relation.ReflTransGen CensusStep w₀ w) : KeepsUsed w₀ w := by
  induction reach with
  | refl => exact .initial init
  | tail reach hs ih => exact ih.step ((WorldInvariant.initial init).reachable reach).attempts hs

/-- The report outlives the run: it was there before the run, or it is of an attempt that returned. -/
def Lasts (w₀ w : CensusWorld) (key : TargetKey) : Prop :=
  w₀.store.Reported key ∨
    ∃ a ∈ w.attempts, a.phase = .returned ∧ a.plan.base.target = key ∧ a.Anchored w.store

section Lasts

variable {w₀ w w' : CensusWorld} {key : TargetKey}

/-- A row of an attempt carries an identifier that was drawn. -/
theorem CensusWorld.Initial.used_of_mem (h : w₀.Initial) {p : PublicationRow}
    (hp : p ∈ w₀.store.publications) : p.attemptId ∈ w₀.used := by
  by_contra hunused
  have hmem : p ∈ (w₀.store.ofAttempt p.attemptId).publications :=
    List.mem_filter.mpr ⟨hp, decide_eq_true rfl⟩
  rw [h.rows _ hunused] at hmem
  exact List.not_mem_nil hmem

theorem Lasts.reported (h : Lasts w₀ w key) (init : w₀.Initial)
    (reach : Relation.ReflTransGen CensusStep w₀ w) : w.store.Reported key := by
  rcases h with hbefore | ⟨a, ha, hreturned, rfl, hanchored⟩
  · have hkept := KeepsUsed.reachable init reach
    exact hbefore.of_kept hkept.publications hkept.anchors fun p hp => hkept.rows _ (init.used_of_mem hp)
  · exact reported_of_returned init reach ha hreturned hanchored

theorem CensusStep.dayAnchors (h : CensusStep w w') (hw : ∀ a ∈ w.attempts, AttemptInvariant w.store a) :
    w.store.dayAnchors ⊆ w'.store.dayAnchors := by
  cases h with
  | insertAnchor row => exact fun a ha => List.mem_append_left _ ha
  | @attempt before after a a' s split step =>
    rcases step.store_eq (hw a (by simp [split])) with rfl | ⟨x, -, rfl⟩
    · exact fun a ha => ha
    · rw [write_dayAnchors]
      exact fun a ha => ha
  | _ => exact fun a ha => ha

theorem Lasts.step (h : Lasts w₀ w key) (hw : ∀ a ∈ w.attempts, AttemptInvariant w.store a)
    (hs : CensusStep w w') : Lasts w₀ w' key := by
  rcases h with hbefore | ⟨a, ha, hreturned, htarget, row, hrow, hmatch⟩
  · exact .inl hbefore
  · obtain ⟨a', ha', hplan, hphase⟩ := (hs.keeps hw).2 a ha hreturned
    obtain ⟨hmem, hscope⟩ := mem_resolutionsOf.mp hrow
    refine .inr ⟨a', ha', hphase, by rw [hplan, htarget], row, ?_, by rw [hplan]; exact hmatch⟩
    rw [hplan]
    exact mem_resolutionsOf.mpr ⟨hs.dayAnchors hw hmem, hscope⟩

theorem Lasts.later (h : Lasts w₀ w key) (init : w₀.Initial)
    (reach : Relation.ReflTransGen CensusStep w₀ w) (later : Relation.ReflTransGen CensusStep w w') :
    Lasts w₀ w' key := by
  induction later with
  | refl => exact h
  | tail hrun hs ih =>
    exact ih.step ((WorldInvariant.initial init).reachable (reach.trans hrun)).attempts hs

end Lasts

end RpcStateIndexer
