import RpcStateIndexer.Anchors.Store

/-!
# The immutability of a day anchor

While no call is overtaken between its read and its insert, the rows of a date agree, so the canonical
view shows the date as soon as a row of it is stored.
-/

namespace RpcStateIndexer

open Reasoning Program

/-! ## A date whose rows agree -/

/-- The rows of each date agree, and all of them are finalized. -/
structure Agreed (s : CensusStore) : Prop where
  same : ∀ a ∈ s.dayAnchors, ∀ b ∈ s.dayAnchors, a.chainId = b.chainId →
    a.snapshotDate = b.snapshotDate → a.resolution = b.resolution
  finalized : ∀ a ∈ s.dayAnchors, a.finalizedAtResolution = true

theorem block_eq_of_resolution {a b : DayAnchorRow} (h : a.resolution = b.resolution) :
    a.block = b.block := by
  simp only [DayAnchorRow.resolution, Resolution.mk.injEq] at h
  obtain ⟨hnumber, hhash, hparent, htimestamp, -⟩ := h
  simp only [DayAnchorRow.block, hnumber, hhash, hparent, htimestamp]

theorem block_row (resolved : ResolvedAnchor) (chainId : Nat) (resolutionId : Uuid)
    (resolvedAt : Nat) : (resolved.row chainId resolutionId resolvedAt).block = resolved.anchor := rfl

theorem mem_resolutionsOf {s : CensusStore} {chainId snapshotDate : Nat} {a : DayAnchorRow} :
    a ∈ s.resolutionsOf chainId snapshotDate ↔
      a ∈ s.dayAnchors ∧ a.chainId = chainId ∧ a.snapshotDate = snapshotDate := by
  simp [CensusStore.resolutionsOf]

/-- The canonical anchor is a stored row of the date. -/
theorem mem_of_canonicalAnchor {s : CensusStore} {chainId snapshotDate : Nat} {a : DayAnchorRow}
    (h : s.canonicalAnchor chainId snapshotDate = some a) :
    a ∈ s.dayAnchors ∧ a.chainId = chainId ∧ a.snapshotDate = snapshotDate := by
  rw [CensusStore.canonicalAnchor] at h
  split at h
  · exact mem_resolutionsOf.mp (List.argmax_mem h)
  · exact absurd h nofun

/-- While the rows of a date agree, the view hides the date only when it has no row. -/
theorem Agreed.canonicalAnchor_isSome {s : CensusStore} (h : Agreed s) {a : DayAnchorRow}
    (ha : a ∈ s.dayAnchors) : s.canonicalAnchor a.chainId a.snapshotDate ≠ none := by
  have hmem : a ∈ s.resolutionsOf a.chainId a.snapshotDate := mem_resolutionsOf.mpr ⟨ha, rfl, rfl⟩
  have hone : ((s.resolutionsOf a.chainId a.snapshotDate).map DayAnchorRow.resolution).dedup
      = [a.resolution] := by
    -- Without duplicates, a list whose members are all equal has one.
    apply List.perm_singleton.mp
    apply (List.perm_ext_iff_of_nodup (List.nodup_dedup _) (List.nodup_singleton _)).mpr
    intro r
    rw [List.mem_dedup, List.mem_map, List.mem_singleton]
    constructor
    · rintro ⟨b, hb, rfl⟩
      obtain ⟨hb, hchain, hdate⟩ := mem_resolutionsOf.mp hb
      exact h.same b hb a ha hchain hdate
    · rintro rfl
      exact ⟨a, hmem, rfl⟩
  have hall : (s.resolutionsOf a.chainId a.snapshotDate).all (fun a => a.finalizedAtResolution)
      = true := by
    rw [List.all_eq_true]
    exact fun b hb => h.finalized b (mem_resolutionsOf.mp hb).1
  rw [CensusStore.canonicalAnchor, hone, if_pos ⟨rfl, hall⟩]
  intro hnone
  rw [List.argmax_eq_none.mp hnone] at hmem
  exact absurd hmem List.not_mem_nil

@[simp] theorem assertAnchorImmutable_self (block : BlockRef) :
    assertAnchorImmutable block block = .ok () := by
  simp [assertAnchorImmutable]

theorem assertAnchorImmutable_of_ne {existing candidate : BlockRef} (h : existing ≠ candidate) :
    ∃ message, assertAnchorImmutable existing candidate = .error (.conflict message) := by
  simp [assertAnchorImmutable, check, h]

/-! ## Where a call stands -/

/-- A call has not read yet, has read that its date has no row, has returned the stored block, or was
rejected. -/
inductive PersistCall.At (c : PersistCall) (s : CensusStore) : Prop where
  | reading (resolutionId : Uuid) (resolvedAt : Nat)
      (rest : c.rest = c.service.persist c.resolved resolutionId resolvedAt)
  | inserting (resolutionId : Uuid) (resolvedAt : Nat)
      (rest : c.rest = insertAnchor (c.resolved.row c.service.chainId resolutionId resolvedAt)
        c.resolved.anchor)
      (seen : c.seen ≤ s.dayAnchors.length) (none : ∀ a ∈ s.dayAnchors.take c.seen, ¬ c.Concerns a)
  | returned (rest : c.rest = .ret c.resolved.anchor) (a : DayAnchorRow) (stored : a ∈ s.dayAnchors)
      (concerns : c.Concerns a) (block : a.block = c.resolved.anchor)
  | rejected (e : PersistException) (rest : c.rest = .raise e) (rejected : Rejected (.error e))

theorem PersistCall.At.append {c : PersistCall} {s : CensusStore} (h : c.At s)
    (rows : List DayAnchorRow) : c.At { s with dayAnchors := s.dayAnchors ++ rows } := by
  cases h with
  | reading resolutionId resolvedAt rest => exact .reading resolutionId resolvedAt rest
  | inserting resolutionId resolvedAt rest seen none =>
    refine .inserting resolutionId resolvedAt rest ?_ ?_
    · rw [List.length_append]
      omega
    · rwa [List.take_append_of_le_length seen]
  | returned rest a stored concerns block =>
    exact .returned rest a (List.mem_append_left _ stored) concerns block
  | rejected e rest rejected => exact .rejected e rest rejected

/-- A call that comes undisturbed to its insert agrees with the rows of its date. -/
theorem PersistCall.agrees {c : PersistCall} {s : CensusStore} (hundisturbed : c.Undisturbed s)
    {row : DayAnchorRow} {k : Except Failure Unit → PersistProgram BlockRef}
    (hrest : c.rest = .call (.insertAnchor row) k)
    (hnone : ∀ a ∈ s.dayAnchors.take c.seen, ¬ c.Concerns a) {a : DayAnchorRow}
    (ha : a ∈ s.dayAnchors) (hconcerns : c.Concerns a) : a.resolution = row.resolution := by
  rw [← List.take_append_drop c.seen s.dayAnchors, List.mem_append] at ha
  rcases ha with hearlier | hlater
  · exact absurd hconcerns (hnone a hearlier)
  · exact hundisturbed row k hrest a hlater hconcerns

structure AnchorInvariant (w : AnchorWorld) : Prop where
  agreed : Agreed w.store
  calls : ∀ c ∈ w.calls, c.At w.store

theorem Agreed.insert {s : CensusStore} (h : Agreed s) {row : DayAnchorRow}
    (hfinal : row.finalizedAtResolution = true)
    (hrow : ∀ a ∈ s.dayAnchors, a.chainId = row.chainId → a.snapshotDate = row.snapshotDate →
      a.resolution = row.resolution) :
    Agreed { s with dayAnchors := s.dayAnchors ++ [row] } where
  same a ha b hb hchain hdate := by
    rcases List.mem_append.mp ha with haold | hanew
    · rcases List.mem_append.mp hb with hbold | hbnew
      · exact h.same a haold b hbold hchain hdate
      · rw [List.mem_singleton.mp hbnew] at hchain hdate ⊢
        exact hrow a haold hchain hdate
    · rw [List.mem_singleton.mp hanew] at hchain hdate ⊢
      rcases List.mem_append.mp hb with hbold | hbnew
      · exact (hrow b hbold hchain.symm hdate.symm).symm
      · rw [List.mem_singleton.mp hbnew]
  finalized a ha := by
    rcases List.mem_append.mp ha with ha | ha
    · exact h.finalized a ha
    · rw [List.mem_singleton.mp ha]
      exact hfinal

/-- What one operation of an undisturbed call does to the store and to the call. -/
theorem call_answered {c : PersistCall} {s s' : CensusStore} {op : AnchorOp}
    {k : AnchorAns op → PersistProgram BlockRef} {answer : AnchorAns op} (hagreed : Agreed s)
    (hat : c.At s) (hundisturbed : c.Undisturbed s) (hnext : c.rest = .call op k)
    (hanswered : AnchorAnswered op s answer s') :
    Agreed s' ∧ (∃ rows, s' = { s with dayAnchors := s.dayAnchors ++ rows }) ∧
      (c.resume s.dayAnchors.length op (k answer)).At s' := by
  have hsame : ∃ rows, s = { s with dayAnchors := s.dayAnchors ++ rows } := ⟨[], by simp⟩
  cases hat with
  | reading resolutionId resolvedAt rest =>
    rw [hnext] at rest
    obtain ⟨rfl, hk⟩ := Program.call.inj rest
    obtain rfl := eq_of_heq hk
    cases hanswered with
    | unread _ _ _ f => exact ⟨hagreed, hsame, .rejected _ rfl trivial⟩
    | read _ _ _ =>
      refine ⟨hagreed, hsame, ?_⟩
      cases hcanonical : s.canonicalAnchor c.service.chainId c.resolved.snapshotDate with
      | none =>
        refine .inserting resolutionId resolvedAt rfl le_rfl ?_
        rintro a ha ⟨hchain, hdate⟩
        rw [PersistCall.resume, List.take_length] at ha
        apply hagreed.canonicalAnchor_isSome ha
        exact hchain ▸ hdate ▸ hcanonical
      | some existing =>
        obtain ⟨hstored, hchain, hdate⟩ := mem_of_canonicalAnchor hcanonical
        by_cases hblock : existing.block = c.resolved.anchor
        · refine .returned ?_ existing hstored ⟨hchain, hdate⟩ hblock
          simp only [PersistCall.resume, hblock, assertAnchorImmutable_self]
          rfl
        · obtain ⟨message, hconflict⟩ := assertAnchorImmutable_of_ne hblock
          refine .rejected (.anchor (.conflict message)) ?_ trivial
          simp only [PersistCall.resume, hconflict]
          rfl
  | inserting resolutionId resolvedAt rest seen none =>
    have hagrees : ∀ a ∈ s.dayAnchors, c.Concerns a → a.resolution =
        (c.resolved.row c.service.chainId resolutionId resolvedAt).resolution :=
      fun a ha hconcerns => PersistCall.agrees hundisturbed rest none ha hconcerns
    rw [hnext] at rest
    obtain ⟨rfl, hk⟩ := Program.call.inj rest
    obtain rfl := eq_of_heq hk
    have hinserted : Agreed { s with dayAnchors :=
        s.dayAnchors ++ [c.resolved.row c.service.chainId resolutionId resolvedAt] } :=
      hagreed.insert rfl fun a ha hchain hdate => hagrees a ha ⟨hchain, hdate⟩
    cases hanswered with
    | inserted _ _ =>
      refine ⟨hinserted, ⟨_, rfl⟩, .returned rfl _ ?_ ⟨rfl, rfl⟩ (block_row _ _ resolutionId resolvedAt)⟩
      exact List.mem_append_right _ (List.mem_singleton.mpr rfl)
    | lost _ _ f => exact ⟨hagreed, hsame, .rejected _ rfl trivial⟩
    | unacknowledged _ _ f => exact ⟨hinserted, ⟨_, rfl⟩, .rejected _ rfl trivial⟩
  | returned rest _ _ _ _ => exact absurd (hnext.symm.trans rest) nofun
  | rejected e rest _ => exact absurd (hnext.symm.trans rest) nofun

theorem AnchorInvariant.step {w w' : AnchorWorld} (h : AnchorInvariant w)
    (hstep : AnchorStep PersistCall.Undisturbed w w') : AnchorInvariant w' := by
  cases hstep with
  | start service resolved resolutionId resolvedAt =>
    refine ⟨h.agreed, fun c hc => ?_⟩
    rcases List.mem_append.mp hc with hc | hc
    · exact h.calls c hc
    · rw [List.mem_singleton.mp hc]
      exact .reading resolutionId resolvedAt rfl
  | @call before after c op k answer s split next admitted answered =>
    have hmem : ∀ d ∈ before ++ c :: after, d.At w.store := split ▸ h.calls
    obtain ⟨hagreed, ⟨rows, hrows⟩, hat⟩ := call_answered h.agreed (hmem c (by simp)) admitted next
      answered
    refine ⟨hagreed, fun d hd => ?_⟩
    have hold : ∀ d ∈ before ++ c :: after, d.At s := fun d hd => hrows ▸ (hmem d hd).append rows
    rcases List.mem_append.mp hd with hd | hd
    · exact hold d (List.mem_append_left _ hd)
    · rcases List.mem_cons.mp hd with rfl | hd
      · exact hat
      · exact hold d (List.mem_append_right _ (List.mem_cons_of_mem _ hd))

theorem AnchorInvariant.reachable {w : AnchorWorld} (h : w.Reachable PersistCall.Undisturbed) :
    AnchorInvariant w := by
  obtain ⟨s, hempty, hruns⟩ := h
  induction hruns with
  | refl =>
    refine ⟨⟨?_, ?_⟩, List.forall_mem_nil _⟩
    · intro a ha
      exact absurd (hempty ▸ ha) List.not_mem_nil
    · intro a ha
      exact absurd (hempty ▸ ha) List.not_mem_nil
  | tail _ hstep ih => exact ih.step hstep

/-! ## Immutability -/

/-- While no call is overtaken between its read and its insert, a stored day anchor does not change. -/
theorem persist_immutable (w : AnchorWorld) (hreachable : w.Reachable PersistCall.Undisturbed) :
    w.Immutable PersistCall.Undisturbed := by
  obtain ⟨hagreed, hcalls⟩ := AnchorInvariant.reachable hreachable
  -- The stored block of a call that returned is the block of every row of its date.
  have hblock : ∀ c : PersistCall, ∀ a ∈ w.store.dayAnchors, c.Concerns a →
      ∀ b ∈ w.store.dayAnchors, c.Concerns b → a.block = b.block := by
    rintro c a ha ⟨hachain, hadate⟩ b hb ⟨hbchain, hbdate⟩
    exact block_eq_of_resolution
      (hagreed.same a ha b hb (hachain.trans hbchain.symm) (hadate.trans hbdate.symm))
  refine ⟨?_, ?_, ?_⟩
  · intro c hc a ha hconcerns hdiffers r hended
    cases hcalls c hc with
    | reading resolutionId resolvedAt rest =>
      cases r <;> exact absurd (hended.symm.trans rest) nofun
    | inserting resolutionId resolvedAt rest _ _ =>
      cases r <;> exact absurd (hended.symm.trans rest) nofun
    | returned rest b stored concerns block =>
      exact absurd ((hblock c a ha hconcerns b stored concerns).trans block) hdiffers
    | rejected e rest rejected =>
      cases r with
      | ok b => exact absurd (hended.symm.trans rest) nofun
      | error e' =>
        obtain rfl := Program.raise.inj (hended.symm.trans rest)
        exact rejected
  · intro c hc a ha hconcerns hdiffers op k answer s hnext hundisturbed hanswered
    cases hcalls c hc with
    | reading resolutionId resolvedAt rest =>
      rw [hnext] at rest
      obtain ⟨rfl, -⟩ := Program.call.inj rest
      cases hanswered <;> rfl
    | inserting resolutionId resolvedAt rest _ none =>
      have hsame := PersistCall.agrees hundisturbed rest none ha hconcerns
      exact absurd (block_eq_of_resolution hsame) hdiffers
    | returned rest _ _ _ _ => exact absurd (hnext.symm.trans rest) nofun
    | rejected e rest _ => exact absurd (hnext.symm.trans rest) nofun
  · intro c hc a ha hconcerns block hreturned
    cases hcalls c hc with
    | reading resolutionId resolvedAt rest => exact absurd (hreturned.symm.trans rest) nofun
    | inserting resolutionId resolvedAt rest _ _ => exact absurd (hreturned.symm.trans rest) nofun
    | returned rest b stored concerns hstored =>
      rw [hblock c a ha hconcerns b stored concerns, hstored]
      exact (Program.ret.inj (hreturned.symm.trans rest)).symm
    | rejected e rest _ => exact absurd (hreturned.symm.trans rest) nofun

/-! ## Two writers at once -/

/-- One of two forks below the same midnight. -/
def forkedAnchor (fork : Char) : ResolvedAnchor where
  snapshotDate := epochDate
  anchor := ⟨1, hexText (List.replicate 64 fork), hexText (List.replicate 64 '0'), 86399⟩
  nextBlock := ⟨2, hexText (List.replicate 64 'f'), hexText (List.replicate 64 fork), 86400⟩
  safeTip := ⟨2, hexText (List.replicate 64 'f'), hexText (List.replicate 64 fork), 86400⟩
  finalitySource := "tag:finalized"
  endpointFingerprints := ["fingerprint"]

example : validateResolvedAnchor (forkedAnchor '1') = .ok () ∧
    validateResolvedAnchor (forkedAnchor '2') = .ok () := by decide

/-- A call of one of two writers. -/
def forkedCall (fork : Char) (rest : PersistProgram BlockRef) : PersistCall :=
  ⟨⟨100⟩, forkedAnchor fork, rest, 0⟩

def forkedRow (fork : Char) : DayAnchorRow := (forkedAnchor fork).row 100 "resolution" 0

def forkedPersist (fork : Char) : PersistProgram BlockRef :=
  (⟨100⟩ : AnchorStoreService).persist (forkedAnchor fork) "resolution" 0

def forkedInsert (fork : Char) : PersistProgram BlockRef :=
  insertAnchor (forkedRow fork) (forkedAnchor fork).anchor

/-- The writers, as far as each has come. -/
def forkedWorld (rows : List DayAnchorRow) (first second : PersistProgram BlockRef) : AnchorWorld :=
  ⟨{ dayAnchors := rows }, [forkedCall '1' first, forkedCall '2' second]⟩

/-- The second writer comes after the first has stored its block: it is rejected. -/
def rejectedWorld : AnchorWorld :=
  ⟨{ dayAnchors := [forkedRow '1'] }, [forkedCall '1' (.ret (forkedAnchor '1').anchor),
    ⟨⟨100⟩, forkedAnchor '2', .raise (.anchor (.conflict
      "stored day anchor differs from newly resolved block; manual reorg review required")), 1⟩]⟩

theorem persist_immutable_sample : rejectedWorld.Immutable PersistCall.Undisturbed := by
  apply persist_immutable
  have hreading : ∀ fork s, (forkedCall fork (forkedPersist fork)).Undisturbed s := by
    intro fork s row k hrest
    exact absurd hrest nofun
  have hstarted : Relation.ReflTransGen (AnchorStep PersistCall.Undisturbed) ⟨{}, []⟩
      (forkedWorld [] (forkedPersist '1') (forkedPersist '2')) :=
    .tail (.tail .refl (.start ⟨100⟩ (forkedAnchor '1') "resolution" 0))
      (.start ⟨100⟩ (forkedAnchor '2') "resolution" 0)
  have hread : AnchorStep PersistCall.Undisturbed
      (forkedWorld [] (forkedPersist '1') (forkedPersist '2'))
      (forkedWorld [] (forkedInsert '1') (forkedPersist '2')) :=
    .call (show _ = [] ++ forkedCall '1' (forkedPersist '1') :: [forkedCall '2' _] from rfl) rfl
      (hreading '1' _) (.read _ _ _)
  have hinsert : AnchorStep PersistCall.Undisturbed
      (forkedWorld [] (forkedInsert '1') (forkedPersist '2'))
      (forkedWorld [forkedRow '1'] (.ret (forkedAnchor '1').anchor) (forkedPersist '2')) := by
    refine .call (show _ = [] ++ forkedCall '1' (forkedInsert '1') :: [forkedCall '2' _] from rfl)
      rfl ?_ (.inserted _ _)
    intro row k _ a ha
    exact absurd ha List.not_mem_nil
  have hconflict : AnchorStep PersistCall.Undisturbed
      (forkedWorld [forkedRow '1'] (.ret (forkedAnchor '1').anchor) (forkedPersist '2'))
      rejectedWorld :=
    .call (show _ = [forkedCall '1' _] ++ forkedCall '2' (forkedPersist '2') :: [] from rfl) rfl
      (hreading '2' _) (.read _ _ _)
  exact ⟨{}, rfl, ((hstarted.tail hread).tail hinsert).tail hconflict⟩

/-- Both writers read before either inserts: both insert, and the second returns its own block. -/
theorem persist_overtaken : ¬ ∀ w : AnchorWorld, w.Reachable (fun _ _ => True) →
    w.Immutable fun _ _ => True := by
  intro himmutable
  have hstarted : Relation.ReflTransGen (AnchorStep fun _ _ => True) ⟨{}, []⟩
      (forkedWorld [] (forkedPersist '1') (forkedPersist '2')) :=
    .tail (.tail .refl (.start ⟨100⟩ (forkedAnchor '1') "resolution" 0))
      (.start ⟨100⟩ (forkedAnchor '2') "resolution" 0)
  have hread₁ : AnchorStep (fun _ _ => True)
      (forkedWorld [] (forkedPersist '1') (forkedPersist '2'))
      (forkedWorld [] (forkedInsert '1') (forkedPersist '2')) :=
    .call (show _ = [] ++ forkedCall '1' (forkedPersist '1') :: [forkedCall '2' _] from rfl) rfl
      trivial (.read _ _ _)
  have hread₂ : AnchorStep (fun _ _ => True)
      (forkedWorld [] (forkedInsert '1') (forkedPersist '2'))
      (forkedWorld [] (forkedInsert '1') (forkedInsert '2')) :=
    .call (show _ = [forkedCall '1' _] ++ forkedCall '2' (forkedPersist '2') :: [] from rfl) rfl
      trivial (.read _ _ _)
  have hinsert₁ : AnchorStep (fun _ _ => True)
      (forkedWorld [] (forkedInsert '1') (forkedInsert '2'))
      (forkedWorld [forkedRow '1'] (.ret (forkedAnchor '1').anchor) (forkedInsert '2')) :=
    .call (show _ = [] ++ forkedCall '1' (forkedInsert '1') :: [forkedCall '2' _] from rfl) rfl
      trivial (.inserted _ _)
  have hinsert₂ : AnchorStep (fun _ _ => True)
      (forkedWorld [forkedRow '1'] (.ret (forkedAnchor '1').anchor) (forkedInsert '2'))
      (forkedWorld [forkedRow '1', forkedRow '2'] (.ret (forkedAnchor '1').anchor)
        (.ret (forkedAnchor '2').anchor)) :=
    .call (show _ = [forkedCall '1' _] ++ forkedCall '2' (forkedInsert '2') :: [] from rfl) rfl
      trivial (.inserted _ _)
  have hreached := (((hstarted.tail hread₁).tail hread₂).tail hinsert₁).tail hinsert₂
  have hblock := (himmutable _ ⟨{}, rfl, hreached⟩).returned
    (forkedCall '2' (.ret (forkedAnchor '2').anchor)) (by simp [forkedWorld]) (forkedRow '1')
    (by simp [forkedWorld]) ⟨rfl, rfl⟩ (forkedAnchor '2').anchor rfl
  exact absurd hblock (by decide)

end RpcStateIndexer
