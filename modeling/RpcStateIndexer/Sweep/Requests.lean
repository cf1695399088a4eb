import RpcStateIndexer.Sweep.ServiceCorrect

/-!
# What a sweep asks of the provider

A call of `advance` with the record of its operations, whatever it is answered and wherever it
stops: every request constrains one position to words of wallets, and asks for no block that the
call's own reading of a wallet's coverage had found completed.
-/

namespace RpcStateIndexer

open Reasoning Program

namespace SweepService

/-- The one answer the call had when it read the wallet's coverage at the position. -/
def ReadOnce (svc : SweepService) (wallet : String) (position : Nat) (rows : List (Nat × Nat))
    (t : List (Sigma SweepAns)) : Prop :=
  ⟨.completedRanges svc.chainId wallet position, .ok rows⟩ ∈ t ∧
    ∀ reply, ⟨.completedRanges svc.chainId wallet position, reply⟩ ∈ t → reply = .ok rows

/-- The request is an address-less `eth_getLogs` of words at the position, and no wallet with such
a word was read as covered on a block of its range. -/
def ScansUncovered (svc : SweepService) (position : Nat) (t : List (Sigma SweepAns))
    (request : RpcRequest) : Prop :=
  ∃ f r words, request = getLogs f r ∧ f.address = none ∧
    f.topics = List.replicate position none ++ [some words] ∧
    ∀ wallet, isAddress wallet = true → walletTopic wallet ∈ words →
      ∃ rows, svc.ReadOnce wallet position rows t ∧
        ∀ range ∈ rows, ∀ block, r.Contains block → ¬ (range.1 ≤ block ∧ block < range.2)

/-- The record of a call that has worked on the positions of `D`. -/
structure Trail (svc : SweepService) (D : Nat → Prop) (t : List (Sigma SweepAns)) : Prop where
  requests : ∀ request reply, ⟨.rpc request, reply⟩ ∈ t →
    ∃ position, D position ∧ svc.ScansUncovered position t request
  reads : ∀ chainId wallet position reply,
    ⟨.completedRanges chainId wallet position, reply⟩ ∈ t → D position

theorem ScansUncovered.append {svc : SweepService} {position : Nat}
    {t t₁ : List (Sigma SweepAns)} {request : RpcRequest}
    (h : svc.ScansUncovered position t request)
    (hreads : ∀ chainId wallet reply, ⟨.completedRanges chainId wallet position, reply⟩ ∉ t₁) :
    svc.ScansUncovered position (t ++ t₁) request := by
  obtain ⟨f, r, words, hrequest, haddress, htopics, hcover⟩ := h
  refine ⟨f, r, words, hrequest, haddress, htopics, ?_⟩
  intro wallet hwallet hword
  obtain ⟨rows, ⟨hmem, honce⟩, hrows⟩ := hcover wallet hwallet hword
  refine ⟨rows, ⟨List.mem_append_left _ hmem, ?_⟩, hrows⟩
  intro reply hreply
  rcases List.mem_append.mp hreply with hold | hnew
  · exact honce reply hold
  · exact absurd hnew (hreads _ _ _)

theorem Trail.mono {svc : SweepService} {D D' : Nat → Prop} {t : List (Sigma SweepAns)}
    (h : svc.Trail D t) (hD : ∀ position, D position → D' position) : svc.Trail D' t where
  requests request reply hmem := by
    obtain ⟨position, hdone, hscans⟩ := h.requests request reply hmem
    exact ⟨position, hD position hdone, hscans⟩
  reads chainId wallet position reply hmem := hD position (h.reads chainId wallet position reply hmem)

/-! ## Reading the coverage of a position -/

/-- A read of the position, of a wallet that is not among those left. -/
def IsRead (svc : SweepService) (position : Nat) (left : List String) (x : Sigma SweepAns) : Prop :=
  ∃ wallet reply, wallet ∉ left ∧ x = ⟨.completedRanges svc.chainId wallet position, reply⟩

/-- What the reading of a wallet contributes. -/
def GapsOf (svc : SweepService) (required : BlockRange) (position : Nat) (wallet : String)
    (x : String × List BlockRange) (t : List (Sigma SweepAns)) : Prop :=
  x.1 = wallet ∧ ∃ rows completed, svc.ReadOnce wallet position rows t ∧
    rows.mapM (fun range => BlockRange.make range.1 range.2) = .ok completed ∧
    x.2 = coverageGaps required completed

/-- Reads of a new position leave the trail of the others alone. -/
theorem Trail.append_reads {svc : SweepService} {D : Nat → Prop} {position : Nat}
    {left : List String} {t t₁ : List (Sigma SweepAns)} (h : svc.Trail D t) (hnew : ¬ D position)
    (hreads : ∀ x ∈ t₁, svc.IsRead position left x) :
    svc.Trail (fun other => D other ∨ other = position) (t ++ t₁) where
  requests request reply hmem := by
    rcases List.mem_append.mp hmem with hold | hin
    · obtain ⟨other, hdone, hscans⟩ := h.requests request reply hold
      refine ⟨other, .inl hdone, hscans.append ?_⟩
      intro chainId wallet reply' hread
      obtain ⟨_, _, -, heq⟩ := hreads _ hread
      cases heq
      exact hnew hdone
    · obtain ⟨_, _, -, heq⟩ := hreads _ hin
      cases heq
  reads chainId wallet other reply hmem := by
    rcases List.mem_append.mp hmem with hold | hin
    · exact .inl (h.reads chainId wallet other reply hold)
    · obtain ⟨_, _, -, heq⟩ := hreads _ hin
      cases heq
      exact .inr rfl

/-- Reading one wallet more. -/
theorem returns_walletGaps_recording {svc : SweepService} {D : Nat → Prop} {position : Nat}
    (required : BlockRange) {t₀ : List (Sigma SweepAns)} (h : svc.Trail D t₀) (hnew : ¬ D position)
    {wallet : String} {left : List String} (hleft : wallet ∉ left) {t : List (Sigma SweepAns)}
    (ht : ∃ t₁, t = t₀ ++ t₁ ∧ ∀ x ∈ t₁, svc.IsRead position (wallet :: left) x) :
    Returns recording (svc.Trail fun other => D other ∨ other = position)
      (fun x t' => (∃ t₁, t' = t₀ ++ t₁ ∧ ∀ x ∈ t₁, svc.IsRead position left x) ∧
        svc.GapsOf required position wallet x t' ∧
        ∀ other y, svc.GapsOf required position other y t →
          svc.GapsOf required position other y t')
      (svc.walletGaps required position wallet) t := by
  obtain ⟨t₁, rfl, hreads⟩ := ht
  rintro reply t' rfl
  have hreads' : ∀ x ∈ t₁ ++ [⟨.completedRanges svc.chainId wallet position, reply⟩],
      svc.IsRead position left x := by
    intro x hx
    rcases List.mem_append.mp hx with hold | hlast
    · obtain ⟨other, reply', hother, rfl⟩ := hreads x hold
      exact ⟨other, reply', fun hin => hother (List.mem_cons_of_mem _ hin), rfl⟩
    · rw [List.mem_singleton.mp hlast]
      exact ⟨wallet, reply, hleft, rfl⟩
  have htrail := h.append_reads hnew hreads'
  rw [← List.append_assoc] at htrail
  -- the wallet had not been read before: not at this position, and no other position is this one
  have hunread : ∀ reply', ⟨.completedRanges svc.chainId wallet position, reply'⟩ ∉ t₀ ++ t₁ := by
    intro reply' hmem
    rcases List.mem_append.mp hmem with hold | hin
    · exact hnew (h.reads _ _ _ _ hold)
    · obtain ⟨other, _, hother, heq⟩ := hreads _ hin
      cases heq
      exact hother List.mem_cons_self
  refine ⟨htrail, ?_⟩
  cases reply with
  | error e => exact htrail
  | ok rows =>
    change Returns recording _ _ (ofExcept ((rows.mapM fun range =>
      BlockRange.make range.1 range.2).mapError SweepException.discovery) >>= fun completed =>
        .ret (wallet, coverageGaps required completed)) _
    apply Returns.ofExcept_bind htrail
    intro completed hcompleted
    rw [except_mapError_eq_ok_iff] at hcompleted
    refine ⟨⟨_, List.append_assoc _ _ _, hreads'⟩, ⟨rfl, rows, completed, ⟨?_, ?_⟩, hcompleted,
      rfl⟩, ?_⟩
    · exact List.mem_append_right _ (List.mem_singleton.mpr rfl)
    · intro reply' hmem
      rcases List.mem_append.mp hmem with hold | hlast
      · exact absurd hold (hunread reply')
      · cases List.mem_singleton.mp hlast
        rfl
    · rintro other y ⟨hname, rows', completed', ⟨hmem, honce⟩, hrest⟩
      refine ⟨hname, rows', completed', ⟨List.mem_append_left _ hmem, ?_⟩, hrest⟩
      intro reply' hmem'
      rcases List.mem_append.mp hmem' with hold | hlast
      · exact honce reply' hold
      · -- the new read is of a wallet that had none, so not of this one
        cases List.mem_singleton.mp hlast
        exact absurd hmem (hunread _)

/-! ## Scanning the groups of a position -/

/-- An operation of the scans of some groups: no read of coverage, and requests only inside the gaps
of a group for the words of its wallets. -/
def InGroups (position : Nat) (groups : List (List BlockRange × List String)) (op : SweepOp) :
    Prop :=
  (∀ request, op = .rpc request → ∃ group ∈ groups, ∃ f r,
    LogFilter.make none (sweepTopics position group.2) = .ok f ∧ request = getLogs f r ∧
      ∀ block, r.Contains block → Covered group.1 block) ∧
  ∀ chainId wallet other, op ≠ .completedRanges chainId wallet other

theorem asks_scanGap (svc : SweepService) {g : SweepScan}
    {groups : List (List BlockRange × List String)} {group : List BlockRange × List String}
    (hgroup : group ∈ groups) (hwallets : g.wallets = group.2)
    (hgap : ∀ block, g.gap.Contains block → Covered group.1 block) :
    Asks (InGroups g.position groups) (svc.scanGap g) := by
  have hother : ∀ op, (∀ request, op ≠ .rpc request) →
      (∀ chainId wallet other, op ≠ .completedRanges chainId wallet other) →
        InGroups g.position groups op :=
    fun op hrpc hread => ⟨fun request heq => absurd heq (hrpc request), hread⟩
  have hranges : ∀ rows, Asks (InGroups g.position groups) (SweepProgram.insertSweepRanges rows) := by
    intro rows
    refine ⟨hother _ (by simp) (by simp), ?_⟩
    rintro (e | u) <;> trivial
  have hlogs : ∀ rows,
      Asks (InGroups g.position groups) (SweepProgram.insertWalletInteractionLogs rows) := by
    intro rows
    refine ⟨hother _ (by simp) (by simp), ?_⟩
    rintro (e | u) <;> trivial
  have hnow : Asks (InGroups g.position groups) SweepProgram.now :=
    ⟨hother _ (by simp) (by simp), fun _ => trivial⟩
  have hfailure : ∀ scanId startedAt e,
      Asks (InGroups g.position groups) (svc.recordFailure g scanId startedAt e) := by
    intro scanId startedAt e
    have hrecord : ∀ exc, Asks (InGroups g.position groups) (SweepProgram.now >>= fun failedAt =>
        SweepProgram.insertSweepRanges (g.wallets.map
          (svc.failedRow g scanId startedAt failedAt exc)) >>= fun _ =>
            (throw (.discovery exc) : SweepProgram DiscoveryScan)) :=
      fun exc => hnow.bind fun _ => (hranges _).bind fun _ => trivial
    cases e with
    | discovery exc =>
      cases exc with
      | cancelled => trivial
      | rangeFailed message cause => exact hrecord _
      | responseError message => exact hrecord _
      | valueError message => exact hrecord _
    | valueError message => trivial
    | indexError => trivial
    | store message => trivial
  have huuid : Asks (InGroups g.position groups) SweepProgram.uuid4 :=
    ⟨hother _ (by simp) (by simp), fun _ => trivial⟩
  have hpersist : ∀ logRows rangeRows,
      Asks (InGroups g.position groups) (persist logRows rangeRows) := by
    intro logRows rangeRows
    unfold persist
    split
    · exact (hlogs _).bind fun _ => hranges _
    · exact hranges _
  unfold scanGap
  apply huuid.bind
  intro scanId
  apply hnow.bind
  intro startedAt
  cases hfilter : LogFilter.make none (sweepTopics g.position g.wallets) with
  | error e => trivial
  | ok f =>
    change Asks _ (tryCatch (SweepProgram.runRpc (svc.scanner.scanFilter f g.gap.start
      g.gap.endExclusive)) (svc.recordFailure g scanId startedAt) >>= _)
    have hscan : Asks (InGroups g.position groups) (SweepProgram.runRpc
        (svc.scanner.scanFilter f g.gap.start g.gap.endExclusive)) := by
      refine Asks.lift ?_ (svc.scanner.asks_scanFilter f g.gap.start g.gap.endExclusive)
      rintro _ ⟨r, rfl, hlo, hhi⟩
      refine ⟨?_, by simp⟩
      intro request heq
      cases heq
      refine ⟨group, hgroup, f, r, hwallets ▸ hfilter, rfl, fun block hblock => ?_⟩
      exact hgap block ⟨hlo.trans hblock.1, hblock.2.trans_le hhi⟩
    apply (hscan.tryCatch (hfailure scanId startedAt)).bind
    intro scan
    apply hnow.bind
    intro finishedAt
    apply (Asks.ofExcept _).bind
    intro logRows
    exact (hpersist _ _).bind fun _ => trivial

theorem asks_groups (svc : SweepService) (sweep : SweepConfig) (anchorBlock : Nat)
    (anchorHash : String) (position : Nat) (groups : List (List BlockRange × List String)) :
    Asks (InGroups position groups)
      (groups.forM (svc.scanGroup sweep anchorBlock anchorHash position)) := by
  apply Asks.forM
  intro group hgroup
  unfold scanGroup
  cases hwindows : group.1.mapM fun gap => scanWindows gap sweep.checkpointBlocks with
  | error e => trivial
  | ok windows =>
    change Asks _ (windows.flatten.forM _)
    apply Asks.forM
    intro window hwindow
    have hgap : ∀ block, window.Contains block → Covered group.1 block :=
      fun block hblock => (covered_windows hwindows block).mp ⟨window, hwindow, hblock⟩
    exact (svc.asks_scanGap (g := ⟨position, group.2, window, anchorBlock, anchorHash⟩) hgroup rfl
      hgap).bind fun _ => trivial

/-- The scans of the groups extend the trail: the gaps of a group are what its wallets' readings
left uncovered. -/
theorem Trail.append_scans {svc : SweepService} {D : Nat → Prop} {position : Nat}
    {required : BlockRange} {wallets : List String} {gapsOf : List (String × List BlockRange)}
    {t t₁ : List (Sigma SweepAns)} (h : svc.Trail D t) (hposition : D position)
    (hwallets : ∀ wallet ∈ wallets, isAddress wallet = true)
    (hread : List.Forall₂ (fun wallet x => svc.GapsOf required position wallet x t) wallets gapsOf)
    (hscans : ∀ x ∈ t₁, InGroups position (gapGroups gapsOf) x.1) : svc.Trail D (t ++ t₁) := by
  have hnoread : ∀ chainId wallet other reply,
      ⟨.completedRanges chainId wallet other, reply⟩ ∉ t₁ :=
    fun chainId wallet other reply hmem => (hscans _ hmem).2 chainId wallet other rfl
  constructor
  · intro request reply hmem
    rcases List.mem_append.mp hmem with hold | hnew
    · obtain ⟨other, hdone, hother⟩ := h.requests request reply hold
      exact ⟨other, hdone, hother.append fun chainId wallet reply' => hnoread chainId wallet other
        reply'⟩
    · obtain ⟨group, hgroup, f, r, hfilter, hrequest, hin⟩ := (hscans _ hnew).1 request rfl
      obtain ⟨haddress, htopics⟩ := LogFilter.make_eq_ok hfilter
      obtain ⟨-, -, hmembers⟩ := mem_gapGroups hgroup
      have huncovered : svc.ScansUncovered position t request := by
        refine ⟨f, r, _, hrequest, haddress, htopics, ?_⟩
        intro wallet hwallet hword
        obtain ⟨member, hmember, hsame⟩ := List.mem_map.mp (mem_sortedSet.mp hword)
        obtain ⟨name, hname, rfl, rows, completed, honce, hmake, hgaps⟩ :=
          forall₂_right hread (hmembers member hmember)
        -- the word decides the wallet, since the wallets are addresses
        obtain rfl := walletTopic_inj (hwallets _ hname) hwallet hsame
        refine ⟨rows, honce, ?_⟩
        intro range hrange block hblock hinside
        obtain ⟨c, hc, hok⟩ := exists_of_mem_of_mapM hmake hrange
        have hcovered : Covered completed block := by
          refine ⟨c, hc, ?_⟩
          have hsingle : [range].mapM (fun r => BlockRange.make r.1 r.2) = .ok [c] :=
            mapM_eq_ok_iff.mpr (.cons hok .nil)
          have hmem := mapM_make_eq_ok hsingle c (List.mem_singleton.mpr rfl)
          rw [← List.mem_singleton.mp hmem] at hinside
          exact hinside
        have hgap : Covered (coverageGaps required completed) block := hgaps ▸ hin block hblock
        exact ((covered_coverageGaps required completed block).mp hgap).2 hcovered
      exact ⟨position, hposition, huncovered.append fun chainId wallet reply' =>
        hnoread chainId wallet position reply'⟩
  · intro chainId wallet other reply hmem
    rcases List.mem_append.mp hmem with hold | hnew
    · exact h.reads chainId wallet other reply hold
    · exact absurd hnew (hnoread chainId wallet other reply)

/-! ## The whole call -/

theorem returns_advancePosition_recording {svc : SweepService} {D : Nat → Prop} {position : Nat}
    (sweep : SweepConfig) (required : BlockRange) {wallets : List String}
    (hwallets : ∀ wallet ∈ wallets, isAddress wallet = true) (anchorBlock : Nat)
    (anchorHash : String) {t : List (Sigma SweepAns)} (h : svc.Trail D t) (hnew : ¬ D position) :
    Returns recording (svc.Trail fun other => D other ∨ other = position)
      (fun _ t' => svc.Trail (fun other => D other ∨ other = position) t')
      (svc.advancePosition sweep required wallets anchorBlock anchorHash position) t := by
  unfold advancePosition
  apply Returns.bind (Returns.mapM (fun left t' => left.Nodup ∧
    ∃ t₁, t' = t ++ t₁ ∧ ∀ x ∈ t₁, svc.IsRead position left x)
    (fun wallet x t' => svc.GapsOf required position wallet x t')
    ⟨nodup_sortedSet wallets, [], (List.append_nil t).symm, List.forall_mem_nil _⟩ ?_)
  · rintro gapsOf t' ⟨⟨-, t₁, rfl, hreads⟩, hgaps, -⟩
    have htrail := h.append_reads hnew hreads
    have hscans : ∀ t', (∃ t₂, t' = t ++ t₁ ++ t₂ ∧
        ∀ x ∈ t₂, InGroups position (gapGroups gapsOf) x.1) →
          svc.Trail (fun other => D other ∨ other = position) t' := by
      rintro _ ⟨t₂, rfl, hscans⟩
      exact htrail.append_scans (.inr rfl) (fun wallet hw => hwallets wallet (mem_sortedSet.mp hw))
        hgaps hscans
    refine Safe.mono (Returns.safe (Asks.returns (svc.asks_groups sweep anchorBlock anchorHash
      position (gapGroups gapsOf)) ⟨[], (List.append_nil _).symm, List.forall_mem_nil _⟩)) hscans ?_
    intro r t' hr
    cases r with
    | error e => exact hscans t' hr
    | ok u => exact hscans t' hr
  · rintro wallet left t' ⟨hnodup, ht'⟩
    obtain ⟨hleft, hrest⟩ := List.nodup_cons.mp hnodup
    apply Returns.mono (returns_walletGaps_recording required h hnew hleft ht')
    rintro x t'' ⟨hread, hgaps, hkeep⟩
    exact ⟨⟨hrest, hread⟩, hgaps, hkeep⟩

/-- Every request of a call of `advance`, stopped anywhere and whatever it was answered. -/
theorem trail_of_advance (svc : SweepService) (sweep : SweepConfig) {wallets : List String}
    (hwallets : ∀ wallet ∈ wallets, isAddress wallet = true) (anchorBlock : Nat)
    (anchorHash : String) {p : SweepProgram Unit} {t : List (Sigma SweepAns)}
    (h : Reaches recording (svc.advance sweep wallets anchorBlock anchorHash, []) (p, t)) :
    svc.Trail (· ∈ sweep.topicPositions) t := by
  have hempty : ∀ D, svc.Trail D [] := fun D => ⟨by simp, by simp⟩
  suffices hreturns : Returns recording (svc.Trail (· ∈ sweep.topicPositions)) (fun _ _ => True)
      (svc.advance sweep wallets anchorBlock anchorHash) [] from hreturns.crash (hempty _) h
  unfold advance
  split
  · exact hempty _
  unfold BlockRange.make
  split
  · rename_i hlt
    change Returns recording _ _ ((sortBy id sweep.topicPositions).forM _) []
    have hnodup : (sortBy id sweep.topicPositions).Nodup :=
      (sortBy_perm id _).nodup_iff.mpr sweep.topicPositions_unique
    -- the positions worked on so far are those no longer in the list
    apply Returns.mono (Returns.forM (fun left t => left.Nodup ∧ left ⊆ sweep.topicPositions ∧
      svc.Trail (fun position => position ∈ sweep.topicPositions ∧ position ∉ left) t)
      ⟨hnodup, fun position h => mem_sortBy.mp h, hempty _⟩ ?_) fun _ _ _ => trivial
    rintro position left t ⟨hnodup, hsub, htrail⟩
    obtain ⟨hleft, hrest⟩ := List.nodup_cons.mp hnodup
    have hposition := hsub List.mem_cons_self
    have hgrow : ∀ other, (other ∈ sweep.topicPositions ∧ other ∉ position :: left) ∨
        other = position → other ∈ sweep.topicPositions ∧ other ∉ left := by
      rintro other (⟨hmem, hnot⟩ | rfl)
      · exact ⟨hmem, fun hin => hnot (List.mem_cons_of_mem _ hin)⟩
      · exact ⟨hposition, hleft⟩
    refine Safe.mono (returns_advancePosition_recording sweep ⟨sweep.startBlock, anchorBlock + 1,
      hlt⟩ hwallets anchorBlock anchorHash htrail fun hdone => hdone.2 List.mem_cons_self) ?_ ?_
    · intro t' htrail'
      exact htrail'.mono fun other hother => (hgrow other hother).1
    · intro r t' hr
      cases r with
      | error e => exact Trail.mono hr fun other hother => (hgrow other hother).1
      | ok u =>
        exact ⟨hrest, fun other hother => hsub (List.mem_cons_of_mem _ hother),
          Trail.mono hr hgrow⟩
  · exact hempty _

end SweepService

end RpcStateIndexer
