import RpcStateIndexer.Sweep.ServiceCorrect

/-!
# Sweep coverage is never claimed before its logs are on file

The invariant over every sequence of `advance` calls, each of which may stop anywhere: a completed
range of a wallet and position is backed by the wallet's logs in it.  The loops of `advance` are
described once, for any property that window scans keep.
-/

namespace RpcStateIndexer

open Reasoning Program

namespace SweepStore

/-- A completed row of the wallet at the position holds the block. -/
def OnFile (store : SweepStore) (chainId : Nat) (wallet : String) (position block : Nat) : Prop :=
  ∃ row ∈ store.ranges, row.IsOf chainId wallet position ∧ row.status = .completed ∧
    row.Contains block

theorem OnFile.mono {store store' : SweepStore} {chainId : Nat} {wallet : String}
    {position block : Nat} (h : store.OnFile chainId wallet position block)
    (hsub : store.ranges ⊆ store'.ranges) : store'.OnFile chainId wallet position block := by
  obtain ⟨row, hrow, hrest⟩ := h
  exact ⟨row, hsub hrow, hrest⟩

theorem OnFile.covers {store : SweepStore} {chainId : Nat} {wallet : String}
    {position block : Nat} (h : store.OnFile chainId wallet position block)
    (hagree : store.ScansAgree) : store.Covers chainId wallet position block := by
  obtain ⟨row, hrow, ⟨rfl, rfl, rfl⟩, hstatus, hblock⟩ := h
  exact covers_of_mem_ranges hagree hrow hstatus hblock

theorem onFile_of_mem {store : SweepStore} {chainId : Nat} {wallet : String}
    {position block : Nat} {range : Nat × Nat}
    (h : range ∈ store.completedSweepRanges chainId wallet position)
    (hblock : range.1 ≤ block ∧ block < range.2) :
    store.OnFile chainId wallet position block := by
  obtain ⟨row, hrow, rfl⟩ := mem_completedSweepRanges.mp h
  obtain ⟨hfinal, hof, hstatus⟩ := mem_completedRows.mp hrow
  exact ⟨row, mem_of_mem_final hfinal, hof, hstatus, hblock⟩

/-- Every completed range is backed by the wallet's logs in it. -/
def Backed (chains : Nat → Set NormalizedLog) (store : SweepStore) : Prop :=
  ∀ row ∈ store.ranges, row.status = .completed → ∀ l ∈ chains row.chainId,
    row.Contains l.blockNumber → l.topics[row.topicPosition]? = some (walletTopic row.walletAddress) →
      store.Attributes row.chainId row.walletAddress row.topicPosition l

end SweepStore

namespace SweepService

/-! ## What window scans keep -/

theorem WindowEffect.ranges_subset {svc : SweepService} {g : SweepScan}
    {chain : Set NormalizedLog} {w w' : SweepStore} (h : WindowEffect svc g chain w w') :
    w.ranges ⊆ w'.ranges := by
  cases h with
  | none => exact List.Subset.refl _
  | failed hfresh hrows => exact List.subset_append_left _ _
  | logged hrows => exact List.Subset.refl _
  | completed hfresh hrows => exact List.subset_append_left _ _

theorem WindowDone.effect {svc : SweepService} {g : SweepScan} {chain : Set NormalizedLog}
    {w w' : SweepStore} (h : WindowDone svc g chain w w') : WindowEffect svc g chain w w' := by
  obtain ⟨scanId, logs, ranges, hfresh, hrows, rfl⟩ := h
  exact .completed hfresh hrows

/-- A returned scan leaves every block of its window on file for each of its wallets. -/
theorem WindowDone.onFile {svc : SweepService} {g : SweepScan} {chain : Set NormalizedLog}
    {w w' : SweepStore} (h : WindowDone svc g chain w w') {wallet : String}
    (hwallet : wallet ∈ g.wallets) {block : Nat} (hblock : g.gap.Contains block) :
    w'.OnFile svc.chainId wallet g.position block := by
  obtain ⟨scanId, logs, ranges, hfresh, hrows, rfl⟩ := h
  obtain ⟨row, hrow, rfl, hin⟩ := (hrows.ranges_cover wallet hwallet block).mpr hblock
  obtain ⟨hchain, -, hposition, hstatus, -⟩ := hrows.ranges_cols row hrow
  exact ⟨row, List.mem_append_right _ hrow, ⟨hchain, rfl, hposition⟩, hstatus, hin⟩

/-- Scans of windows for wallets that are addresses keep the property, wherever they stop. -/
def KeptByWindows (svc : SweepService) (chain : Set NormalizedLog) (K : SweepStore → Prop) : Prop :=
  ∀ g w w', (∀ wallet ∈ g.wallets, isAddress wallet = true) → K w →
    WindowEffect svc g chain w w' → K w'

theorem KeptByWindows.returns_scanGap {svc : SweepService} {chain : Set NormalizedLog}
    {K : SweepStore → Prop} (hK : KeptByWindows svc chain K) {g : SweepScan}
    (hwallets : ∀ wallet ∈ g.wallets, isAddress wallet = true) {w : SweepStore} (hw : K w) :
    Returns (sweepEnv svc chain) K (fun _ w' => K w' ∧ w.ranges ⊆ w'.ranges ∧
      ∀ wallet ∈ g.wallets, ∀ block, g.gap.Contains block →
        w'.OnFile svc.chainId wallet g.position block) (svc.scanGap g) w := by
  have hkeep := fun w' heffect => hK g w w' hwallets hw heffect
  refine Safe.mono (SweepService.returns_scanGap svc hwallets chain w) hkeep ?_
  intro r w' hr
  cases r with
  | error e => exact hkeep w' hr
  | ok logs =>
    refine ⟨hkeep w' hr.effect, hr.effect.ranges_subset, ?_⟩
    intro wallet hwallet block hblock
    exact hr.onFile hwallet hblock

/-! ## The loops of `advance` -/

/-- All blocks of the gaps of a group are on file for all its wallets. -/
def GroupOnFile (svc : SweepService) (position : Nat) (group : List BlockRange × List String)
    (w : SweepStore) : Prop :=
  ∀ wallet ∈ group.2, ∀ block, Covered group.1 block → w.OnFile svc.chainId wallet position block

theorem returns_scanGroup {svc : SweepService} {chain : Set NormalizedLog} {K : SweepStore → Prop}
    (hK : KeptByWindows svc chain K) (sweep : SweepConfig) (anchorBlock : Nat) (anchorHash : String)
    (position : Nat) {group : List BlockRange × List String}
    (hwallets : ∀ wallet ∈ group.2, isAddress wallet = true) {w : SweepStore} (hw : K w) :
    Returns (sweepEnv svc chain) K
      (fun _ w' => K w' ∧ w.ranges ⊆ w'.ranges ∧ GroupOnFile svc position group w')
      (svc.scanGroup sweep anchorBlock anchorHash position group) w := by
  unfold scanGroup
  apply Returns.ofExcept_bind hw
  intro windows hwindows
  rw [except_mapError_eq_ok_iff] at hwindows
  apply Returns.mono (Returns.forM_each (fun a b => a.ranges ⊆ b.ranges)
    (fun _ => List.Subset.refl _) (fun _ _ _ => List.Subset.trans)
    (S := fun (window : BlockRange) w' => ∀ wallet ∈ group.2, ∀ block, window.Contains block →
      w'.OnFile svc.chainId wallet position block)
    (fun _ _ _ hsub hS wallet hwallet block hblock => (hS wallet hwallet block hblock).mono hsub)
    hw ?_)
  · rintro _ w' ⟨hw', hsub, hall⟩
    refine ⟨hw', hsub, ?_⟩
    intro wallet hwallet block hblock
    obtain ⟨window, hwindow, hin⟩ := (covered_windows hwindows block).mpr hblock
    exact hall window hwindow wallet hwallet block hin
  · intro window hwindow w₁ hw₁
    exact Returns.bind (hK.returns_scanGap (g := ⟨position, group.2, window, anchorBlock,
      anchorHash⟩) hwallets hw₁) fun _ _ h => h

/-- What the read phase of a position learns of a wallet. -/
def GapsRead (svc : SweepService) (required : BlockRange) (position : Nat) (w : SweepStore)
    (wallet : String) (x : String × List BlockRange) : Prop :=
  x.1 = wallet ∧ ∀ block, required.Contains block →
    Covered x.2 block ∨ w.OnFile svc.chainId wallet position block

theorem returns_walletGaps {svc : SweepService} {chain : Set NormalizedLog} {K : SweepStore → Prop}
    (required : BlockRange) (position : Nat) (wallet : String) {w : SweepStore} (hw : K w) :
    Returns (sweepEnv svc chain) K
      (fun x w' => w' = w ∧ GapsRead svc required position w wallet x)
      (svc.walletGaps required position wallet) w := by
  unfold walletGaps
  apply Returns.bind (P := fun rows w' => w' = w ∧
    rows = w.completedSweepRanges svc.chainId wallet position)
    (SweepProgram.returns_completedSweepRanges hw ⟨rfl, rfl⟩)
  rintro rows w' ⟨rfl, rfl⟩
  apply Returns.ofExcept_bind hw
  intro completed hcompleted
  refine ⟨rfl, rfl, fun block hblock => ?_⟩
  by_cases hcovered : Covered completed block
  · right
    obtain ⟨r, hr, hin⟩ := hcovered
    rw [except_mapError_eq_ok_iff] at hcompleted
    exact SweepStore.onFile_of_mem (mapM_make_eq_ok hcompleted r hr) hin
  · left
    exact (covered_coverageGaps required completed block).mpr ⟨hblock, hcovered⟩

/-- The required blocks of a position are on file for every wallet. -/
def PositionOnFile (svc : SweepService) (required : BlockRange) (wallets : List String)
    (position : Nat) (w : SweepStore) : Prop :=
  ∀ wallet ∈ wallets, ∀ block, required.Contains block →
    w.OnFile svc.chainId wallet position block

theorem returns_advancePosition {svc : SweepService} {chain : Set NormalizedLog}
    {K : SweepStore → Prop} (hK : KeptByWindows svc chain K) (sweep : SweepConfig)
    (required : BlockRange) {wallets : List String}
    (hwallets : ∀ wallet ∈ wallets, isAddress wallet = true) (anchorBlock : Nat)
    (anchorHash : String) (position : Nat) {w : SweepStore} (hw : K w) :
    Returns (sweepEnv svc chain) K
      (fun _ w' => K w' ∧ w.ranges ⊆ w'.ranges ∧ PositionOnFile svc required wallets position w')
      (svc.advancePosition sweep required wallets anchorBlock anchorHash position) w := by
  unfold advancePosition
  -- the reads leave the store alone
  apply Returns.bind (Returns.mapM (fun _ w' => w' = w)
    (fun wallet x _ => GapsRead svc required position w wallet x) rfl ?_)
  · rintro gapsOf w' ⟨rfl, hread, -⟩
    have hgroup : ∀ group ∈ gapGroups gapsOf, ∀ wallet ∈ group.2, isAddress wallet = true := by
      intro group hmem wallet hwallet
      obtain ⟨other, hother, rfl, -⟩ := forall₂_right hread ((mem_gapGroups hmem).2.2 wallet hwallet)
      exact hwallets _ (mem_sortedSet.mp hother)
    apply Returns.mono (Returns.forM_each (fun a b => a.ranges ⊆ b.ranges)
      (fun _ => List.Subset.refl _) (fun _ _ _ => List.Subset.trans)
      (S := fun group w' => GroupOnFile svc position group w')
      (fun _ _ _ hsub hS wallet hwallet block hblock => (hS wallet hwallet block hblock).mono hsub)
      hw fun group hmem w₁ hw₁ => returns_scanGroup hK sweep anchorBlock anchorHash position
        (hgroup group hmem) hw₁)
    rintro _ w'' ⟨hw'', hsub, hall⟩
    refine ⟨hw'', hsub, ?_⟩
    intro wallet hwallet block hblock
    obtain ⟨⟨wallet, gaps⟩, hx, rfl, hgaps⟩ :=
      forall₂_left hread (mem_sortedSet.mpr hwallet)
    rcases hgaps block hblock with hgap | hon
    · -- a gap of the wallet belongs to a group, and all groups are on file
      have hne : gaps ≠ [] := by
        rintro rfl
        exact covered_nil block hgap
      obtain ⟨group, hmem, rfl, hin⟩ := exists_gapGroup hx hne
      exact hall group hmem wallet hin block hgap
    · exact hon.mono hsub
  · rintro wallet rest w' rfl
    apply Returns.mono (returns_walletGaps required position wallet hw)
    rintro x w'' ⟨rfl, hx⟩
    exact ⟨rfl, hx, fun _ _ h => h⟩

/-- Advancing keeps what window scans keep, wherever it stops; a return leaves every block from the
start to the anchor on file for every wallet at every configured position. -/
theorem returns_advance {svc : SweepService} {chain : Set NormalizedLog} {K : SweepStore → Prop}
    (hK : KeptByWindows svc chain K) (sweep : SweepConfig) {wallets : List String}
    (hwallets : ∀ wallet ∈ wallets, isAddress wallet = true) (anchorBlock : Nat)
    (anchorHash : String) {w : SweepStore} (hw : K w) :
    Returns (sweepEnv svc chain) K
      (fun _ w' => K w' ∧ ∀ position ∈ sweep.topicPositions, ∀ wallet ∈ wallets, ∀ block,
        sweep.startBlock ≤ block → block ≤ anchorBlock →
          w'.OnFile svc.chainId wallet position block)
      (svc.advance sweep wallets anchorBlock anchorHash) w := by
  unfold advance
  split
  · exact hw
  unfold BlockRange.make
  split
  · rename_i hlt
    change Returns _ _ _ ((sortBy id sweep.topicPositions).forM (svc.advancePosition sweep
      ⟨sweep.startBlock, anchorBlock + 1, hlt⟩ wallets anchorBlock anchorHash)) w
    apply Returns.mono (Returns.forM_each (fun a b => a.ranges ⊆ b.ranges)
      (fun _ => List.Subset.refl _) (fun _ _ _ => List.Subset.trans)
      (S := fun position w' => PositionOnFile svc ⟨sweep.startBlock, anchorBlock + 1, hlt⟩ wallets
        position w')
      (fun _ _ _ hsub hS wallet hwallet block hblock => (hS wallet hwallet block hblock).mono hsub)
      hw fun position _ w₁ hw₁ => returns_advancePosition hK sweep _ hwallets anchorBlock
        anchorHash position hw₁)
    rintro _ w' ⟨hw', -, hall⟩
    refine ⟨hw', fun position hposition wallet hwallet block hlo hhi => ?_⟩
    exact hall position (mem_sortBy.mpr hposition) wallet hwallet block
      ⟨hlo, Nat.lt_succ_of_le hhi⟩
  · exact hw

end SweepService

/-! ## Every sequence of calls -/

/-- The stores reached from empty tables by any sequence of `advance` calls of any services,
sweeps, wallet sets and anchors; each call may stop at any operation.  The wallets are addresses, as
`explicitAddresses` makes them. -/
inductive SweepReachable (chains : Nat → Set NormalizedLog) : SweepStore → Prop
  | empty : SweepReachable chains .empty
  | advance (svc : SweepService) (sweep : SweepConfig) (wallets : List String)
    (anchorBlock : Nat) (anchorHash : String) {w w' : SweepStore} {p : SweepProgram Unit}
    (hwallets : ∀ wallet ∈ wallets, isAddress wallet = true) (hw : SweepReachable chains w)
    (hrun : Reaches (sweepEnv svc (chains svc.chainId))
      (svc.advance sweep wallets anchorBlock anchorHash, w) (p, w')) :
    SweepReachable chains w'

/-- What every window scan keeps holds along every sequence of calls. -/
theorem SweepReachable.kept {chains : Nat → Set NormalizedLog} {w : SweepStore}
    {K : SweepStore → Prop} (hK : ∀ svc, SweepService.KeptByWindows svc (chains svc.chainId) K)
    (h : SweepReachable chains w) (hempty : K .empty) : K w := by
  induction h with
  | empty => exact hempty
  | advance svc sweep wallets anchorBlock anchorHash hwallets _ hrun ih =>
    exact (SweepService.returns_advance (hK svc) sweep hwallets anchorBlock anchorHash ih).crash ih
      hrun

namespace SweepStore

/-- New rows of one status under a new identifier keep the scans apart. -/
theorem ScansAgree.addRanges {w : SweepStore} (h : w.ScansAgree) {scanId : Nat}
    {status : RangeStatus} {rows : List SweepRangeRow}
    (hfresh : ∀ row ∈ w.ranges, row.scanId ≠ scanId)
    (hrows : ∀ row ∈ rows, row.status = status ∧ row.scanId = scanId) :
    (w.addRanges rows).ScansAgree := by
  intro row hrow other hother hscan
  rcases List.mem_append.mp hrow with hold | hnew
  · rcases List.mem_append.mp hother with hold' | hnew'
    · exact h row hold other hold' hscan
    · exact absurd (hscan.trans (hrows other hnew').2) (hfresh row hold)
  · rcases List.mem_append.mp hother with hold' | hnew'
    · exact absurd (hscan.symm.trans (hrows row hnew).2) (hfresh other hold')
    · rw [(hrows row hnew).1, (hrows other hnew').1]

theorem ScansAgree.kept (svc : SweepService) (chain : Set NormalizedLog) :
    svc.KeptByWindows chain ScansAgree := by
  intro g w w' _ h heffect
  cases heffect with
  | none => exact h
  | failed hfresh hrows => exact h.addRanges hfresh hrows
  | logged hrows => exact h
  | completed hfresh hrows =>
    apply ScansAgree.addRanges (w := w.addLogs _) h hfresh
    intro row hrow
    obtain ⟨-, -, -, hstatus, hscan⟩ := hrows.ranges_cols row hrow
    exact ⟨hstatus, hscan⟩

/-- Rows already backed stay backed when log rows are added. -/
theorem Backed.mono {chains : Nat → Set NormalizedLog} {w w' : SweepStore} (h : w.Backed chains)
    (hsub : w.logs ⊆ w'.logs)
    (hranges : ∀ row ∈ w'.ranges, row.status = .completed → row ∈ w.ranges) : w'.Backed chains :=
  fun row hrow hstatus l hl hin hword =>
    (h row (hranges row hrow hstatus) hstatus l hl hin hword).mono hsub

/-- One window scan keeps every completed range backed, wherever it stops. -/
theorem Backed.kept (chains : Nat → Set NormalizedLog) (svc : SweepService) :
    svc.KeptByWindows (chains svc.chainId) (Backed chains) := by
  intro g w w' _ h heffect
  cases heffect with
  | none => exact h
  | failed hfresh hrows =>
    refine h.mono (List.Subset.refl _) fun row hrow hstatus => ?_
    rcases List.mem_append.mp hrow with hold | hnew
    · exact hold
    · rw [(hrows row hnew).1] at hstatus
      cases hstatus
  | logged hrows =>
    exact h.mono (List.subset_append_left _ _) fun row hrow _ => hrow
  | completed hfresh hrows =>
    intro row hrow hstatus l hl hin hword
    rcases List.mem_append.mp hrow with hold | hnew
    · exact (h row hold hstatus l hl hin hword).mono (List.subset_append_left _ _)
    · -- a new range: its logs are logs of the window
      obtain ⟨hchain, hwallet, hposition, -, -⟩ := hrows.ranges_cols row hnew
      rw [hchain] at hl
      rw [hposition] at hword
      have hwindow := (hrows.ranges_cover _ hwallet _).mp ⟨row, hnew, rfl, hin⟩
      obtain ⟨logRow, hlogRow, hrecords⟩ := hrows.complete l hl hwindow _ hwallet hword
      rw [hchain, hposition]
      exact .of_mem (List.mem_append_right _ hlogRow) hrecords

end SweepStore

theorem SweepReachable.scansAgree {chains : Nat → Set NormalizedLog} {w : SweepStore}
    (h : SweepReachable chains w) : w.ScansAgree :=
  h.kept (fun svc => SweepStore.ScansAgree.kept svc _) (by simp [SweepStore.ScansAgree,
    SweepStore.empty])

theorem SweepReachable.backed {chains : Nat → Set NormalizedLog} {w : SweepStore}
    (h : SweepReachable chains w) : w.Backed chains :=
  h.kept (SweepStore.Backed.kept chains) (by simp [SweepStore.Backed, SweepStore.empty])

end RpcStateIndexer
