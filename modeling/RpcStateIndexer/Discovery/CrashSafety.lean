import RpcStateIndexer.Discovery.ServiceCorrect

/-!
# Coverage is never claimed before its holders are on file

The invariant over every sequence of `advance` calls, each of which may stop anywhere: a completed
range is backed by the holders of all its logs.  The loops of `advance` are described once, for any
property that gap scans keep.
-/

namespace RpcStateIndexer

open Reasoning Program

/-! ## Holders on file -/

/-- Every holder the log names at the positions of the origin is on file by the log's block. -/
def DiscoveryStore.HoldsAll (store : DiscoveryStore) (chainId : Nat) (tokenAddress : String)
    (origin : ScanOrigin) (l : NormalizedLog) : Prop :=
  ∀ position ∈ origin.holderTopics, ∃ holder, l.holderAt position = .ok holder ∧
    (holder = zeroAddress ∧ origin.includeZero = false ∨
      store.HasHolder chainId tokenAddress holder l.blockNumber)

/-- The origin extracts all that the other one does. -/
def ScanOrigin.Covers (origin other : ScanOrigin) : Prop :=
  other.holderTopics ⊆ origin.holderTopics ∧ (other.includeZero = true → origin.includeZero = true)

namespace DiscoveryStore

theorem HoldsAll.mono {store store' : DiscoveryStore} {chainId : Nat} {tokenAddress : String}
    {origin : ScanOrigin} {l : NormalizedLog} (h : store.HoldsAll chainId tokenAddress origin l)
    (hsub : store.holders ⊆ store'.holders) : store'.HoldsAll chainId tokenAddress origin l := by
  intro position hposition
  obtain ⟨holder, hok, hzero | hon⟩ := h position hposition
  · exact ⟨holder, hok, .inl hzero⟩
  · exact ⟨holder, hok, .inr (hon.mono hsub)⟩

theorem HoldsAll.of_covers {store : DiscoveryStore} {chainId : Nat} {tokenAddress : String}
    {origin other : ScanOrigin} {l : NormalizedLog}
    (h : store.HoldsAll chainId tokenAddress origin l) (hcovers : origin.Covers other) :
    store.HoldsAll chainId tokenAddress other l := by
  intro position hposition
  obtain ⟨holder, hok, ⟨hzero, hinclude⟩ | hon⟩ := h position (hcovers.1 hposition)
  · refine ⟨holder, hok, .inl ⟨hzero, ?_⟩⟩
    by_contra hother
    rw [hcovers.2 (by simpa using hother)] at hinclude
    simp at hinclude
  · exact ⟨holder, hok, .inr hon⟩

/-- A completed range of the event, extracted as the origin says, holds the block. -/
def OnFile (store : DiscoveryStore) (chainId : Nat) (tokenAddress topic0 : String)
    (origin : ScanOrigin) (block : Nat) : Prop :=
  ∃ row, (row, origin) ∈ store.ranges ∧ row.status = .completed ∧ row.chainId = chainId ∧
    row.tokenAddress = tokenAddress ∧ row.topic0 = topic0 ∧ row.Contains block

theorem OnFile.mono {store store' : DiscoveryStore} {chainId : Nat} {tokenAddress topic0 : String}
    {origin : ScanOrigin} {block : Nat} (h : store.OnFile chainId tokenAddress topic0 origin block)
    (hsub : store.ranges ⊆ store'.ranges) :
    store'.OnFile chainId tokenAddress topic0 origin block := by
  obtain ⟨row, hrow, hrest⟩ := h
  exact ⟨row, hsub hrow, hrest⟩

/-- Every completed range is backed by the holders of its logs. -/
def Backed (chains : Nat → Set NormalizedLog) (store : DiscoveryStore) : Prop :=
  ∀ row origin, (row, origin) ∈ store.ranges → row.status = .completed →
    ∀ l ∈ eventLogs (chains row.chainId) row.tokenAddress row.topic0, row.Contains l.blockNumber →
      store.HoldsAll row.chainId row.tokenAddress origin l

end DiscoveryStore

namespace DiscoveryService

/-! ## The loops of `advance` -/

/-- A gap scan that `advance` may start for the configured event. -/
structure GapOf (svc : DiscoveryService) (token : TokenConfig) (required : BlockRange)
    (eventConfig : EventConfig) (g : GapScan) : Prop where
  token_eq : g.tokenAddress = token.address
  origin_eq : g.origin = originOf token eventConfig
  topic0_eq : ∃ event, svc.abiRegistry.validateHolderTopics eventConfig.abi eventConfig.event
    eventConfig.holderTopics = .ok event ∧ g.topic0 = event.topic0
  inside : ∀ block, g.gap.Contains block → required.Contains block

/-- Scans of the event's gaps keep the property, wherever they stop. -/
def KeptByScans (svc : DiscoveryService) (chain : Set NormalizedLog) (token : TokenConfig)
    (required : BlockRange) (eventConfig : EventConfig) (K : DiscoveryStore → Prop) : Prop :=
  ∀ g w w', GapOf svc token required eventConfig g → K w → GapEffect svc g chain w w' → K w'

theorem GapEffect.holders_subset {svc : DiscoveryService} {g : GapScan}
    {chain : Set NormalizedLog} {w w' : DiscoveryStore} (h : GapEffect svc g chain w w') :
    w.holders ⊆ w'.holders := by
  cases h with
  | none => exact fun _ h => h
  | failed hfailed hnonempty => exact fun _ h => h
  | observed hrows => exact fun _ h => DiscoveryStore.mem_addHolders.mpr (.inl h)
  | completed hrows => exact fun _ h => DiscoveryStore.mem_addHolders.mpr (.inl h)

theorem GapEffect.ranges_subset {svc : DiscoveryService} {g : GapScan}
    {chain : Set NormalizedLog} {w w' : DiscoveryStore} (h : GapEffect svc g chain w w') :
    w.ranges ⊆ w'.ranges := by
  cases h with
  | none => exact fun _ h => h
  | failed hfailed hnonempty => exact fun _ h => DiscoveryStore.mem_addRanges.mpr (.inl h)
  | observed hrows => exact fun _ h => h
  | completed hrows => exact fun _ h => DiscoveryStore.mem_addRanges.mpr (.inl h)

theorem GapDone.effect {svc : DiscoveryService} {g : GapScan} {chain : Set NormalizedLog}
    {w w' : DiscoveryStore} (h : GapDone svc g chain w w') : GapEffect svc g chain w w' := by
  obtain ⟨holders, ranges, hrows, rfl⟩ := h
  exact .completed hrows

theorem GapDone.onFile {svc : DiscoveryService} {g : GapScan} {chain : Set NormalizedLog}
    {w w' : DiscoveryStore} (h : GapDone svc g chain w w') {block : Nat}
    (hblock : g.gap.Contains block) :
    w'.OnFile svc.chainId g.tokenAddress g.topic0 g.origin block := by
  obtain ⟨holders, ranges, hrows, rfl⟩ := h
  obtain ⟨row, hrow, hin⟩ := (hrows.ranges_cover block).mpr hblock
  obtain ⟨hchain, htoken, htopic, hstatus, -⟩ := hrows.ranges_cols row hrow
  exact ⟨row, DiscoveryStore.mem_addRanges.mpr (.inr ⟨hrow, rfl⟩), hstatus, hchain, htoken, htopic,
    hin⟩

theorem GapDone.shows {svc : DiscoveryService} {g : GapScan} {chain : Set NormalizedLog}
    {w w' : DiscoveryStore} (h : GapDone svc g chain w w') {block : Nat}
    (hblock : g.gap.Contains block) : w'.Shows svc.chainId g.tokenAddress g.topic0 block := by
  obtain ⟨holders, ranges, hrows, rfl⟩ := h
  obtain ⟨row, hrow, hin⟩ := (hrows.ranges_cover block).mpr hblock
  obtain ⟨hchain, htoken, htopic, -⟩ := hrows.ranges_cols row hrow
  exact DiscoveryStore.shows_addRanges (fun row hrow => (hrows.ranges_cols row hrow).2.2.2.1) g.origin
    hrow hchain htoken htopic hin

/-- A finished scan hides no block of any event. -/
theorem GapDone.shows_mono {svc : DiscoveryService} {g : GapScan} {chain : Set NormalizedLog}
    {w w' : DiscoveryStore} (h : GapDone svc g chain w w') : w.ShownIn w' := by
  obtain ⟨holders, ranges, hrows, rfl⟩ := h
  intro chainId tokenAddress topic0 block hshows
  exact hshows.addRanges (fun row hrow => (hrows.ranges_cols row hrow).2.2.2.1) g.origin

/-- Scanning gaps one after another: a kept property survives a stop anywhere, and a return leaves
every gap on file and visible. -/
theorem safe_scanGaps {svc : DiscoveryService} {chain : Set NormalizedLog}
    {K : DiscoveryStore → Prop} {gaps : List BlockRange} {scanOf : BlockRange → GapScan}
    (hK : ∀ gap ∈ gaps, ∀ w w', K w → GapEffect svc (scanOf gap) chain w w' → K w')
    {w : DiscoveryStore} (hw : K w) :
    Safe (discoveryEnv svc chain) K
      (fun r w' => match r with
        | .ok _ => K w' ∧ w.ShownIn w' ∧ ∀ gap ∈ gaps, ∀ block, (scanOf gap).gap.Contains block →
          w'.OnFile svc.chainId (scanOf gap).tokenAddress (scanOf gap).topic0
            (scanOf gap).origin block ∧
          w'.Shows svc.chainId (scanOf gap).tokenAddress (scanOf gap).topic0 block
        | .error _ => K w')
      (gaps.forM fun gap => svc.scanGap (scanOf gap)) w := by
  refine safe_forM (fun remaining w' => K w' ∧ w.ShownIn w' ∧ ∃ done, gaps = done ++ remaining ∧
    ∀ gap ∈ done, ∀ block, (scanOf gap).gap.Contains block →
      w'.OnFile svc.chainId (scanOf gap).tokenAddress (scanOf gap).topic0 (scanOf gap).origin block ∧
      w'.Shows svc.chainId (scanOf gap).tokenAddress (scanOf gap).topic0 block)
    ⟨hw, .refl w, [], rfl, by simp⟩ ?_ ?_
  · rintro w' ⟨hw', hshown, done, hdone, hfile⟩
    rw [List.append_nil] at hdone
    exact ⟨hw', hshown, hdone ▸ hfile⟩
  · rintro gap rest w₁ ⟨hw₁, hshown, done, hdone, hfile⟩
    have hkeep := hK gap (by simp [hdone]) w₁
    refine (safe_scanGap svc (scanOf gap) chain w₁).mono (fun w' h => hkeep w' hw₁ h) ?_
    rintro (e | a) w' h
    · exact hkeep w' hw₁ h
    · refine ⟨hkeep w' hw₁ h.effect, hshown.trans h.shows_mono, done ++ [gap], by simp [hdone], ?_⟩
      intro other hother block hblock
      rcases List.mem_append.mp hother with hother | hother
      · obtain ⟨hon, hshows⟩ := hfile other hother block hblock
        exact ⟨hon.mono h.effect.ranges_subset, h.shows_mono _ _ _ _ hshows⟩
      · obtain rfl := List.mem_singleton.mp hother
        exact ⟨h.onFile hblock, h.shows hblock⟩

/-- The ranges that are read cover the blocks that the store shows. -/
theorem covered_iff_shows {w : DiscoveryStore} {chainId : Nat} {tokenAddress topic0 : String}
    {completed : List BlockRange}
    (hcompleted : (w.completedDiscoveryRanges chainId tokenAddress topic0).mapM
      (fun range => BlockRange.make range.1 range.2) = .ok completed) {block : Nat} :
    Covered completed block ↔ w.Shows chainId tokenAddress topic0 block := by
  constructor
  · rintro ⟨r, hr, hblock⟩
    have hmem := mapM_make_eq_ok hcompleted r hr
    rw [DiscoveryStore.completedDiscoveryRanges, mem_sortBy, List.mem_map] at hmem
    obtain ⟨x, hx, heq⟩ := hmem
    rw [Prod.mk.injEq] at heq
    refine ⟨x, hx, ?_⟩
    rw [DiscoveryRangeRow.Contains, heq.1, heq.2]
    exact hblock
  · rintro ⟨x, hx, hin⟩
    have hrange : (x.1.rangeStartBlock, x.1.rangeEndBlockExclusive) ∈
        w.completedDiscoveryRanges chainId tokenAddress topic0 := by
      rw [DiscoveryStore.completedDiscoveryRanges, mem_sortBy]
      exact List.mem_map_of_mem hx
    obtain ⟨r, hr, hmake⟩ := exists_of_mem_of_mapM hcompleted hrange
    unfold BlockRange.make at hmake
    split at hmake
    · rw [Except.ok.injEq] at hmake
      subst hmake
      exact ⟨_, hr, hin⟩
    · simp at hmake

/-- A required block of the event is in no visible completed range: the event is scanned. -/
def Scans (svc : DiscoveryService) (token : TokenConfig) (required : BlockRange)
    (eventConfig : EventConfig) (w : DiscoveryStore) : Prop :=
  ∃ event, svc.abiRegistry.validateHolderTopics eventConfig.abi eventConfig.event
    eventConfig.holderTopics = .ok event ∧
    ∃ block, required.Contains block ∧ ¬ w.Shows svc.chainId token.address event.topic0 block

/-- Advancing one event: a property that its scans keep, where it scans at all, survives a stop
anywhere, and a return leaves every required block visible, in a range that was so before, whatever it
extracted, or in a new one. -/
theorem safe_advanceEvent {svc : DiscoveryService} {chain : Set NormalizedLog}
    {token : TokenConfig} {required : BlockRange} {eventConfig : EventConfig}
    {K : DiscoveryStore → Prop} (anchorBlock : Nat) (anchorHash : String) {w : DiscoveryStore}
    (hK : svc.Scans token required eventConfig w →
      KeptByScans svc chain token required eventConfig K) (hw : K w) :
    Safe (discoveryEnv svc chain) K
      (fun r w' => match r with
        | .ok _ => K w' ∧ w.ShownIn w' ∧ ∃ event, svc.abiRegistry.validateHolderTopics eventConfig.abi
            eventConfig.event eventConfig.holderTopics = .ok event ∧
          ∀ block, required.Contains block →
            (w.Shows svc.chainId token.address event.topic0 block ∨
              w'.OnFile svc.chainId token.address event.topic0 (originOf token eventConfig) block) ∧
            w'.Shows svc.chainId token.address event.topic0 block
        | .error _ => K w')
      (svc.advanceEvent token required anchorBlock anchorHash eventConfig) w := by
  unfold advanceEvent
  cases hevent : svc.abiRegistry.validateHolderTopics eventConfig.abi eventConfig.event
      eventConfig.holderTopics with
  | error e => exact hw
  | ok event =>
    change Safe _ _ _ (completedDiscoveryRanges svc.chainId token.address event.topic0 >>= _) w
    rw [safe_bind]
    refine safe_completedDiscoveryRanges hw ?_ fun e => hw
    rw [andThen_ok]
    cases hcompleted : (w.completedDiscoveryRanges svc.chainId token.address event.topic0).mapM
        fun range => BlockRange.make range.1 range.2 with
    | error e => exact hw
    | ok completed =>
      have hcovered : ∀ block, Covered completed block ↔
          w.Shows svc.chainId token.address event.topic0 block :=
        fun _ => covered_iff_shows hcompleted
      refine (safe_scanGaps (K := K) ?_ hw).mono (fun _ h => h) ?_
      · intro gap hgap w₁ w₂ hw₁ heffect
        -- a gap has a block, which no visible range holds
        obtain ⟨hin, hnot⟩ := (covered_coverageGaps required completed gap.start).mp
          ⟨gap, hgap, le_rfl, gap.nonempty⟩
        exact hK ⟨event, hevent, gap.start, hin, fun h => hnot ((hcovered _).mpr h)⟩ _ w₁ w₂
          ⟨rfl, rfl, ⟨event, hevent, rfl⟩, fun block hblock =>
            contains_of_mem_coverageGaps hgap hblock⟩ hw₁ heffect
      · rintro (e | a) w' h
        · exact h
        · obtain ⟨hKw, hshown, hgaps⟩ := h
          refine ⟨hKw, hshown, event, rfl, fun block hin => ?_⟩
          by_cases hblock : Covered completed block
          · have hshows := (hcovered block).mp hblock
            exact ⟨.inl hshows, hshown _ _ _ _ hshows⟩
          · obtain ⟨gap, hgap, hcontains⟩ :=
              (covered_coverageGaps required completed block).mpr ⟨hin, hblock⟩
            obtain ⟨hon, hshows⟩ := hgaps gap hgap block hcontains
            exact ⟨.inr hon, hshows⟩

/-- The block lies in a completed range of the configured event. -/
def EventOnFile (svc : DiscoveryService) (token : TokenConfig) (eventConfig : EventConfig)
    (w : DiscoveryStore) (block : Nat) : Prop :=
  ∃ event, svc.abiRegistry.validateHolderTopics eventConfig.abi eventConfig.event
    eventConfig.holderTopics = .ok event ∧
    ∃ origin, w.OnFile svc.chainId token.address event.topic0 origin block

/-- Advancing a token keeps what the scans of its events keep, wherever it stops; a return leaves
every block from the deployment to the anchor in a completed range of each event. -/
theorem safe_advance {svc : DiscoveryService} {chain : Set NormalizedLog} {token : TokenConfig}
    {anchorBlock : Nat} {anchorHash : String} {K : DiscoveryStore → Prop}
    (hK : ∀ h, ∀ eventConfig ∈ token.discoveryEvents, KeptByScans svc chain token
      ⟨token.deploymentBlock, anchorBlock + 1, h⟩ eventConfig K) {w : DiscoveryStore} (hw : K w) :
    Safe (discoveryEnv svc chain) K
      (fun r w' => match r with
        | .ok _ => K w' ∧ ∀ eventConfig ∈ token.discoveryEvents, ∀ block,
          token.deploymentBlock ≤ block → block ≤ anchorBlock →
            EventOnFile svc token eventConfig w' block
        | .error _ => K w') (svc.advance token anchorBlock anchorHash) w := by
  unfold advance BlockRange.make
  split
  · rename_i h
    change Safe _ _ _ (token.discoveryEvents.forM (svc.advanceEvent token
      ⟨token.deploymentBlock, anchorBlock + 1, h⟩ anchorBlock anchorHash)) w
    -- the events seen so far stay on file while later ones are scanned
    refine safe_forM (fun remaining w => K w ∧ ∃ done, token.discoveryEvents = done ++ remaining ∧
      ∀ eventConfig ∈ done, ∀ block, token.deploymentBlock ≤ block → block ≤ anchorBlock →
        EventOnFile svc token eventConfig w block) ⟨hw, [], rfl, by simp⟩ ?_ ?_
    · rintro w' ⟨hw', done, hdone, hfile⟩
      rw [List.append_nil] at hdone
      exact ⟨hw', hdone ▸ hfile⟩
    · rintro eventConfig rest w₁ ⟨hw₁, done, hdone, hfile⟩
      have hkept := hK h eventConfig (by simp [hdone])
      have hgrow : KeptByScans svc chain token ⟨token.deploymentBlock, anchorBlock + 1, h⟩
          eventConfig fun w => K w ∧ w₁.ranges ⊆ w.ranges := fun g w w' hof hw heffect =>
        ⟨hkept g w w' hof hw.1 heffect, fun x hx => heffect.ranges_subset (hw.2 hx)⟩
      refine (safe_advanceEvent anchorBlock anchorHash (fun _ => hgrow) ⟨hw₁, fun x hx => hx⟩).mono
        (fun w h => h.1) ?_
      rintro (e | a) w' hw'
      · exact hw'.1
      · obtain ⟨⟨hK', hsub⟩, -, event, hevent, hblocks⟩ := hw'
        refine ⟨hK', done ++ [eventConfig], by simp [hdone], ?_⟩
        intro other hother block hlo hhi
        rcases List.mem_append.mp hother with hother | hother
        · obtain ⟨event', hevent', origin, hon⟩ := hfile other hother block hlo hhi
          exact ⟨event', hevent', origin, hon.mono hsub⟩
        · obtain rfl := List.mem_singleton.mp hother
          refine ⟨event, hevent, ?_⟩
          rcases (hblocks block ⟨hlo, by simp only; omega⟩).1 with ⟨⟨row, origin⟩, hx, hin⟩ | hon
          · obtain ⟨hmem, hchain, htoken, htopic, hstatus⟩ := DiscoveryStore.mem_completedRows hx
            exact ⟨origin, row, hsub hmem, hstatus, hchain, htoken, htopic, hin⟩
          · exact ⟨_, hon⟩
  · exact hw

end DiscoveryService

/-! ## Every sequence of calls -/

/-- The stores reached from a store by any sequence of `advance` calls of any services, tokens and
anchors; each call may stop at any operation, by a crash or an exception. -/
inductive DiscoveryRun (chains : Nat → Set NormalizedLog) (w₀ : DiscoveryStore) :
    DiscoveryStore → Prop
  | refl : DiscoveryRun chains w₀ w₀
  | advance (svc : DiscoveryService) (token : TokenConfig) (anchorBlock : Nat)
    (anchorHash : String) {w w' : DiscoveryStore} {p : DiscoveryProgram Unit}
    (hw : DiscoveryRun chains w₀ w)
    (hrun : Reaches (discoveryEnv svc (chains svc.chainId))
      (svc.advance token anchorBlock anchorHash, w) (p, w')) :
    DiscoveryRun chains w₀ w'

/-- The stores reached from empty tables. -/
abbrev DiscoveryReachable (chains : Nat → Set NormalizedLog) (w : DiscoveryStore) : Prop :=
  DiscoveryRun chains .empty w

/-- What every gap scan keeps holds along every sequence of calls. -/
theorem DiscoveryRun.kept {chains : Nat → Set NormalizedLog} {w₀ w : DiscoveryStore}
    {K : DiscoveryStore → Prop}
    (hK : ∀ svc token required eventConfig,
      DiscoveryService.KeptByScans svc (chains svc.chainId) token required eventConfig K)
    (h : DiscoveryRun chains w₀ w) (hw₀ : K w₀) : K w := by
  induction h with
  | refl => exact hw₀
  | advance svc token anchorBlock anchorHash _ hrun ih =>
    exact (DiscoveryService.safe_advance (fun _ _ _ => hK svc token _ _) ih).crash ih hrun

namespace DiscoveryStore

/-- Rows already backed stay backed when holder rows are added. -/
theorem Backed.mono {chains : Nat → Set NormalizedLog} {w w' : DiscoveryStore}
    (h : w.Backed chains) (hsub : w.holders ⊆ w'.holders)
    (hranges : ∀ row origin, (row, origin) ∈ w'.ranges → row.status = .completed →
      (row, origin) ∈ w.ranges) : w'.Backed chains :=
  fun row origin hrow hstatus l hl hin =>
    (h row origin (hranges row origin hrow hstatus) hstatus l hl hin).mono hsub

/-- The holder rows of a scan put the holders of the gap's logs on file. -/
theorem holdsAll_addHolders {svc : DiscoveryService} {g : GapScan} {chain : Set NormalizedLog}
    {holders : List HolderRow} {ranges : List DiscoveryRangeRow}
    (hrows : Extracted svc g chain holders ranges) (w : DiscoveryStore) {l : NormalizedLog}
    (hl : l ∈ eventLogs chain g.tokenAddress g.topic0.toLower)
    (hin : g.gap.Contains l.blockNumber) :
    (w.addHolders holders).HoldsAll svc.chainId g.tokenAddress g.origin l := by
  intro position hposition
  obtain ⟨holder, hok, hzero | ⟨row, hrow, rfl, hle⟩⟩ := hrows.complete l hl hin position hposition
  · exact ⟨holder, hok, .inl hzero⟩
  · obtain ⟨hchain, htoken, -⟩ := hrows.sound row hrow
    refine ⟨row.holderAddress, hok, .inr (hasHolder_iff.mpr ?_)⟩
    exact ⟨row, mem_addHolders.mpr (.inr hrow), hchain, htoken, rfl, hle⟩

/-- One gap scan keeps every completed range backed, wherever it stops. -/
theorem Backed.gapEffect {chains : Nat → Set NormalizedLog} {svc : DiscoveryService}
    {token : TokenConfig} {required : BlockRange} {eventConfig : EventConfig} {g : GapScan}
    {w w' : DiscoveryStore} (hof : svc.GapOf token required eventConfig g) (h : w.Backed chains)
    (heffect : svc.GapEffect g (chains svc.chainId) w w') : w'.Backed chains := by
  cases heffect with
  | none => exact h
  | @failed failedRow hfailed hnonempty =>
    refine h.mono (fun _ h => h) fun row origin hrow hstatus => ?_
    rcases mem_addRanges.mp hrow with hrow | ⟨hrow, -⟩
    · exact hrow
    · obtain rfl : row = failedRow := List.mem_singleton.mp hrow
      rw [hfailed] at hstatus
      simp at hstatus
  | observed hrows =>
    exact h.mono (fun _ h => mem_addHolders.mpr (.inl h)) fun row origin hrow _ => hrow
  | completed hrows =>
    intro row origin hrow hstatus l hl hin
    rcases mem_addRanges.mp hrow with hrow | ⟨hrow, rfl⟩
    · exact (h row origin hrow hstatus l hl hin).mono fun _ h => mem_addHolders.mpr (.inl h)
    · -- a new range: its logs are logs of the gap
      obtain ⟨hchain, htoken, htopic, -⟩ := hrows.ranges_cols row hrow
      obtain ⟨event, hevent, htopic0⟩ := hof.topic0_eq
      have hlower : g.topic0.toLower = g.topic0 := by
        rw [htopic0]
        exact (AbiRegistry.topic0_ok hevent).2
      rw [hchain, htoken, htopic] at hl
      rw [hchain, htoken]
      exact holdsAll_addHolders hrows w (by rwa [hlower])
        ((hrows.ranges_cover _).mp ⟨row, hrow, hin⟩)

end DiscoveryStore

theorem DiscoveryReachable.backed {chains : Nat → Set NormalizedLog} {w : DiscoveryStore}
    (h : DiscoveryReachable chains w) : w.Backed chains :=
  h.kept (fun _ _ _ _ _ _ _ hof hw heffect => hw.gapEffect hof heffect)
    (by simp [DiscoveryStore.Backed, DiscoveryStore.empty])

theorem DiscoveryRun.holders_subset {chains : Nat → Set NormalizedLog} {w₀ w : DiscoveryStore}
    (h : DiscoveryRun chains w₀ w) : w₀.holders ⊆ w.holders :=
  h.kept (K := fun w => w₀.holders ⊆ w.holders)
    (fun _ _ _ _ _ _ _ _ hw heffect _ hx => heffect.holders_subset (hw hx)) fun _ hx => hx

end RpcStateIndexer
