import RpcStateIndexer.Discovery.Persistence

/-!
# Coverage does not say what was extracted

`completed_discovery_ranges` is keyed by the token and the topic alone, while a scan extracts the
positions of one configured event.  A range scanned for fewer positions is skipped all the same, so
`advance` is complete only where the ranges it skips were scanned for what it needs.
-/

namespace RpcStateIndexer

open Reasoning Program

namespace DiscoveryService

/-- Every holder the token's configuration asks for, through the anchor, is on file. -/
def FullyDiscovered (svc : DiscoveryService) (chain : Set NormalizedLog) (token : TokenConfig)
    (anchorBlock : Nat) (w : DiscoveryStore) : Prop :=
  ∀ eventConfig ∈ token.discoveryEvents, ∃ event,
    svc.abiRegistry.validateHolderTopics eventConfig.abi eventConfig.event
      eventConfig.holderTopics = .ok event ∧
    ∀ l ∈ eventLogs chain token.address event.topic0, token.deploymentBlock ≤ l.blockNumber →
      l.blockNumber ≤ anchorBlock →
      w.HoldsAll svc.chainId token.address (originOf token eventConfig) l

theorem FullyDiscovered.mono {svc : DiscoveryService} {chain : Set NormalizedLog}
    {token : TokenConfig} {anchorBlock : Nat} {w w' : DiscoveryStore}
    (h : svc.FullyDiscovered chain token anchorBlock w) (hsub : w.holders ⊆ w'.holders) :
    svc.FullyDiscovered chain token anchorBlock w' := by
  intro eventConfig hmem
  obtain ⟨event, hevent, hholds⟩ := h eventConfig hmem
  exact ⟨event, hevent, fun l hl hlo hhi => (hholds l hl hlo hhi).mono hsub⟩

/-- The completed ranges in the way of the events were scanned for all that the events need. -/
def Serviceable (svc : DiscoveryService) (token : TokenConfig) (anchorBlock : Nat)
    (events : List EventConfig) (w : DiscoveryStore) : Prop :=
  ∀ eventConfig ∈ events, ∀ event, svc.abiRegistry.validateHolderTopics eventConfig.abi
      eventConfig.event eventConfig.holderTopics = .ok event →
    ∀ x ∈ w.completedRows svc.chainId token.address event.topic0,
      (∃ block, x.1.Contains block ∧ token.deploymentBlock ≤ block ∧ block ≤ anchorBlock) →
      x.2.Covers (originOf token eventConfig)

/-- The entry asks for all positions that a later entry of its topic asks for. -/
def Nested (svc : DiscoveryService) (eventConfig : EventConfig) (rest : List EventConfig) : Prop :=
  ∀ later ∈ rest, ∀ first second,
    svc.abiRegistry.validateHolderTopics eventConfig.abi eventConfig.event
      eventConfig.holderTopics = .ok first →
    svc.abiRegistry.validateHolderTopics later.abi later.event later.holderTopics = .ok second →
    first.topic0 = second.topic0 → later.holderTopics ⊆ eventConfig.holderTopics

/-- An entry is scanned where it is the first of its topic and misses a block; it asks for all positions
of the later ones. -/
def EntriesNested (svc : DiscoveryService) (token : TokenConfig) (anchorBlock : Nat)
    (w : DiscoveryStore) : Prop :=
  ∀ before eventConfig rest, token.discoveryEvents = before ++ eventConfig :: rest →
    ∀ event, svc.abiRegistry.validateHolderTopics eventConfig.abi eventConfig.event
      eventConfig.holderTopics = .ok event →
    (∀ earlier ∈ before, ∀ first, svc.abiRegistry.validateHolderTopics earlier.abi earlier.event
      earlier.holderTopics = .ok first → first.topic0 ≠ event.topic0) →
    (∃ block, token.deploymentBlock ≤ block ∧ block ≤ anchorBlock ∧
      ¬ w.Shows svc.chainId token.address event.topic0 block) →
    svc.Nested eventConfig rest

/-- A gap scan of an entry leaves later entries serviceable. -/
theorem Serviceable.gapEffect {svc : DiscoveryService} {chain : Set NormalizedLog}
    {token : TokenConfig} {anchorBlock : Nat} {required : BlockRange} {eventConfig : EventConfig}
    {rest : List EventConfig} {g : GapScan} {w w' : DiscoveryStore}
    (hnested : svc.Nested eventConfig rest)
    (hof : svc.GapOf token required eventConfig g)
    (h : svc.Serviceable token anchorBlock rest w) (heffect : svc.GapEffect g chain w w') :
    svc.Serviceable token anchorBlock rest w' := by
  intro later hlater second hsecond x hx hmeets
  cases heffect with
  | none => exact h later hlater second hsecond x hx hmeets
  | failed hfailed hnonempty =>
    rcases DiscoveryStore.mem_completedRows_addRanges hx with hold | ⟨hnew, -⟩
    · exact h later hlater second hsecond x hold hmeets
    · obtain ⟨-, -, -, -, hstatus⟩ := DiscoveryStore.mem_completedRows hx
      rw [List.mem_singleton.mp hnew, hfailed] at hstatus
      simp at hstatus
  | observed hrows => exact h later hlater second hsecond x hx hmeets
  | completed hrows =>
    rcases DiscoveryStore.mem_completedRows_addRanges hx with hold | ⟨hnew, horigin⟩
    · exact h later hlater second hsecond x hold hmeets
    · -- a new row comes from the entry just scanned, which asks for at least as much
      obtain ⟨first, hfirst, htopic⟩ := hof.topic0_eq
      obtain ⟨-, -, hrow, -⟩ := hrows.ranges_cols _ hnew
      obtain ⟨-, -, -, hsame, -⟩ := DiscoveryStore.mem_completedRows hx
      have hsub := hnested later hlater first second hfirst hsecond
        (by rw [← htopic, ← hrow, hsame])
      rw [horigin, hof.origin_eq]
      exact ⟨hsub, fun hz => hz⟩

/-- What an entry needs is on file, and the store shows its blocks. -/
def EntryDone (svc : DiscoveryService) (chain : Set NormalizedLog) (token : TokenConfig)
    (anchorBlock : Nat) (w : DiscoveryStore) (eventConfig : EventConfig) : Prop :=
  ∃ event, svc.abiRegistry.validateHolderTopics eventConfig.abi eventConfig.event
      eventConfig.holderTopics = .ok event ∧
    (∀ block, token.deploymentBlock ≤ block → block ≤ anchorBlock →
      w.Shows svc.chainId token.address event.topic0 block) ∧
    ∀ l ∈ eventLogs chain token.address event.topic0, token.deploymentBlock ≤ l.blockNumber →
      l.blockNumber ≤ anchorBlock →
      w.HoldsAll svc.chainId token.address (originOf token eventConfig) l

theorem EntryDone.mono {svc : DiscoveryService} {chain : Set NormalizedLog} {token : TokenConfig}
    {anchorBlock : Nat} {w w' : DiscoveryStore} {eventConfig : EventConfig}
    (h : svc.EntryDone chain token anchorBlock w eventConfig) (hshown : w.ShownIn w')
    (hsub : w.holders ⊆ w'.holders) : svc.EntryDone chain token anchorBlock w' eventConfig := by
  obtain ⟨event, hevent, hshows, hholds⟩ := h
  exact ⟨event, hevent, fun block hlo hhi => hshown _ _ _ _ (hshows block hlo hhi),
    fun l hl hlo hhi => (hholds l hl hlo hhi).mono hsub⟩

/-- An entry that is scanned after others were done is nested: its topic is new, and the store misses a
block of it from the start. -/
theorem EntriesNested.of_scans {svc : DiscoveryService} {chain : Set NormalizedLog}
    {token : TokenConfig} {anchorBlock : Nat} {required : BlockRange} {w w₁ : DiscoveryStore}
    (h : svc.EntriesNested token anchorBlock w)
    (hrequired : ∀ block, required.Contains block →
      token.deploymentBlock ≤ block ∧ block ≤ anchorBlock)
    {done rest : List EventConfig} {eventConfig : EventConfig}
    (hevents : token.discoveryEvents = done ++ eventConfig :: rest) (hshown : w.ShownIn w₁)
    (hdone : ∀ earlier ∈ done, svc.EntryDone chain token anchorBlock w₁ earlier)
    (hscans : svc.Scans token required eventConfig w₁) : svc.Nested eventConfig rest := by
  obtain ⟨event, hevent, block, hblock, hmissing⟩ := hscans
  obtain ⟨hlo, hhi⟩ := hrequired block hblock
  refine h done eventConfig rest hevents event hevent ?_
    ⟨block, hlo, hhi, fun hshows => hmissing (hshown _ _ _ _ hshows)⟩
  intro earlier hearlier first hfirst htopic
  obtain ⟨event', hevent', hshows, -⟩ := hdone earlier hearlier
  obtain rfl := Except.ok.inj (hevent'.symm.trans hfirst)
  exact hmissing (htopic ▸ hshows block hlo hhi)

/-- Where every range that an event skips was scanned for what it needs, `advance` returns with each
entry done. -/
theorem safe_advance_serviceable {svc : DiscoveryService} {chains : Nat → Set NormalizedLog}
    {token : TokenConfig} {anchorBlock : Nat} (anchorHash : String) {w : DiscoveryStore}
    (hbacked : w.Backed chains)
    (hservice : svc.Serviceable token anchorBlock token.discoveryEvents w)
    (hnested : svc.EntriesNested token anchorBlock w) :
    Safe (discoveryEnv svc (chains svc.chainId)) (fun _ => True)
      (fun r w' => match r with
        | .ok _ => ∀ eventConfig ∈ token.discoveryEvents,
          svc.EntryDone (chains svc.chainId) token anchorBlock w' eventConfig
        | .error _ => True) (svc.advance token anchorBlock anchorHash) w := by
  unfold advance BlockRange.make
  split
  · rename_i h
    change Safe _ _ _ (token.discoveryEvents.forM (svc.advanceEvent token
      ⟨token.deploymentBlock, anchorBlock + 1, h⟩ anchorBlock anchorHash)) w
    refine safe_forM (fun remaining w₁ => w₁.Backed chains ∧ w.ShownIn w₁ ∧ ∃ done,
      token.discoveryEvents = done ++ remaining ∧ svc.Serviceable token anchorBlock remaining w₁ ∧
      ∀ eventConfig ∈ done, svc.EntryDone (chains svc.chainId) token anchorBlock w₁ eventConfig)
      ⟨hbacked, .refl w, [], rfl, hservice, by simp⟩ ?_ ?_
    · rintro w' ⟨-, -, done, hdone, -, hentries⟩
      rw [List.append_nil] at hdone
      exact fun eventConfig hmem => hentries eventConfig (hdone ▸ hmem)
    · rintro eventConfig rest w₁ ⟨hback, hshown, done, hdone, hserve, hentries⟩
      -- scans of this entry keep the invariant, the later entries serviceable, and every holder
      have hkept : svc.Scans token ⟨token.deploymentBlock, anchorBlock + 1, h⟩ eventConfig w₁ →
          KeptByScans svc (chains svc.chainId) token
            ⟨token.deploymentBlock, anchorBlock + 1, h⟩ eventConfig fun w =>
              w.Backed chains ∧ svc.Serviceable token anchorBlock rest w ∧
                w₁.holders ⊆ w.holders := by
        intro hscans
        have hrest := hnested.of_scans (fun block hblock => ⟨hblock.1, Nat.le_of_lt_succ hblock.2⟩)
          hdone hshown hentries hscans
        rintro g w w' hof ⟨hw, hs, hsub⟩ heffect
        exact ⟨hw.gapEffect hof heffect, hs.gapEffect hrest hof heffect,
          fun x hx => heffect.holders_subset (hsub hx)⟩
      have hstart : w₁.Backed chains ∧ svc.Serviceable token anchorBlock rest w₁ ∧
          w₁.holders ⊆ w₁.holders :=
        ⟨hback, fun later hlater => hserve later (List.mem_cons_of_mem _ hlater), fun _ hx => hx⟩
      refine (safe_advanceEvent anchorBlock anchorHash hkept hstart).mono
        (fun _ _ => trivial) ?_
      rintro (e | a) w' hw'
      · trivial
      · obtain ⟨⟨hback', hserve', hsub⟩, hshown', event, hevent, hblocks⟩ := hw'
        refine ⟨hback', hshown.trans hshown', done ++ [eventConfig], by simp [hdone], hserve', ?_⟩
        intro other hother
        rcases List.mem_append.mp hother with hother | hother
        · exact (hentries other hother).mono hshown' hsub
        · obtain rfl := List.mem_singleton.mp hother
          refine ⟨event, hevent, fun block hlo hhi => (hblocks block ⟨hlo, by simp only; omega⟩).2,
            fun l hl hlo hhi => ?_⟩
          rcases (hblocks l.blockNumber ⟨hlo, by simp only; omega⟩).1 with
            ⟨⟨row, origin⟩, hx, hin⟩ | ⟨row, hrow, hstatus, hchain, htoken, htopic, hin⟩
          · -- skipped: the range on file was scanned for at least these positions
            have hcovers := hserve other (List.mem_cons_self ..) event hevent _ hx
              ⟨l.blockNumber, hin, hlo, hhi⟩
            obtain ⟨hmem, hchain, htoken, htopic, hstatus⟩ := DiscoveryStore.mem_completedRows hx
            simp only at hchain htoken htopic hstatus hin hcovers
            have := hback row origin hmem hstatus l (by rwa [hchain, htoken, htopic]) hin
            rw [hchain, htoken] at this
            exact (this.of_covers hcovers).mono hsub
          · have := hback' row _ hrow hstatus l (by rwa [hchain, htoken, htopic]) hin
            rwa [hchain, htoken] at this
  · trivial

end DiscoveryService

/-- In every history of `advance` calls: a call that returns leaves all configured holders on file,
there and in every later state, provided the completed ranges it finds were scanned for the
positions and the zero address it needs and an entry that is scanned asks for all positions of the later
entries of its topic. -/
theorem advance_fullyDiscovered {chains : Nat → Set NormalizedLog} {w w' later : DiscoveryStore}
    (hw : DiscoveryReachable chains w) {svc : DiscoveryService} {token : TokenConfig}
    {anchorBlock : Nat} {anchorHash : String}
    (hservice : svc.Serviceable token anchorBlock token.discoveryEvents w)
    (hnested : svc.EntriesNested token anchorBlock w)
    (hrun : Reaches (discoveryEnv svc (chains svc.chainId))
      (svc.advance token anchorBlock anchorHash, w) (.ret (), w'))
    (hlater : DiscoveryRun chains w' later) :
    svc.FullyDiscovered (chains svc.chainId) token anchorBlock later := by
  have hdone := (DiscoveryService.safe_advance_serviceable anchorHash hw.backed hservice
    hnested).returns trivial hrun
  have hfull : svc.FullyDiscovered (chains svc.chainId) token anchorBlock w' := by
    intro eventConfig hmem
    obtain ⟨event, hevent, -, hholds⟩ := hdone eventConfig hmem
    exact ⟨event, hevent, hholds⟩
  exact hfull.mono hlater.holders_subset

def transferDefinition : EventDefinition :=
  ⟨"erc20", "Transfer", sampleWord 'f', ["address", "address"]⟩

theorem toSide_event : sampleService.abiRegistry.validateHolderTopics toSide.abi toSide.event
    toSide.holderTopics = .ok transferDefinition := rfl

/-- Both sides are scanned through block 11, and then an entry for the receivers is added: the next
advance scans the blocks that are missing for the first entry, and skips the second one. -/
theorem advance_fullyDiscovered_sample : ∃ w w',
    DiscoveryReachable (fun _ => {l | l ∈ [sampleLog]}) w ∧
      w.Shows 100 sampleAddress (sampleWord 'f') 11 ∧ ¬ w.Shows 100 sampleAddress (sampleWord 'f') 12 ∧
      sampleService.FullyDiscovered {l | l ∈ [sampleLog]} (sampleToken [bothSides, toSide]) 13 w' ∧
      w'.HasHolder 100 sampleAddress (sampleHolder 'b') 11 := by
  obtain ⟨w, hfirst, hok⟩ := sample_advance bothSides_ready (by decide : 10 ≤ 11) rangesOk_empty
  obtain ⟨hscanned, -⟩ := bothSides_onFile (by decide) hfirst
  have hbefore : DiscoveryReachable (fun _ => {l | l ∈ [sampleLog]}) w :=
    .advance sampleService (sampleToken [bothSides]) 11 "" .refl hfirst
  have hshows : w.Shows 100 sampleAddress (sampleWord 'f') 11 := by
    have hempty : DiscoveryReachable (fun _ => {l | l ∈ [sampleLog]}) .empty := .refl
    have hready : sampleService.Serviceable (sampleToken [bothSides]) 11 [bothSides] .empty := by
      intro _ _ _ _ x hx
      simp [DiscoveryStore.completedRows, DiscoveryStore.empty, final] at hx
    have hnested : sampleService.EntriesNested (sampleToken [bothSides]) 11 .empty := by
      intro before eventConfig rest hevents _ _ _ _ later hlater
      have hlength := congrArg List.length hevents
      rw [List.length_append, List.length_cons] at hlength
      exact absurd (List.length_pos_of_mem hlater) (by simp [sampleToken] at hlength; omega)
    obtain ⟨event, hevent, hblocks, -⟩ := (DiscoveryService.safe_advance_serviceable
      "" hempty.backed hready hnested).returns trivial hfirst bothSides (List.mem_singleton.mpr rfl)
    obtain rfl := Except.ok.inj (bothSides_event.symm.trans hevent)
    exact hblocks 11 (by decide) le_rfl
  have hmissing : ¬ w.Shows 100 sampleAddress (sampleWord 'f') 12 := by
    rintro ⟨x, hx, hin⟩
    obtain ⟨hmem, -, -, -, hstatus⟩ := DiscoveryStore.mem_completedRows hx
    exact absurd ((hscanned x hmem).2 hstatus 12 hin) (by decide)
  have hevents : ∀ e ∈ [bothSides, toSide], (∃ event, sampleRegistry.validateHolderTopics e.abi
      e.event e.holderTopics = .ok event) ∧ NamesHolders [sampleLog] e.holderTopics := by
    intro e he
    rcases List.mem_pair.mp he with rfl | rfl
    · exact bothSides_ready bothSides (List.mem_singleton.mpr rfl)
    · exact ⟨⟨_, toSide_event⟩, sample_namesHolders (by decide)⟩
  obtain ⟨w', hsecond, -⟩ := sample_advance hevents (by decide : 10 ≤ 13) hok
  have hservice : sampleService.Serviceable (sampleToken [bothSides, toSide]) 13 [bothSides, toSide]
      w := by
    intro eventConfig hmem event _ x hx _
    rw [(hscanned x (DiscoveryStore.mem_completedRows hx).1).1]
    rcases List.mem_pair.mp hmem with rfl | rfl
    · exact ⟨fun _ h => h, fun h => h⟩
    · exact ⟨by decide, fun h => h⟩
  have hnested : sampleService.EntriesNested (sampleToken [bothSides, toSide]) 13 w := by
    intro before eventConfig rest hsplit _ _ _ _ later hlater _ _ _ _ _
    rcases before with - | ⟨first, - | ⟨second, before⟩⟩
    · obtain ⟨rfl, rfl⟩ := List.cons.inj hsplit
      obtain rfl := List.mem_singleton.mp hlater
      decide
    · obtain ⟨-, hsplit⟩ := List.cons.inj hsplit
      obtain ⟨-, rfl⟩ := List.cons.inj hsplit
      exact absurd hlater List.not_mem_nil
    · simp [sampleToken] at hsplit
  have hfull := advance_fullyDiscovered hbefore hservice hnested hsecond .refl
  refine ⟨w, w', hbefore, hshows, hmissing, hfull, ?_⟩
  obtain ⟨event, hevent, hholds⟩ := hfull toSide (by simp [sampleToken])
  obtain rfl := Except.ok.inj (toSide_event.symm.trans hevent)
  obtain ⟨holder, hholder, hzero | hon⟩ :=
    hholds sampleLog sampleLog_mem (by decide) (by decide) 2 (by decide)
  · rw [sampleLog_holderAt.2, Except.ok.injEq] at hholder
    rw [← hholder] at hzero
    exact absurd hzero.1 (by decide)
  · rwa [← Except.ok.inj (sampleLog_holderAt.2.symm.trans hholder)] at hon

/-! ## Two entries of one event -/

/-- The stores left by earlier advances of a token that returned, under any configuration. -/
inductive AdvancedBefore (chains : Nat → Set NormalizedLog) (svc : DiscoveryService)
    (address : String) : DiscoveryStore → Prop
  | empty : AdvancedBefore chains svc address .empty
  | advance (token : TokenConfig) (haddress : token.address = address) (anchorBlock : Nat)
    (anchorHash : String) {w w' : DiscoveryStore} (hw : AdvancedBefore chains svc address w)
    (hrun : Reaches (discoveryEnv svc (chains svc.chainId))
      (svc.advance token anchorBlock anchorHash, w) (.ret (), w')) :
    AdvancedBefore chains svc address w'

theorem fromSide_event : sampleService.abiRegistry.validateHolderTopics fromSide.abi fromSide.event
    fromSide.holderTopics = .ok transferDefinition := rfl

def twoSided : TokenConfig := sampleToken [fromSide, toSide]

def twoSidedRange : BlockRange := ⟨10, 14, sampleRange_nonempty⟩

/-- Only the sender's side of the sample log. -/
def SendersOnly (w : DiscoveryStore) : Prop :=
  ∀ row ∈ w.holders, row.holderAddress = sampleHolder 'a'

theorem SendersOnly.gapDone {g : GapScan} {w w' : DiscoveryStore}
    (hof : sampleService.GapOf twoSided twoSidedRange fromSide g) (h : SendersOnly w)
    (hdone : sampleService.GapDone g {l | l ∈ [sampleLog]} w w') : SendersOnly w' := by
  obtain ⟨holders, ranges, hrows, rfl⟩ := hdone
  intro row hrow
  rcases DiscoveryStore.mem_addHolders.mp hrow with hrow | hrow
  · exact h row hrow
  · obtain ⟨-, -, -, -, -, l, hl, -, -, position, hposition, hok⟩ := hrows.sound row hrow
    obtain rfl : l = sampleLog := List.mem_singleton.mp hl.1
    rw [hof.origin_eq] at hposition
    obtain rfl : position = 1 := List.mem_singleton.mp hposition
    rw [sampleLog_holderAt.1, Except.ok.injEq] at hok
    exact hok.symm

theorem sendersOnly_empty : SendersOnly .empty := by simp [SendersOnly, DiscoveryStore.empty]

/-- The first entry leaves the whole range on file. -/
theorem exec_fromSide : ∃ w, exec (honestDiscovery 2 [sampleLog])
      (sampleService.advanceEvent twoSided twoSidedRange 13 "" fromSide) .empty = (.ok (), w) ∧
    DiscoveryService.RangesOk w ∧ SendersOnly w ∧ ∀ block, twoSidedRange.Contains block →
      w.Shows sampleService.chainId twoSided.address transferDefinition.topic0 block := by
  obtain ⟨w, hexec, hok, hsenders⟩ := DiscoveryService.exec_advanceEvent (I := SendersOnly)
    sample_serves fromSide_event (sample_namesHolders (by decide)) twoSidedRange 13 ""
    (fun _ _ _ hof hw hdone => hw.gapDone hof hdone) rangesOk_empty sendersOnly_empty
  refine ⟨w, hexec, hok, hsenders, fun block hblock => ?_⟩
  have hreach := reaches_exec (honestDiscovery_allowed sampleService 2 sample_serves.canonical)
    (sampleService.advanceEvent twoSided twoSidedRange 13 "" fromSide) .empty
  rw [hexec] at hreach
  obtain ⟨-, -, event, hevent, hblocks⟩ := (DiscoveryService.safe_advanceEvent (K := fun _ => True) 13
    "" (fun _ _ _ _ _ _ _ => trivial) trivial).returns trivial hreach
  rw [fromSide_event, Except.ok.injEq] at hevent
  subst hevent
  exact (hblocks block hblock).2

theorem advance_twoSided : sampleService.advance twoSided 13 "" =
    [fromSide, toSide].forM (sampleService.advanceEvent twoSided twoSidedRange 13 "") :=
  DiscoveryService.advance_eq sampleService twoSided (by decide : 10 < 13 + 1) ""

/-- The second entry resolves to the topic of the first, finds its range covered, and is never
scanned: the receiver is not on file. -/
theorem exec_twoSided : ∃ w, exec (honestDiscovery 2 [sampleLog])
    (sampleService.advance twoSided 13 "") .empty = (.ok (), w) ∧ SendersOnly w := by
  obtain ⟨w, hfirst, hok, hsenders, hcovered⟩ := exec_fromSide
  have hsecond : exec (honestDiscovery 2 [sampleLog])
      (sampleService.advanceEvent twoSided twoSidedRange 13 "" toSide) w = (.ok (), w) :=
    DiscoveryService.exec_advanceEvent_covered toSide_event 13 "" hok hcovered
  refine ⟨w, ?_, hsenders⟩
  rw [advance_twoSided, exec_forM_cons hfirst, exec_forM_cons hsecond, exec_forM_nil]

/-- A returned advance need not have all configured holders on file: two entries of one event with
different positions. -/
theorem advance_misses_holder : ¬ ∀ (chains : Nat → Set NormalizedLog) (svc : DiscoveryService)
    (token : TokenConfig) (anchorBlock : Nat) (anchorHash : String) (w w' : DiscoveryStore),
    AdvancedBefore chains svc token.address w →
    Reaches (discoveryEnv svc (chains svc.chainId))
      (svc.advance token anchorBlock anchorHash, w) (.ret (), w') →
    svc.FullyDiscovered (chains svc.chainId) token anchorBlock w' := by
  intro hclaim
  obtain ⟨w, hexec, hholders⟩ := exec_twoSided
  have hreach := reaches_exec (honestDiscovery_allowed sampleService 2 sample_serves.canonical)
    (sampleService.advance twoSided 13 "") .empty
  rw [hexec] at hreach
  obtain ⟨event, hevent, hholds⟩ := hclaim (fun _ => {l | l ∈ [sampleLog]}) sampleService twoSided
    13 "" .empty w .empty hreach toSide (by simp [twoSided, sampleToken])
  rw [toSide_event, Except.ok.injEq] at hevent
  subst hevent
  obtain ⟨holder, hok, hzero | hon⟩ :=
    hholds sampleLog sampleLog_mem (by decide) (by decide) 2 (by decide)
  · rw [sampleLog_holderAt.2, Except.ok.injEq] at hok
    rw [← hok] at hzero
    exact absurd hzero.1 (by decide)
  · rw [← Except.ok.inj (sampleLog_holderAt.2.symm.trans hok)] at hon
    obtain ⟨row, hrow, -, -, haddress, -⟩ := DiscoveryStore.hasHolder_iff.mp hon
    rw [hholders row hrow] at haddress
    exact absurd haddress (by decide)

end RpcStateIndexer
