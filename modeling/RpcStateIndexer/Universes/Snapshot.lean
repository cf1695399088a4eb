import RpcStateIndexer.Discovery.Reconfiguration
import RpcStateIndexer.Universes.HolderTable
import RpcStateIndexer.Universes.Resolution

/-!
# The holders of a ledger at an anchor

While a ledger is scanned under one configuration, whose entries resolve to distinct topics, its rows of
`holder_universe` by an anchor are those the chain names, once an advance through the anchor has
returned.  They do not change after that, so a universe that reads only such ledgers is frozen.
-/

namespace RpcStateIndexer

open Reasoning Program

/-- The label of the rows that the scan of an event writes. -/
def scanLabel (eventName : String) : String :=
  if eventName = "" then "own_scan" else "own_scan" ++ ":" ++ eventName

/-- On the chain, a log of a configured event names the holder, from the deployment to the anchor. -/
def HolderOnChain (svc : DiscoveryService) (chain : Set NormalizedLog) (token : TokenConfig)
    (anchorBlock : Nat) (holder label : String) : Prop :=
  ∃ eventConfig ∈ token.discoveryEvents, label = scanLabel eventConfig.event ∧ ∃ event,
    svc.abiRegistry.validateHolderTopics eventConfig.abi eventConfig.event eventConfig.holderTopics =
      .ok event ∧
    (token.includeZero = true ∨ holder ≠ zeroAddress) ∧
    ∃ l ∈ eventLogs chain token.address event.topic0, token.deploymentBlock ≤ l.blockNumber ∧
      l.blockNumber ≤ anchorBlock ∧
      ∃ position ∈ eventConfig.holderTopics, l.holderAt position = .ok holder

/-- Two entries of the token never resolve to one topic. -/
def DistinctTopics (svc : DiscoveryService) (token : TokenConfig) : Prop :=
  ∀ entry ∈ token.discoveryEvents, ∀ other ∈ token.discoveryEvents, ∀ first second,
    svc.abiRegistry.validateHolderTopics entry.abi entry.event entry.holderTopics = .ok first →
    svc.abiRegistry.validateHolderTopics other.abi other.event other.holderTopics = .ok second →
    first.topic0 = second.topic0 → entry = other

/-- The stores reached by `advance` calls of any services and tokens that scan the ledger of the token
under its present configuration; each call may stop at any operation. -/
inductive ConfiguredRun (chains : Nat → Set NormalizedLog) (svc : DiscoveryService) (token : TokenConfig)
    (w₀ : DiscoveryStore) : DiscoveryStore → Prop
  | refl : ConfiguredRun chains svc token w₀ w₀
  | advance (other : DiscoveryService) (otherToken : TokenConfig) (anchorBlock : Nat)
    (anchorHash : String) {w w' : DiscoveryStore} {p : DiscoveryProgram Unit}
    (hw : ConfiguredRun chains svc token w₀ w)
    (hconfig : other.chainId = svc.chainId → otherToken.address = token.address →
      other.abiRegistry = svc.abiRegistry ∧ otherToken = token)
    (hrun : Reaches (discoveryEnv other (chains other.chainId))
      (other.advance otherToken anchorBlock anchorHash, w) (p, w')) :
    ConfiguredRun chains svc token w₀ w'

section Ledger

variable {chains : Nat → Set NormalizedLog} {svc : DiscoveryService} {token : TokenConfig}
  {w₀ w w' : DiscoveryStore}

namespace DiscoveryStore

/-- Each row of the ledger was seen on the chain, in the block where it opens. -/
def LedgerSound (chains : Nat → Set NormalizedLog) (svc : DiscoveryService) (token : TokenConfig)
    (w : DiscoveryStore) : Prop :=
  ∀ row ∈ w.holders, row.chainId = svc.chainId → row.tokenAddress = token.address →
    HolderOnChain svc (chains svc.chainId) token row.firstSeenBlock row.holderAddress row.label

/-- The holders that a completed range of an event names are on file under the label of the event. -/
def LedgerBacked (chains : Nat → Set NormalizedLog) (svc : DiscoveryService) (token : TokenConfig)
    (w : DiscoveryStore) : Prop :=
  ∀ eventConfig ∈ token.discoveryEvents, ∀ event,
    svc.abiRegistry.validateHolderTopics eventConfig.abi eventConfig.event eventConfig.holderTopics =
      .ok event →
    ∀ row origin, (row, origin) ∈ w.ranges → row.status = .completed → row.chainId = svc.chainId →
      row.tokenAddress = token.address → row.topic0 = event.topic0 →
      ∀ l ∈ eventLogs (chains svc.chainId) token.address event.topic0, row.Contains l.blockNumber →
        ∀ position ∈ eventConfig.holderTopics, ∃ holder, l.holderAt position = .ok holder ∧
          (holder = zeroAddress ∧ token.includeZero = false ∨
            w.Seen svc.chainId token.address l.blockNumber holder (scanLabel eventConfig.event))

theorem Seen.mono {chainId anchorBlock : Nat} {tokenAddress holder label : String}
    (h : w.Seen chainId tokenAddress anchorBlock holder label) (hsub : w.holders ⊆ w'.holders) :
    w'.Seen chainId tokenAddress anchorBlock holder label := by
  obtain ⟨row, hrow, hcols⟩ := h
  exact ⟨row, hsub hrow, hcols⟩

theorem LedgerBacked.mono (h : w.LedgerBacked chains svc token) (hsub : w.holders ⊆ w'.holders)
    (hranges : ∀ row origin, (row, origin) ∈ w'.ranges → row.status = .completed →
      (row, origin) ∈ w.ranges) : w'.LedgerBacked chains svc token := by
  intro eventConfig hconfig event hevent row origin hrow hstatus hchain htoken htopic l hl hin position
    hposition
  obtain ⟨holder, hok, hzero | hseen⟩ := h eventConfig hconfig event hevent row origin
    (hranges row origin hrow hstatus) hstatus hchain htoken htopic l hl hin position hposition
  · exact ⟨holder, hok, .inl hzero⟩
  · exact ⟨holder, hok, .inr (hseen.mono hsub)⟩

end DiscoveryStore

namespace DiscoveryService

variable {other : DiscoveryService} {otherToken : TokenConfig} {eventConfig : EventConfig} {g : GapScan}
  {anchorBlock : Nat} {holders : List HolderRow} {ranges : List DiscoveryRangeRow}

/-- The scan is of the ledger, so it is one of the token's own. -/
theorem ownScan (hconfig : other.chainId = svc.chainId → otherToken.address = token.address →
      other.abiRegistry = svc.abiRegistry ∧ otherToken = token) {required : BlockRange}
    (hof : other.GapOf otherToken required eventConfig g) (hchain : other.chainId = svc.chainId)
    (htoken : g.tokenAddress = token.address) :
    otherToken = token ∧ g.origin = originOf token eventConfig ∧ ∃ event,
      svc.abiRegistry.validateHolderTopics eventConfig.abi eventConfig.event eventConfig.holderTopics =
        .ok event ∧ g.topic0 = event.topic0 ∧ g.topic0.toLower = event.topic0 := by
  obtain ⟨hregistry, rfl⟩ := hconfig hchain (hof.token_eq.symm.trans htoken)
  obtain ⟨event, hevent, htopic⟩ := hof.topic0_eq
  rw [hregistry] at hevent
  refine ⟨rfl, hof.origin_eq, event, hevent, htopic, ?_⟩
  rw [htopic]
  exact (AbiRegistry.topic0_ok hevent).2

/-- The rows that a scan extracts were seen on the chain. -/
theorem ledgerSound_addHolders
    (hconfig : other.chainId = svc.chainId → otherToken.address = token.address →
      other.abiRegistry = svc.abiRegistry ∧ otherToken = token)
    (hmem : eventConfig ∈ otherToken.discoveryEvents)
    {h : otherToken.deploymentBlock < anchorBlock + 1}
    (hof : other.GapOf otherToken ⟨otherToken.deploymentBlock, anchorBlock + 1, h⟩ eventConfig g)
    (hrows : Extracted other g (chains other.chainId) holders ranges)
    (hw : w.LedgerSound chains svc token) : (w.addHolders holders).LedgerSound chains svc token := by
  intro row hrow hchain htoken
  rcases DiscoveryStore.mem_addHolders.mp hrow with hrow | hrow
  · exact hw row hrow hchain htoken
  · obtain ⟨hown, hledger, hsource, hdetail, hzero, l, hl, hin, hseen, position, hposition, hholder⟩ :=
      hrows.sound row hrow
    obtain ⟨rfl, horigin, event, hevent, -, hlower⟩ :=
      ownScan hconfig hof (hown.symm.trans hchain) (hledger.symm.trans htoken)
    rw [horigin] at hdetail hzero hposition
    rw [hlower, hledger.symm.trans htoken, hown.symm.trans hchain] at hl
    have hlabel : row.label = scanLabel eventConfig.event := by
      unfold HolderRow.label scanLabel
      rw [hsource, hdetail]
      rfl
    exact ⟨eventConfig, hmem, hlabel, event, hevent, hzero, l, hl, (hof.inside _ hin).1, hseen.ge,
      position, hposition, hholder⟩

/-- A new completed range is backed by the rows that the same scan added. -/
theorem ledgerBacked_completed (hdistinct : DistinctTopics svc token)
    (hconfig : other.chainId = svc.chainId → otherToken.address = token.address →
      other.abiRegistry = svc.abiRegistry ∧ otherToken = token)
    (hmem : eventConfig ∈ otherToken.discoveryEvents) {required : BlockRange}
    (hof : other.GapOf otherToken required eventConfig g)
    (hrows : Extracted other g (chains other.chainId) holders ranges)
    (hw : w.LedgerBacked chains svc token) :
    ((w.addHolders holders).addRanges ranges g.origin).LedgerBacked chains svc token := by
  intro entry hentry event hevent row origin hrow hstatus hchain htoken htopic l hl hin position hposition
  rcases DiscoveryStore.mem_addRanges.mp hrow with hold | ⟨hnew, -⟩
  · obtain ⟨holder, hok, hzero | hseen⟩ := hw entry hentry event hevent row origin hold hstatus hchain
      htoken htopic l hl hin position hposition
    · exact ⟨holder, hok, .inl hzero⟩
    · exact ⟨holder, hok, .inr (hseen.mono fun _ h => DiscoveryStore.mem_addHolders.mpr (.inl h))⟩
  · -- the range comes from the entry just scanned, the only one of its topic
    obtain ⟨hown, hledger, hrowTopic, -⟩ := hrows.ranges_cols row hnew
    have hledgerEq := hledger.symm.trans htoken
    have hownEq := hown.symm.trans hchain
    obtain ⟨rfl, horigin, scanned, hscanned, hscannedTopic, hlower⟩ := ownScan hconfig hof hownEq hledgerEq
    have htopics : scanned.topic0 = event.topic0 := by
      rw [← hscannedTopic, ← hrowTopic, htopic]
    obtain rfl := hdistinct eventConfig hmem entry hentry scanned event hscanned hevent htopics
    have hgap : g.gap.Contains l.blockNumber := (hrows.ranges_cover _).mp ⟨row, hnew, hin⟩
    obtain ⟨holder, hok, hzero | ⟨seen, hseen, hholder, hle⟩⟩ := hrows.complete l
      (by rwa [hlower, hledgerEq, hownEq, htopics]) hgap position (by rwa [horigin])
    · rw [horigin] at hzero
      exact ⟨holder, hok, .inl hzero⟩
    · obtain ⟨hseenChain, hseenToken, hsource, hdetail, -⟩ := hrows.sound seen hseen
      have hlabel : seen.label = scanLabel eventConfig.event := by
        unfold HolderRow.label scanLabel
        rw [hsource, hdetail, horigin]
        rfl
      exact ⟨holder, hok, .inr ⟨seen, DiscoveryStore.mem_addHolders.mpr (.inr hseen),
        hseenChain.trans hownEq, hseenToken.trans hledgerEq, hholder, hlabel, hle⟩⟩

/-- One gap scan keeps the ledger sound and backed, wherever it stops. -/
theorem ledger_gapEffect (hdistinct : DistinctTopics svc token)
    (hconfig : other.chainId = svc.chainId → otherToken.address = token.address →
      other.abiRegistry = svc.abiRegistry ∧ otherToken = token)
    (hmem : eventConfig ∈ otherToken.discoveryEvents)
    {h : otherToken.deploymentBlock < anchorBlock + 1}
    (hof : other.GapOf otherToken ⟨otherToken.deploymentBlock, anchorBlock + 1, h⟩ eventConfig g)
    (hw : w.LedgerSound chains svc token ∧ w.LedgerBacked chains svc token)
    (heffect : other.GapEffect g (chains other.chainId) w w') :
    w'.LedgerSound chains svc token ∧ w'.LedgerBacked chains svc token := by
  have hgrow : ∀ rows, w.holders ⊆ (w.addHolders rows).holders := fun _ _ hrow =>
    DiscoveryStore.mem_addHolders.mpr (.inl hrow)
  cases heffect with
  | none => exact hw
  | @failed failedRow hfailed hnonempty =>
    refine ⟨hw.1, hw.2.mono (fun _ hrow => hrow) fun row origin hrow hstatus => ?_⟩
    rcases DiscoveryStore.mem_addRanges.mp hrow with hrow | ⟨hrow, -⟩
    · exact hrow
    · obtain rfl : row = failedRow := List.mem_singleton.mp hrow
      rw [hfailed] at hstatus
      cases hstatus
  | observed hrows =>
    exact ⟨ledgerSound_addHolders hconfig hmem hof hrows hw.1,
      hw.2.mono (hgrow _) fun row origin hrow _ => hrow⟩
  | completed hrows =>
    exact ⟨ledgerSound_addHolders hconfig hmem hof hrows hw.1,
      ledgerBacked_completed hdistinct hconfig hmem hof hrows hw.2⟩

end DiscoveryService

namespace ConfiguredRun

/-- A configured run is a run. -/
theorem toRun (h : ConfiguredRun chains svc token w₀ w) : DiscoveryRun chains w₀ w := by
  induction h with
  | refl => exact .refl
  | advance other otherToken anchorBlock anchorHash _ _ hrun ih => exact .advance _ _ _ _ ih hrun

theorem trans (h : ConfiguredRun chains svc token w₀ w) (h' : ConfiguredRun chains svc token w w') :
    ConfiguredRun chains svc token w₀ w' := by
  induction h' with
  | refl => exact h
  | advance other otherToken anchorBlock anchorHash _ hconfig hrun ih =>
    exact .advance _ _ _ _ ih hconfig hrun

/-- Along a configured run the ledger stays sound and backed. -/
theorem ledger (hdistinct : DistinctTopics svc token) (h : ConfiguredRun chains svc token .empty w) :
    w.LedgerSound chains svc token ∧ w.LedgerBacked chains svc token := by
  induction h with
  | refl => exact ⟨by simp [DiscoveryStore.LedgerSound, DiscoveryStore.empty],
      by simp [DiscoveryStore.LedgerBacked, DiscoveryStore.empty]⟩
  | advance other otherToken anchorBlock anchorHash _ hconfig hrun ih =>
    exact (DiscoveryService.safe_advance (K := fun w => w.LedgerSound chains svc token ∧
      w.LedgerBacked chains svc token) (fun _ _ hmem _ _ _ hof hw heffect =>
        DiscoveryService.ledger_gapEffect hdistinct hconfig hmem hof hw heffect) ih).crash ih hrun

end ConfiguredRun

/-- What a returned advance leaves on file: every required block is in a completed range of each event. -/
theorem onFile_of_advance {anchorBlock : Nat} {anchorHash : String}
    (hrun : Reaches (discoveryEnv svc (chains svc.chainId))
      (svc.advance token anchorBlock anchorHash, w) (.ret (), w')) :
    ∀ eventConfig ∈ token.discoveryEvents, ∀ block, token.deploymentBlock ≤ block → block ≤ anchorBlock →
      DiscoveryService.EventOnFile svc token eventConfig w' block :=
  ((DiscoveryService.safe_advance (K := fun _ => True) (fun _ _ _ _ _ _ _ _ _ => trivial)
    trivial).returns trivial hrun).2

/-- An advance of the ledger through the anchor has returned in the past of the store. -/
def Settled (chains : Nat → Set NormalizedLog) (svc : DiscoveryService) (token : TokenConfig)
    (anchorBlock : Nat) (w : DiscoveryStore) : Prop :=
  ∃ before after through anchorHash, ConfiguredRun chains svc token .empty before ∧
    Reaches (discoveryEnv svc (chains svc.chainId))
      (svc.advance token through anchorHash, before) (.ret (), after) ∧
    anchorBlock ≤ through ∧ ConfiguredRun chains svc token after w

/-- What is on file for a settled ledger is what the chain says. -/
theorem Settled.seen_iff {anchorBlock : Nat} (h : Settled chains svc token anchorBlock w)
    (hdistinct : DistinctTopics svc token) (holder label : String) :
    w.Seen svc.chainId token.address anchorBlock holder label ↔
      HolderOnChain svc (chains svc.chainId) token anchorBlock holder label := by
  obtain ⟨before, after, through, anchorHash, hbefore, hrun, hthrough, hafter⟩ := h
  have hreached := hbefore.advance svc token through anchorHash (fun _ _ => ⟨rfl, rfl⟩) hrun
  obtain ⟨-, hbacked⟩ := hreached.ledger hdistinct
  obtain ⟨hsound, -⟩ := (hreached.trans hafter).ledger hdistinct
  constructor
  · rintro ⟨row, hrow, hchain, htoken, rfl, rfl, hle⟩
    obtain ⟨eventConfig, hmem, hlabel, event, hevent, hzero, l, hl, hlo, hhi, hnames⟩ :=
      hsound row hrow hchain htoken
    exact ⟨eventConfig, hmem, hlabel, event, hevent, hzero, l, hl, hlo, hhi.trans hle, hnames⟩
  · rintro ⟨eventConfig, hmem, rfl, event, hevent, hzero, l, hl, hlo, hhi, position, hposition, hholder⟩
    obtain ⟨event', hevent', origin, row, hrow, hstatus, hchain, htoken, htopic, hin⟩ :=
      onFile_of_advance hrun eventConfig hmem l.blockNumber hlo (hhi.trans hthrough)
    obtain rfl := Except.ok.inj (hevent.symm.trans hevent')
    obtain ⟨holder', hok, hcase⟩ := hbacked eventConfig hmem event hevent row origin hrow hstatus hchain
      htoken htopic l hl hin position hposition
    obtain rfl := Except.ok.inj (hholder.symm.trans hok)
    rcases hcase with ⟨hzero', hexcluded⟩ | hseen
    · -- the zero address is among the holders only where the token includes it
      rw [hexcluded] at hzero
      simp [hzero'] at hzero
    · obtain ⟨row', hrow', hchain', htoken', hholder', hlabel', hle⟩ :=
        hseen.mono hafter.toRun.holders_subset
      exact ⟨row', hrow', hchain', htoken', hholder', hlabel', hle.trans hhi⟩

/-- The repository answers a settled ledger with exactly the holders that the chain names by the anchor,
in address order, each under the labels of the events that name it. -/
theorem holderMembers_settled {anchorBlock : Nat} (h : Settled chains svc token anchorBlock w)
    (hdistinct : DistinctTopics svc token) {ledger : String}
    (hledger : normalizeAddress ledger = .ok token.address) :
    ∃ members, w.holderMembers svc.chainId ledger anchorBlock = .ok members ∧
      FrozenAs (HolderOnChain svc (chains svc.chainId) token anchorBlock)
        (members.map fun member => (member.address, member.sources)) := by
  have hseen : w.Seen svc.chainId token.address anchorBlock =
      HolderOnChain svc (chains svc.chainId) token anchorBlock := by
    funext holder label
    exact propext (h.seen_iff hdistinct holder label)
  refine ⟨w.membersOfLedger svc.chainId token.address anchorBlock, ?_, ?_⟩
  · unfold DiscoveryStore.holderMembers
    rw [hledger]
    rfl
  · rw [← hseen]
    exact DiscoveryStore.frozenAs_membersOfLedger

end Ledger

/-! ## Universes over the table -/

/-- The sources of the resolver: the holder table, and the vendored lists. -/
def DiscoveryStore.sources (store : DiscoveryStore) (lists : String → Except String (List String)) :
    (op : UniverseOp) → UniverseAns op
  | .holderMembers chainId tokenAddress anchorBlock => store.holderMembers chainId tokenAddress anchorBlock
  | .explicitAddresses universeName => lists universeName

/-- What a resolution for the token and anchor may read. -/
def UniverseResolver.MayRead (self : UniverseResolver) (token : String) (anchorBlock : Nat) :
    UniverseOp → Prop
  | .holderMembers chainId ledger anchor =>
    chainId = self.chainId ∧ ledger ∈ self.ledgers token ∧ anchor = anchorBlock
  | .explicitAddresses _ => True

namespace UniverseResolver

variable {self : UniverseResolver} {token : String} {anchorBlock : Nat}

theorem asks_resolveMap (stack : List String) (name : String) :
    Asks (self.MayRead token anchorBlock) (self.resolveMap token anchorBlock stack name) := by
  refine descend_induction (P := fun _ (p : UniverseProgram SourceMap) =>
    Asks (self.MayRead token anchorBlock) p) ?_ ?_ ?_ stack name
  · exact fun _ _ => trivial
  · exact fun _ => trivial
  intro name selector g _ hchildren
  have hcompose : ∀ combine, Asks (self.MayRead token anchorBlock)
      (compose name selector (selector.of.map g) combine) := by
    intro combine
    refine .bind (.mapM fun p hp => ?_) fun _ => .bind (.ofExcept _) fun _ => trivial
    obtain ⟨child, hchild, rfl⟩ := List.mem_map.mp hp
    exact hchildren child hchild
  unfold visit
  cases selector.kind with
  | fullHolders =>
    refine .bind (.mapM fun ledger hledger => ⟨⟨rfl, hledger, rfl⟩, fun _ => .ofExcept _⟩) fun _ => ?_
    exact .bind (.ofExcept _) fun _ => trivial
  | explicitList => exact .bind ⟨trivial, fun _ => .ofExcept _⟩ fun _ => .ofExcept _
  | union => exact hcompose MultiMap.join
  | intersect => exact hcompose MultiMap.meet

end UniverseResolver

/-- Two stores that answer the ledgers of the token alike resolve each universe alike. -/
theorem resolve_congr {self : UniverseResolver} {w w' : DiscoveryStore} {tokenAddress token : String}
    {anchorBlock : Nat} (htoken : normalizeAddress tokenAddress = .ok token)
    (h : ∀ ledger ∈ self.ledgers token, w'.holderMembers self.chainId ledger anchorBlock =
      w.holderMembers self.chainId ledger anchorBlock)
    (lists : String → Except String (List String)) (name : String) :
    answeredBy (w'.sources lists) (self.resolve name tokenAddress anchorBlock) =
      answeredBy (w.sources lists) (self.resolve name tokenAddress anchorBlock) := by
  have hmap : answeredBy (w'.sources lists) (self.resolveMap token anchorBlock [] name) =
      answeredBy (w.sources lists) (self.resolveMap token anchorBlock [] name) := by
    refine Asks.answeredBy_congr (UniverseResolver.asks_resolveMap [] name) fun op hread => ?_
    cases op with
    | holderMembers chainId ledger anchor =>
      obtain ⟨rfl, hledger, rfl⟩ := hread
      exact h ledger hledger
    | explicitAddresses universeName => rfl
  rw [answeredBy_resolve htoken, answeredBy_resolve htoken, hmap]

/-- A universe whose ledgers are settled in two stores, of whatever histories, resolves to the same
members under the same hash in both, or to the same error. -/
theorem resolve_settled {chains : Nat → Set NormalizedLog} {self : UniverseResolver}
    {w w' : DiscoveryStore} {tokenAddress token : String} {anchorBlock : Nat}
    (htoken : normalizeAddress tokenAddress = .ok token)
    (hledgers : ∀ ledger ∈ self.ledgers token, ∃ svc config, svc.chainId = self.chainId ∧
      normalizeAddress ledger = .ok config.address ∧ DistinctTopics svc config ∧
      Settled chains svc config anchorBlock w ∧ Settled chains svc config anchorBlock w')
    (lists : String → Except String (List String)) (name : String) :
    answeredBy (w'.sources lists) (self.resolve name tokenAddress anchorBlock) =
      answeredBy (w.sources lists) (self.resolve name tokenAddress anchorBlock) := by
  refine resolve_congr htoken (fun ledger hledger => ?_) lists name
  obtain ⟨svc, config, hchain, hnormal, hdistinct, hw, hw'⟩ := hledgers ledger hledger
  unfold DiscoveryStore.holderMembers
  rw [hnormal, ← hchain]
  refine congrArg Except.ok (DiscoveryStore.membersOfLedger_eq fun holder label => ?_)
  rw [hw.seen_iff hdistinct, hw'.seen_iff hdistinct]

/-! ## The sample ledger -/

theorem bothSides_distinct : DistinctTopics sampleService (sampleToken [bothSides]) := by
  intro entry hentry other hother _ _ _ _ _
  exact (List.mem_singleton.mp hentry).trans (List.mem_singleton.mp hother).symm

/-- One advance of the sample token, through any block from 12 on. -/
theorem bothSides_settled {through : Nat} (h : 12 ≤ through) : ∃ w,
    Reaches (discoveryEnv sampleService {l | l ∈ [sampleLog]})
      (sampleService.advance (sampleToken [bothSides]) through "", .empty) (.ret (), w) ∧
    Settled (fun _ => {l | l ∈ [sampleLog]}) sampleService (sampleToken [bothSides]) 12 w := by
  have hdeployed : (sampleToken [bothSides]).deploymentBlock ≤ through := by
    change 10 ≤ through
    omega
  obtain ⟨w, hexec, -⟩ := DiscoveryService.exec_advance sampleService (sampleToken [bothSides])
    sample_serves hdeployed bothSides_ready "" rangesOk_empty
  have hreach := reaches_exec (honestDiscovery_allowed sampleService 2 sample_serves.canonical)
    (sampleService.advance (sampleToken [bothSides]) through "") .empty
  rw [hexec] at hreach
  exact ⟨w, hreach, .empty, w, through, "", .refl, hreach, h, .refl⟩

theorem normalize_sampleAddress : normalizeAddress sampleAddress = .ok sampleAddress :=
  normalizeAddress_hexText (by decide) (by decide)

/-- The scan through block 12 and the one through block 13 leave different ranges and one universe. -/
theorem resolve_settled_sample : ∃ w w' : DiscoveryStore,
    Reaches (discoveryEnv sampleService {l | l ∈ [sampleLog]})
      (sampleService.advance (sampleToken [bothSides]) 12 "", .empty) (.ret (), w) ∧
    Reaches (discoveryEnv sampleService {l | l ∈ [sampleLog]})
      (sampleService.advance (sampleToken [bothSides]) 13 "", .empty) (.ret (), w') ∧
    answeredBy (w'.sources fun _ => .ok [])
        ((treasuryResolver treasuryUniverses).resolve "treasury" sampleAddress 12) =
      answeredBy (w.sources fun _ => .ok [])
        ((treasuryResolver treasuryUniverses).resolve "treasury" sampleAddress 12) := by
  obtain ⟨w, hreach, hw⟩ := bothSides_settled (by decide : 12 ≤ 12)
  obtain ⟨w', hreach', hw'⟩ := bothSides_settled (by decide : 12 ≤ 13)
  have hledgers : ∀ ledger ∈ (treasuryResolver treasuryUniverses).ledgers sampleAddress,
      ∃ svc config, svc.chainId = 100 ∧ normalizeAddress ledger = .ok config.address ∧
        DistinctTopics svc config ∧ Settled (fun _ => {l | l ∈ [sampleLog]}) svc config 12 w ∧
        Settled (fun _ => {l | l ∈ [sampleLog]}) svc config 12 w' := by
    intro ledger hledger
    obtain rfl : ledger = sampleAddress := List.mem_singleton.mp hledger
    exact ⟨sampleService, sampleToken [bothSides], rfl, normalize_sampleAddress, bothSides_distinct, hw, hw'⟩
  exact ⟨w, w', hreach, hreach', resolve_settled normalize_sampleAddress hledgers _ _⟩

end RpcStateIndexer
