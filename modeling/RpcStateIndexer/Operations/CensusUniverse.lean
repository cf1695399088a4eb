import RpcStateIndexer.Operations.CensusCallCorrect
import RpcStateIndexer.Operations.CensusDiscovery
import RpcStateIndexer.Reasoning.Strict

/-!
# What the attempts of a call measure

A target reads the sources of its universe while others run, and a read may fail.  The resolver raises a
read that failed, so an attempt starts only with the universe that the discovery tables and the vendored
lists determine, and these tables are as the prologue of the call left them.
-/

namespace RpcStateIndexer

open Reasoning Program

/-! ## Reads that fail -/

/-- A source could not be read. -/
def UniverseOp.Failed : (op : UniverseOp) → UniverseAns op → Prop
  | .holderMembers .., answer => ∃ message, answer = .error message
  | .explicitAddresses _, answer => ∃ message, answer = .error message

namespace UniverseResolver

theorem strict_holderMembers (chainId : Nat) (ledger : String) (anchorBlock : Nat) :
    Strict UniverseOp.Failed (holderMembers chainId ledger anchorBlock) := by
  refine fun answer => ⟨?_, .ofExcept _⟩
  rintro ⟨message, rfl⟩
  exact ⟨.source message, rfl⟩

theorem strict_loadExplicit (universeName : String) :
    Strict UniverseOp.Failed (loadExplicit universeName) := by
  refine fun answer => ⟨?_, .ofExcept _⟩
  rintro ⟨message, rfl⟩
  exact ⟨.source message, rfl⟩

theorem strict_resolveMap (self : UniverseResolver) (token : String) (anchorBlock : Nat)
    (stack : List String) (name : String) :
    Strict UniverseOp.Failed (self.resolveMap token anchorBlock stack name) := by
  refine descend_induction (P := fun _ (p : UniverseProgram SourceMap) =>
    Strict UniverseOp.Failed p) ?_ ?_ ?_ stack name
  -- a cycle and an unknown name are raised without a read
  · exact fun _ _ => trivial
  · exact fun _ => trivial
  intro name selector g _ hchildren
  have hcompose : ∀ combine, Strict UniverseOp.Failed
      (compose name selector (selector.of.map g) combine) := by
    intro combine
    refine .bind (.mapM fun p hp => ?_) fun _ => .bind (.ofExcept _) fun _ => trivial
    obtain ⟨child, hchild, rfl⟩ := List.mem_map.mp hp
    exact hchildren child hchild
  unfold visit
  cases selector.kind with
  | fullHolders =>
    refine .bind (.mapM fun ledger _ => strict_holderMembers _ ledger _) fun _ => ?_
    exact .bind (.ofExcept _) fun _ => trivial
  | explicitList => exact .bind (strict_loadExplicit name) fun _ => .ofExcept _
  | union => exact hcompose MultiMap.join
  | intersect => exact hcompose MultiMap.meet

theorem strict_resolve (self : UniverseResolver) (name tokenAddress : String) (anchorBlock : Nat) :
    Strict UniverseOp.Failed (self.resolve name tokenAddress anchorBlock) :=
  .bind (.ofExcept _) fun token => .bind (self.strict_resolveMap token anchorBlock [] name)
    fun _ => .ofExcept _

end UniverseResolver

theorem CensusPlan.strict_enter (plan : CensusPlan) (snapshotDate : Nat) (job : JobConfig)
    (target : CensusTarget) : Strict UniverseOp.Failed (plan.enter snapshotDate job target) := by
  cases target with
  | token token =>
    unfold CensusPlan.enter
    cases job.universeName with
    | none => trivial
    | some name =>
      have hresolve := plan.universes.strict_resolve name token.address plan.anchor.number
      exact .bind (.ofExcept _) fun _ => .lift hresolve fun _ _ h => h
  | pool pool => exact .bind (.ofExcept _) fun _ => .bind (.ofExcept _) fun _ => trivial

/-! ## One target -/

section Frozen

variable {self : CensusService} {lists : String → Except String (List String)} {plan : CensusPlan}
  {snapshotDate : Nat} {free : Prop} {w w' : ServiceWorld} {task task' : TargetTask}

/-- Of its entry, a target has left what the sources can still make return. -/
def TargetTask.Entering (plan : CensusPlan) (snapshotDate : Nat)
    (sources : (op : UniverseOp) → UniverseAns op) (task : TargetTask) : Prop :=
  ∀ rest, task.run = .entered rest →
    LeftOf UniverseOp.Failed sources (plan.enter snapshotDate task.job task.target) rest

/-- The attempt is of a planned target, with the universe that the sources determine. -/
structure CensusPlan.Freezes (plan : CensusPlan) (snapshotDate : Nat)
    (sources : (op : UniverseOp) → UniverseAns op) (attempt : AttemptPlan) : Prop where
  planned : (attempt.job, attempt.target) ∈ plan.entries
  frozen : answeredBy sources (plan.enter snapshotDate attempt.job attempt.target) = .ok attempt.frozen

theorem TargetStep.entering (h : TargetStep self lists plan snapshotDate free w task w' task')
    (hentering : task.Entering plan snapshotDate (w.discovery.sources lists)) :
    task'.Entering plan snapshotDate (w.discovery.sources lists) := by
  intro rest hrest
  cases h with
  | acquire permit waiting =>
    obtain rfl := TargetRun.entered.inj hrest
    exact .refl (plan.strict_enter snapshotDate task.job task.target)
  | @read op k answer entered answered =>
    -- the tables answer, or the read fails and the program raises what failed
    obtain rfl := TargetRun.entered.inj hrest
    refine (hentering _ entered).step (answered.imp_right ?_)
    rintro ⟨message, rfl⟩
    cases op <;> exact ⟨message, rfl⟩
  | _ => cases hrest

theorem TargetStep.freezes (h : TargetStep self lists plan snapshotDate free w task w' task')
    (hentering : task.Entering plan snapshotDate (w.discovery.sources lists))
    (hplanned : task.entry ∈ plan.entries) :
    w'.census.attempts = w.census.attempts ∨ ∃ attempt,
      plan.Freezes snapshotDate (w.discovery.sources lists) attempt ∧
        w'.census.attempts = w.census.attempts ++ [{ plan := attempt }] := by
  cases h with
  | start attempt entered configured of fresh =>
    refine .inr ⟨attempt, ⟨?_, ?_⟩, rfl⟩
    · rw [of.job, of.target]
      exact hplanned
    · rw [of.job, of.target, of.frozen]
      exact (hentering _ entered).returns
  | _ => exact .inl rfl

/-! ## The call -/

/-- What is known of the attempts of a call that began in `start`. -/
structure GatherFrozen (plan : CensusPlan) (snapshotDate : Nat)
    (lists : String → Except String (List String)) (start : ServiceWorld) (g : GatherState) : Prop where
  discovery : g.world.discovery = start.discovery
  later : ∀ entry ∈ g.later, entry ∈ plan.jobs
  planned : ∀ task ∈ g.tasks, task.entry ∈ plan.entries
  entering : ∀ task ∈ g.tasks, task.Entering plan snapshotDate (start.discovery.sources lists)
  attempts : ∃ added, g.world.census.attempts.map Attempt.plan =
      start.census.attempts.map Attempt.plan ++ added ∧
    ∀ attempt ∈ added, plan.Freezes snapshotDate (start.discovery.sources lists) attempt

namespace GatherFrozen

variable {start : ServiceWorld} {g g' : GatherState}

theorem ofBegin : GatherFrozen plan snapshotDate lists start (.begin start plan) where
  discovery := rfl
  later _ hentry := hentry
  planned _ htask := absurd htask List.not_mem_nil
  entering _ htask := absurd htask List.not_mem_nil
  attempts := ⟨[], (List.append_nil _).symm, fun _ h => absurd h List.not_mem_nil⟩

theorem progress (h : GatherFrozen plan snapshotDate lists start g) {c : CensusWorld}
    (step : Progress g.world.census c) :
    GatherFrozen plan snapshotDate lists start { g with world := { g.world with census := c } } where
  discovery := h.discovery
  later := h.later
  planned := h.planned
  entering := h.entering
  attempts := by
    obtain ⟨added, hadded, hfreezes⟩ := h.attempts
    refine ⟨added, ?_, hfreezes⟩
    obtain ⟨before, after, a, a', s, split, step, rfl⟩ := step
    rw [← hadded, split, List.map_append, List.map_append, List.map_cons, List.map_cons, step.plan_eq]

theorem nextJob (h : GatherFrozen plan snapshotDate lists start g) {entry : JobWork}
    {later : List JobWork} (next : g.later = entry :: later) :
    GatherFrozen plan snapshotDate lists start
      ⟨g.world, g.finished ++ g.tasks, entry.tasks, later⟩ where
  discovery := h.discovery
  later other hother := h.later other (next ▸ List.mem_cons_of_mem _ hother)
  planned task htask := by
    obtain ⟨target, htarget, rfl⟩ := List.mem_map.mp htask
    have hentry := h.later entry (next ▸ List.mem_cons_self)
    exact List.mem_flatMap.mpr ⟨entry, hentry, List.mem_map.mpr ⟨target, htarget, rfl⟩⟩
  entering task htask := by
    obtain ⟨target, -, rfl⟩ := List.mem_map.mp htask
    exact fun rest hrest => nomatch hrest
  attempts := h.attempts

theorem target (h : GatherFrozen plan snapshotDate lists start g)
    {before after : List TargetTask} (split : g.tasks = before ++ task :: after)
    (step : TargetStep self lists plan snapshotDate free g.world task w' task') :
    GatherFrozen plan snapshotDate lists start
      { g with world := w', tasks := before ++ task' :: after } := by
  have htask : task ∈ g.tasks := by simp [split]
  have hentry : task'.entry = task.entry := Prod.ext step.same.1 step.same.2
  have hentering := h.entering task htask
  rw [← h.discovery] at hentering
  have hothers : ∀ other ∈ before ++ task' :: after, other ∈ g.tasks ∨ other = task' := by
    intro other hother
    rw [split]
    simp only [List.mem_append, List.mem_cons] at hother ⊢
    tauto
  constructor
  case discovery => exact step.discovery_eq.trans h.discovery
  case later => exact h.later
  case planned =>
    intro other hother
    rcases hothers other hother with hother | rfl
    · exact h.planned other hother
    · exact hentry ▸ h.planned task htask
  case entering =>
    intro other hother
    rcases hothers other hother with hother | rfl
    · exact h.entering other hother
    · rw [← h.discovery]
      exact step.entering hentering
  case attempts =>
    obtain ⟨added, hadded, hfreezes⟩ := h.attempts
    rcases step.freezes hentering (h.planned task htask) with hsame | ⟨attempt, hfreeze, happend⟩
    · exact ⟨added, hsame ▸ hadded, hfreezes⟩
    · rw [h.discovery] at hfreeze
      refine ⟨added ++ [attempt], ?_, ?_⟩
      · show w'.census.attempts.map Attempt.plan = _
        rw [happend, List.map_append, hadded, List.append_assoc]
        rfl
      · exact List.forall_mem_append.mpr ⟨hfreezes, fun other hother =>
          List.mem_singleton.mp hother ▸ hfreeze⟩

theorem run {start : ServiceWorld} {g : GatherState}
    (gathered : Relation.ReflTransGen (GatherStep self lists plan snapshotDate) (.begin start plan) g) :
    GatherFrozen plan snapshotDate lists start g := by
  induction gathered with
  | refl => exact ofBegin
  | tail _ hs ih =>
    cases hs with
    | progress step => exact ih.progress step
    | target split step => exact ih.target split step
    | nextJob finished next => exact ih.nextJob next

end GatherFrozen

/-- The entry of a token returns what the resolver does. -/
theorem CensusPlan.answeredBy_enter {sources : (op : UniverseOp) → UniverseAns op} {job : JobConfig}
    {token : TokenConfig} {name : String} {frozen : FrozenUniverse} (hname : job.universeName = some name)
    (h : answeredBy sources (plan.enter snapshotDate job (.token token)) = .ok frozen) :
    answeredBy sources (plan.universes.resolve name token.address plan.anchor.number) = .ok frozen := by
  unfold CensusPlan.enter at h
  rw [hname] at h
  simp only [answeredBy_bind, answeredBy_ofExcept, except_bind_eq_ok_iff] at h
  obtain ⟨_, -, hlift⟩ := h
  rw [answeredBy_lift] at hlift
  exact except_mapError_eq_ok_iff.mp hlift

/-- Reads that succeed lead an entry to what it returns. -/
theorem entered_answered {g : GatherState} {before after : List TargetTask}
    {p : EntryProgram FrozenUniverse} {frozen : FrozenUniverse}
    (h : answeredBy (g.world.discovery.sources lists) p = .ok frozen) :
    Relation.ReflTransGen (GatherStep self lists plan snapshotDate)
      { g with tasks := before ++ { task with run := .entered p } :: after }
      { g with tasks := before ++ { task with run := .entered (.ret frozen) } :: after } := by
  induction p with
  | ret a =>
    cases h
    exact .refl
  | raise e => cases h
  | call op k ih => exact .head (GatherStep.target rfl (.read rfl (.inl rfl))) (ih _ h)

/-- Each attempt that a census call makes of a token has frozen what the token's universe resolves to on the
discovery tables as the prologue left them, whatever order the targets ran in and whichever reads failed.
Where the universe reads holders, these tables answer the token's ledgers as the chain says. -/
theorem attempts_frozen {chains : Nat → Set NormalizedLog} {jobName : Option String} {begun : ServiceWorld}
    {g : GatherState} (history : LedgersRun self chains .empty w.discovery)
    (prepared : Reaches (callEnv self (chains self.chainId))
      (self.prepare snapshotDate jobName, w) (.ret plan, begun))
    (gathered : Relation.ReflTransGen (GatherStep self lists plan snapshotDate) (.begin begun plan) g) :
    ∃ added, g.world.census.attempts.map Attempt.plan = begun.census.attempts.map Attempt.plan ++ added ∧
      ∀ attempt ∈ added, ∀ token name, attempt.target = .token token →
        attempt.job.universeName = some name →
          answeredBy (begun.discovery.sources lists)
              (plan.universes.resolve name token.address plan.anchor.number) = .ok attempt.frozen ∧
            (self.needsHolderDiscovery attempt.job = .ok true →
              LedgersAnswered self chains snapshotDate plan.anchor begun.discovery token) ∧
            ∀ address, normalizeAddress token.address = .ok address →
              WellFormedSources plan.universes (begun.discovery.sources lists) address plan.anchor.number
                  name →
                FreezesAs (Denotes plan.universes (begun.discovery.sources lists) address
                  plan.anchor.number name) attempt.frozen := by
  -- the ledgers are settled before the first target runs, and no target moves the discovery tables
  obtain ⟨-, hsettled⟩ := Safe.returns (returns_prepare_settled history) .refl prepared
  obtain ⟨added, hadded, hfreezes⟩ := (GatherFrozen.run gathered).attempts
  refine ⟨added, hadded, fun attempt hattempt token name htarget hname => ?_⟩
  obtain ⟨hplanned, hfrozen⟩ := hfreezes attempt hattempt
  rw [htarget] at hplanned hfrozen
  have hresolved := CensusPlan.answeredBy_enter hname hfrozen
  refine ⟨hresolved, fun hneeds => ?_, fun address haddress hwf => ?_⟩
  · obtain ⟨entry, hentry, hmem⟩ := List.mem_flatMap.mp hplanned
    obtain ⟨target, hwork, hpair⟩ := List.mem_map.mp hmem
    obtain ⟨hjob, rfl⟩ := Prod.mk.inj hpair
    rw [← hjob] at hneeds
    exact (hsettled entry hentry hneeds token (List.mem_filterMap.mpr ⟨_, hwork, rfl⟩)).answered
  · exact ((resolve_eq_ok_iff haddress hwf).mp hresolved).2

end Frozen

/-! ## The token again -/

/-- Both parties of the sample log hold the token. -/
theorem onChain_iff {holder label : String} :
    HolderOnChain sampleService tokenChain (sampleToken [bothSides]) 12 holder label ↔
      (holder = sampleHolder 'a' ∨ holder = sampleHolder 'b') ∧ label = scanLabel "Transfer" := by
  constructor
  · rintro ⟨eventConfig, hconfig, rfl, event, -, -, l, hl, -, -, position, hposition, hholder⟩
    obtain rfl := List.mem_singleton.mp hconfig
    obtain rfl : l = sampleLog := List.mem_singleton.mp hl.1
    refine ⟨?_, rfl⟩
    rcases List.mem_pair.mp hposition with rfl | rfl
    · exact .inl (Except.ok.inj (hholder.symm.trans sampleLog_holderAt.1))
    · exact .inr (Except.ok.inj (hholder.symm.trans sampleLog_holderAt.2))
  · have hparty : ∀ position ∈ [1, 2], ∀ holder, sampleLog.holderAt position = .ok holder →
        holder ≠ zeroAddress → HolderOnChain sampleService tokenChain (sampleToken [bothSides]) 12 holder
          (scanLabel "Transfer") := fun position hposition holder hholder hzero =>
      ⟨bothSides, List.mem_singleton_self _, rfl, _, bothSides_event, .inr hzero, sampleLog,
        sampleLog_mem, by decide, by decide, position, hposition, hholder⟩
    rintro ⟨rfl | rfl, rfl⟩
    · exact hparty 1 (by decide) _ sampleLog_holderAt.1 (by decide)
    · exact hparty 2 (by decide) _ sampleLog_holderAt.2 (by decide)

/-- The parties under one label, as a list. -/
def partiesUnder (label : String) : List (String × List String) :=
  [(sampleHolder 'a', [label]), (sampleHolder 'b', [label])]

theorem frozenAs_parties {R : String → String → Prop} {label : String}
    (h : ∀ holder other, R holder other ↔
      (holder = sampleHolder 'a' ∨ holder = sampleHolder 'b') ∧ other = label) :
    FrozenAs R (partiesUnder label) where
  sorted := List.pairwise_pair.mpr (by decide : sampleHolder 'a' < sampleHolder 'b')
  members address := by
    simp only [h, partiesUnder, List.map_cons, List.map_nil, List.mem_cons, List.not_mem_nil, or_false,
      exists_and_left, exists_eq, and_true]
  provenance entry hentry := by
    rcases List.mem_pair.mp hentry with rfl | rfl
    · exact ⟨List.cons_ne_nil _ _, List.pairwise_singleton _ _, fun other => by simp [h]⟩
    · exact ⟨List.cons_ne_nil _ _, List.pairwise_singleton _ _, fun other => by simp [h]⟩

theorem members_answered {d : DiscoveryStore} (h : LedgersAnswered holdersService (fun _ => tokenChain) 0
      tokenAnchor d (sampleToken [bothSides])) :
    ∃ members, d.holderMembers 100 sampleAddress 12 = .ok members ∧
      members.map (fun member => (member.address, member.sources)) = partiesUnder (scanLabel "Transfer") := by
  obtain ⟨members, hmembers, hfrozen⟩ :=
    h _ (.inl rfl) bothSides_distinct sampleAddress normalize_sampleAddress
  exact ⟨members, hmembers, hfrozen.unique (frozenAs_parties fun _ _ => onChain_iff)⟩

def partyLabel : String := holderLabel "full_holders" (scanLabel "Transfer")

/-- The resolver of the one universe, without seeds and aliases. -/
def tokenResolver : UniverseResolver := ⟨100, holdersCatalog.universes, [], []⟩

theorem tokenResolver_known : tokenResolver.universes.lookup "full_holders" = some holdersSelector := rfl

theorem normalize_party {digit : Char} (h : digit ∈ ['a', 'b']) :
    normalizeAddress (sampleHolder digit) = .ok (sampleHolder digit) := by
  rcases List.mem_pair.mp h with rfl | rfl <;> exact normalizeAddress_hexText (by decide) (by decide)

section Answered

variable {d : DiscoveryStore} {members : List UniverseMember}
  (hread : d.holderMembers 100 sampleAddress 12 = .ok members)
  (hmembers : members.map (fun member => (member.address, member.sources)) =
    partiesUnder (scanLabel "Transfer"))

include hmembers

theorem member_answered {member : UniverseMember} (h : member ∈ members) :
    ∃ digit ∈ ['a', 'b'], member.address = sampleHolder digit ∧
      member.sources = [scanLabel "Transfer"] := by
  have hpair := List.mem_map_of_mem (f := fun member => (member.address, member.sources)) h
  rw [hmembers] at hpair
  rcases List.mem_pair.mp hpair with heq | heq
  · exact ⟨'a', by decide, Prod.mk.inj heq⟩
  · exact ⟨'b', by decide, Prod.mk.inj heq⟩

include hread

theorem wellFormed_tokenSources : WellFormedSources tokenResolver (d.sources fun _ => .ok []) sampleAddress
    12 "full_holders" where
  holders x selector _ _ _ ledger hledger := by
    obtain rfl : ledger = sampleAddress := List.mem_singleton.mp hledger
    refine ⟨members, hread, fun member hmember => ?_⟩
    obtain ⟨digit, hdigit, haddress, hsources⟩ := member_answered hmembers hmember
    refine ⟨⟨_, haddress ▸ normalize_party hdigit⟩, ?_, ?_⟩
    · simp [hsources]
    · rw [hsources]
      decide
  lists _ _ _ _ _ := ⟨[], rfl, fun _ hentry => absurd hentry List.not_mem_nil⟩

theorem denotes_token_iff {address label : String} :
    Denotes tokenResolver (d.sources fun _ => .ok []) sampleAddress 12 "full_holders" address label ↔
      (address = sampleHolder 'a' ∨ address = sampleHolder 'b') ∧ label = partyLabel := by
  rw [denotes_holders_iff tokenResolver_known rfl]
  constructor
  · rintro (⟨ledger, hledger, members', hread', member, hmember, haddress, source, hsource, rfl⟩ |
      ⟨hseed, -⟩)
    · obtain rfl : ledger = sampleAddress := List.mem_singleton.mp hledger
      obtain rfl := Except.ok.inj (hread.symm.trans hread')
      obtain ⟨digit, hdigit, hparty, hsources⟩ := member_answered hmembers hmember
      rw [hparty, normalize_party hdigit] at haddress
      rw [hsources] at hsource
      obtain rfl := Except.ok.inj haddress
      refine ⟨?_, congrArg _ (List.mem_singleton.mp hsource)⟩
      rcases List.mem_pair.mp hdigit with rfl | rfl
      · exact .inl rfl
      · exact .inr rfl
    · exact absurd hseed List.not_mem_nil
  · have hdenoted : ∀ digit ∈ ['a', 'b'], (sampleHolder digit, [scanLabel "Transfer"]) ∈
        partiesUnder (scanLabel "Transfer") → ∃ ledger ∈ tokenResolver.ledgers sampleAddress,
          ∃ members, d.sources (fun _ => .ok []) (.holderMembers 100 ledger 12) = .ok members ∧
            ∃ member ∈ members, normalizeAddress member.address = .ok (sampleHolder digit) ∧
              ∃ source ∈ member.sources, partyLabel = holderLabel "full_holders" source := by
      intro digit hdigit hparty
      rw [← hmembers] at hparty
      obtain ⟨member, hmember, heq⟩ := List.mem_map.mp hparty
      obtain ⟨haddress, hsources⟩ := Prod.mk.inj heq
      refine ⟨sampleAddress, List.mem_cons_self, members, hread, member, hmember, ?_, ?_⟩
      · rw [haddress, normalize_party hdigit]
      · rw [hsources]
        exact ⟨_, List.mem_singleton_self _, rfl⟩
    rintro ⟨rfl | rfl, rfl⟩
    · exact .inl (hdenoted 'a' (by decide) List.mem_cons_self)
    · exact .inl (hdenoted 'b' (by decide) (List.mem_cons_of_mem _ List.mem_cons_self))

/-- The universe of the token resolves. -/
theorem token_resolved : ∃ frozen : FrozenUniverse,
    answeredBy (d.sources fun _ => .ok []) (tokenResolver.resolve "full_holders" sampleAddress 12) =
      .ok frozen := by
  have hparties : ∀ member ∈ partiesUnder partyLabel, isAddress member.1 = true ∧
      member.2 = [partyLabel] := by
    intro member hmember
    rcases List.mem_pair.mp hmember with rfl | rfl
    · exact ⟨isAddress_hexText (by decide) (by decide), rfl⟩
    · exact ⟨isAddress_hexText (by decide) (by decide), rfl⟩
  have hfrozen : FrozenAs (Denotes tokenResolver (d.sources fun _ => .ok []) sampleAddress 12 "full_holders")
      (partiesUnder partyLabel) := frozenAs_parties fun _ _ => denotes_token_iff hread hmembers
  obtain ⟨universeHash, hhash⟩ : ∃ digest, digestUniverse (partiesUnder partyLabel) = .ok digest := by
    refine (exists_digestUniverse_iff (fun member hmember => (hparties member hmember).1)
      (hfrozen.sorted.imp fun h => h.ne)).mpr fun member hmember => ?_
    rw [(hparties member hmember).2]
    refine ⟨by decide, fun source hsource => ?_⟩
    rw [List.mem_singleton.mp hsource]
    decide
  refine ⟨⟨[sampleHolder 'a', sampleHolder 'b'], partiesUnder partyLabel, universeHash⟩, ?_⟩
  refine (resolve_eq_ok_iff normalize_sampleAddress (wellFormed_tokenSources hread hmembers)).mpr
    ⟨Grounded.not_broken (.intro tokenResolver_known fun _ hchild => absurd hchild List.not_mem_nil),
      hfrozen, rfl, hhash⟩

end Answered

def tokenPlan : CensusPlan := ⟨tokenAnchor, [tokenWork], tokenResolver⟩

theorem enter_token {d : DiscoveryStore} {frozen : FrozenUniverse}
    (h : answeredBy (d.sources fun _ => .ok []) (tokenResolver.resolve "full_holders" sampleAddress 12) =
      .ok frozen) :
    answeredBy (d.sources fun _ => .ok [])
      (tokenPlan.enter 0 holdersJob (.token (sampleToken [bothSides]))) = .ok frozen := by
  have hwindow : (CensusRunner.checkDateWindow (sampleToken [bothSides]).dateStart
      (sampleToken [bothSides]).dateEnd 0).mapError EntryFault.census = .ok () := rfl
  unfold CensusPlan.enter
  rw [show holdersJob.universeName = some "full_holders" from rfl]
  simp only [answeredBy_bind, answeredBy_ofExcept, hwindow, except_ok_bind]
  rw [answeredBy_lift]
  exact except_mapError_eq_ok_iff.mpr h

theorem tokenAttempt_notPool (frozen : FrozenUniverse) :
    ∀ pool, CensusTarget.token (sampleToken [bothSides]) = .pool pool → frozen.size = 0 := nofun

def tokenAttempt (frozen : FrozenUniverse) : AttemptPlan where
  runner := holdersService.runner
  job := holdersJob
  target := .token (sampleToken [bothSides])
  snapshotDate := 0
  anchor := tokenAnchor
  frozen := frozen
  attemptId := "attempt"
  pool_frozen := tokenAttempt_notPool frozen

/-- The gathering of the one job, with its target at `run`. -/
def tokenGathering (w : ServiceWorld) (run : TargetRun) : GatherState :=
  ⟨w, [], [{ job := holdersJob, target := .token (sampleToken [bothSides]), run }], []⟩

theorem tokenGathering_step (w w' : ServiceWorld) (run run' : TargetRun)
    (step : TargetStep holdersService (fun _ => .ok []) tokenPlan 0
      ((tokenGathering w run).tasks.countP TargetTask.inside < holdersService.censusTargetConcurrency)
      w { job := holdersJob, target := .token (sampleToken [bothSides]), run }
      w' { job := holdersJob, target := .token (sampleToken [bothSides]), run := run' }) :
    GatherStep holdersService (fun _ => .ok []) tokenPlan 0 (tokenGathering w run) (tokenGathering w' run') :=
  @GatherStep.target holdersService (fun _ => .ok []) tokenPlan 0 (tokenGathering w run) [] [] _ _ _ rfl step

theorem targetEffectiveConfig_token : ∃ effective,
    holdersCatalog.targetEffectiveConfig holdersJob (.token (sampleToken [bothSides])) = .ok effective := by
  have hknown : holdersCatalog.universes.lookup "full_holders" = some holdersSelector := rfl
  obtain ⟨document, hexpanded⟩ : ∃ document,
      holdersCatalog.expandedUniverse [] "full_holders" = .ok document :=
    ⟨_, descend_known List.not_mem_nil hknown⟩
  obtain ⟨vendorHashes, hhashes⟩ : ∃ vendorHashes,
      holdersCatalog.collectVendorHashes [] "full_holders" = .ok vendorHashes :=
    ⟨_, descend_known List.not_mem_nil hknown⟩
  unfold Catalog.targetEffectiveConfig
  rw [show holdersJob.universeName = some "full_holders" from rfl]
  simp only [hexpanded, hhashes, except_ok_bind]
  exact ⟨_, rfl⟩

/-- The token, from the permit to its attempt. -/
theorem tokenGathering_started {d : DiscoveryStore} {frozen : FrozenUniverse}
    (h : answeredBy (d.sources fun _ => .ok []) (tokenResolver.resolve "full_holders" sampleAddress 12) =
      .ok frozen) :
    ∃ g : GatherState, g.world.census.attempts = [{ plan := tokenAttempt frozen }] ∧
      Relation.ReflTransGen (GatherStep holdersService (fun _ => .ok []) tokenPlan 0)
        (.begin (tokenWorld d) tokenPlan) g := by
  obtain ⟨effective, hconfigured⟩ := targetEffectiveConfig_token
  have hof : (tokenAttempt frozen).Of holdersService tokenPlan 0 holdersJob
      (.token (sampleToken [bothSides])) frozen := ⟨rfl, rfl, rfl, rfl, rfl, rfl⟩
  have hjob : GatherStep holdersService (fun _ => .ok []) tokenPlan 0 (.begin (tokenWorld d) tokenPlan)
      (tokenGathering (tokenWorld d) .waiting) :=
    @GatherStep.nextJob _ _ _ _ (.begin (tokenWorld d) tokenPlan) tokenWork []
      (fun _ htask => absurd htask List.not_mem_nil) rfl
  have hacquire := tokenGathering_step (tokenWorld d) _ .waiting _ (.acquire Nat.zero_lt_one rfl)
  have hreads := @entered_answered holdersService (fun _ => .ok []) tokenPlan 0
    { job := holdersJob, target := .token (sampleToken [bothSides]) }
    (tokenGathering (tokenWorld d) .waiting) [] [] _ frozen (enter_token h)
  have hstart := tokenGathering_step (tokenWorld d) _ (.entered (.ret frozen)) _
    (.start (tokenAttempt frozen) rfl hconfigured hof List.not_mem_nil)
  exact ⟨_, rfl, (Relation.ReflTransGen.head hjob (.head hacquire hreads)).tail hstart⟩

theorem attempts_frozen_sample : ∃ (d : DiscoveryStore) (g : GatherState) (attempt : Attempt),
    Relation.ReflTransGen (GatherStep holdersService (fun _ => .ok []) tokenPlan 0)
      (.begin (tokenWorld d) tokenPlan) g ∧
    attempt ∈ g.world.census.attempts ∧
      attempt.plan.frozen.sources = partiesUnder partyLabel := by
  obtain ⟨d, hadvance⟩ := advance_returned
  have hreturned : Reaches (callEnv holdersService tokenChain)
      (holdersService.prepare 0 none, tokenWorld .empty) (.ret tokenPlan, tokenWorld d) :=
    prepare_returned (advanceDiscovery_returned hadvance)
  have hsettled := @returns_prepare_settled holdersService 0 (fun _ => tokenChain) (tokenWorld .empty) none
    .refl
  have hanswered := ((Safe.returns hsettled .refl hreturned).2 tokenWork (List.mem_singleton_self _)
    needsHolderDiscovery_holdersJob _ (List.mem_singleton_self _)).answered
  obtain ⟨members, hread, hmembers⟩ := members_answered hanswered
  obtain ⟨frozen, hfrozen⟩ := token_resolved hread hmembers
  obtain ⟨g, hattempts, hrun⟩ := tokenGathering_started hfrozen
  obtain ⟨added, hadded, hfreezes⟩ := @attempts_frozen holdersService (fun _ => .ok []) tokenPlan 0
    (tokenWorld .empty) (fun _ => tokenChain) none (tokenWorld d) g .refl hreturned hrun
  rw [hattempts] at hadded
  have hadded : added = [tokenAttempt frozen] := hadded.symm
  obtain ⟨-, -, hdenoted⟩ := hfreezes _ (hadded ▸ List.mem_singleton_self _) _ _ rfl rfl
  have hparties := hdenoted sampleAddress normalize_sampleAddress (wellFormed_tokenSources hread hmembers)
  refine ⟨d, g, _, hrun, hattempts ▸ List.mem_singleton_self _, ?_⟩
  exact hparties.members.unique (frozenAs_parties fun _ _ => denotes_token_iff hread hmembers)

end RpcStateIndexer
