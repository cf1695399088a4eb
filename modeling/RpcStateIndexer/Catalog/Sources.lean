import RpcStateIndexer.Catalog.LogScan

/-!
# What the scan of a source emits

The four sources with their contracts and creation events.  A Balancer V2 pool is the join of two events;
the assets of a Balancer V3 pool, and the topic of its creation event, come from calls that may fail.
-/

namespace RpcStateIndexer

open Reasoning Program

namespace CatalogEnumeration

inductive PoolSource where
  | uniswapV3
  | swaprV3
  | balancerV2
  | balancerV3
  deriving DecidableEq

namespace PoolSource

def name : PoolSource → String
  | .uniswapV3 => "uniswap_v3"
  | .swaprV3 => "swapr_v3"
  | .balancerV2 => "balancer_v2"
  | .balancerV3 => "balancer_v3"

def address : PoolSource → String
  | .uniswapV3 => uniswapV3Factory
  | .swaprV3 => swaprAlgebraFactory
  | .balancerV2 => balancerV2Vault
  | .balancerV3 => balancerV3Vault

/-- The first topic of the source's pool-creation event. -/
def creationTopic (keccak : String → List UInt8) (v3Topic : String) : PoolSource → String
  | .uniswapV3 => topicUniswap keccak
  | .swaprV3 => topicAlgebra keccak
  | .balancerV2 => topicV2Registered keccak
  | .balancerV3 => v3Topic

end PoolSource

variable {keccak : String → List UInt8} {chain : PoolChain} {t : List (Sigma CatalogAnswer)}

/-! ## Calls of the Balancer V3 vault -/

/-- What `getPoolTokenInfo` returns at the block, if the vault knows the pool. -/
def PoolChain.tokenInfo (chain : PoolChain) (keccak : String → List UInt8) (pool : String) (block : Int) :
    Option (List (String × Nat)) := do
  let data ← (poolTokenInfoCalldata keccak pool).toOption
  let returned ← chain.call balancerV3Vault data block
  (decodeBalancerV3PoolTokenInfo returned).toOption

theorem PoolChain.tokenInfo_eq {pool : String} {data : List UInt8}
    (hdata : poolTokenInfoCalldata keccak pool = .ok data) (block : Int) :
    chain.tokenInfo keccak pool block = (chain.call balancerV3Vault data block).bind
      fun returned => (decodeBalancerV3PoolTokenInfo returned).toOption := by
  unfold PoolChain.tokenInfo
  rw [hdata]
  rfl

/-- No call for the pool's tokens at the block failed that the vault would answer. -/
def Answered (chain : PoolChain) (keccak : String → List UInt8) (pool : String) (block : Int)
    (t : List (Sigma CatalogAnswer)) : Prop :=
  ∀ data answer, poolTokenInfoCalldata keccak pool = .ok data →
    ⟨.ethCall balancerV3Vault data block, answer⟩ ∈ t → (chain.call balancerV3Vault data block).isSome →
      ∃ returned : List UInt8, answer = .ok returned

theorem Answered.mono {pool : String} {block : Int} {t' : List (Sigma CatalogAnswer)}
    (h : Answered chain keccak pool block t') (hsub : ∀ x ∈ t, x ∈ t') : Answered chain keccak pool block t :=
  fun data answer hdata hmem => h data answer hdata (hsub _ hmem)

/-- The guarded call returns what the vault says, or nothing; a call that is answered returns it. -/
theorem poolTokenInfo_spec {pool : String} {block : Int} {info : Option (List (String × Nat))}
    (h : Runs (poolTokenInfo keccak pool block) t (.ok info)) (hexact : ∀ x ∈ t, chain.Exact x) :
    (∀ pairs, info = some pairs → chain.tokenInfo keccak pool block = some pairs) ∧
      (Answered chain keccak pool block t → info = chain.tokenInfo keccak pool block) := by
  unfold poolTokenInfo at h
  cases hdata : poolTokenInfoCalldata keccak pool with
  | error message =>
    rw [hdata] at h
    obtain rfl := Except.ok.inj (runs_ret_iff.mp h).2
    refine ⟨fun pairs hpairs => absurd hpairs (Option.some_ne_none pairs).symm, fun _ => ?_⟩
    unfold PoolChain.tokenInfo
    rw [hdata]
    rfl
  | ok data =>
    rw [hdata] at h
    obtain ⟨answer, rest, rfl, hrest⟩ := runs_call_iff.mp h
    rw [PoolChain.tokenInfo_eq hdata]
    cases answer with
    | ok returned =>
      have hcall : chain.call balancerV3Vault data block = some returned :=
        hexact _ List.mem_cons_self returned rfl
      obtain rfl := Except.ok.inj (runs_ret_iff.mp hrest).2
      rw [hcall]
      exact ⟨fun pairs hpairs => hpairs, fun _ => rfl⟩
    | error fault =>
      obtain rfl := Except.ok.inj (runs_ret_iff.mp hrest).2
      refine ⟨fun pairs hpairs => absurd hpairs (Option.some_ne_none pairs).symm, fun hanswered => ?_⟩
      cases hcall : chain.call balancerV3Vault data block with
      | none => rfl
      | some returned =>
        obtain ⟨_, hfail⟩ := hanswered data _ hdata List.mem_cons_self (by rw [hcall]; rfl)
        cases hfail

/-! ## The creation event of Balancer V3 -/

/-- The vault knows the pool that the log names. -/
def acceptedLog (chain : PoolChain) (keccak : String → List UInt8) (block : Int) (log : EventLog) : Bool :=
  match log.topics with
  | _ :: topic1 :: _ => (chain.tokenInfo keccak (addrOf topic1) block).isSome
  | _ => false

/-- The window that the topic is resolved from. -/
def resolutionWindow (chain : PoolChain) (hi : Int) : List EventLog :=
  let deploy := min (chain.deployed balancerV3Vault : Int) hi
  chain.window balancerV3Vault none deploy (min (deploy + maxRange - 1) hi)

/-- The calls for the first pool of the window that the vault knows were answered. -/
def ResolutionAnswered (chain : PoolChain) (keccak : String → List UInt8) (hi : Int)
    (t : List (Sigma CatalogAnswer)) : Prop :=
  ∀ log, (resolutionWindow chain hi).find? (acceptedLog chain keccak (hi - 32)) = some log →
    ∀ topic0 topic1 rest, log.topics = topic0 :: topic1 :: rest →
      Answered chain keccak (addrOf topic1) (hi - 32) t

theorem ResolutionAnswered.mono {hi : Int} {t' : List (Sigma CatalogAnswer)}
    (h : ResolutionAnswered chain keccak hi t') (hsub : ∀ x ∈ t, x ∈ t') :
    ResolutionAnswered chain keccak hi t :=
  fun log hlog topic0 topic1 rest htopics => (h log hlog topic0 topic1 rest htopics).mono hsub

/-- The vault logs nothing of a pool before the pool's registration. -/
def RegistersFirst (chain : PoolChain) (keccak : String → List UInt8) (v3Topic : String) : Prop :=
  ∀ earlier log later, chain.logs = earlier ++ log :: later → log.address = balancerV3Vault →
    ∀ topic0 topic1 rest block, log.topics = topic0 :: topic1 :: rest →
      (chain.tokenInfo keccak (addrOf topic1) block).isSome → topic0 = v3Topic ∨
        ∃ registration ∈ earlier, registration.address = balancerV3Vault ∧
          ∃ more, registration.topics = v3Topic :: topic1 :: more

/-- The loop returns the topic of the first log whose pool the vault knows, if the call for it is answered. -/
theorem topic_of_firstAccepted {block : Int} {logs : List EventLog} {topic : String}
    (h : Runs (firstAccepted keccak block logs) t (.ok topic)) (hexact : ∀ x ∈ t, chain.Exact x)
    (hanswered : ∀ log, logs.find? (acceptedLog chain keccak block) = some log →
      ∀ topic0 topic1 rest, log.topics = topic0 :: topic1 :: rest →
        Answered chain keccak (addrOf topic1) block t) :
    ∃ log, logs.find? (acceptedLog chain keccak block) = some log ∧ log.topics.head? = some topic := by
  induction logs generalizing t with
  | nil => exact absurd h not_runs_raise_ok
  | cons log logs ih =>
    unfold firstAccepted at h
    split at h
    · rename_i topic0 topic1 rest htopics
      obtain ⟨info, t₁, t₂, rfl, hcall, hnext⟩ := runs_bind_ok_iff.mp h
      obtain ⟨hsome, hall⟩ := poolTokenInfo_spec hcall fun x hx => hexact x (List.mem_append_left _ hx)
      have haccepted : acceptedLog chain keccak block log =
          (chain.tokenInfo keccak (addrOf topic1) block).isSome := by
        unfold acceptedLog
        rw [htopics]
      cases info with
      | some pairs =>
        obtain rfl := Except.ok.inj (runs_ret_iff.mp hnext).2
        have hknown := hsome pairs rfl
        refine ⟨log, List.find?_cons_of_pos ?_, by rw [htopics]; rfl⟩
        rw [haccepted, hknown]
        rfl
      | none =>
        -- a pool that the vault knows would have been answered, were it the first one
        have hunknown : ¬ acceptedLog chain keccak block log = true := by
          intro hyes
          have hfirst := hanswered log (List.find?_cons_of_pos hyes) topic0 topic1 rest htopics
          have hinfo := hall (hfirst.mono fun x hx => List.mem_append_left _ hx)
          rw [haccepted, ← hinfo] at hyes
          cases hyes
        have hskip : (log :: logs).find? (acceptedLog chain keccak block) =
            logs.find? (acceptedLog chain keccak block) := List.find?_cons_of_neg hunknown
        rw [hskip] at hanswered ⊢
        apply ih hnext fun x hx => hexact x (List.mem_append_right _ hx)
        intro other hother topic0 topic1 rest htopics
        exact (hanswered other hother topic0 topic1 rest htopics).mono
          fun x hx => List.mem_append_right _ hx
    · rename_i hshort
      have hskip : (log :: logs).find? (acceptedLog chain keccak block) =
          logs.find? (acceptedLog chain keccak block) := by
        apply List.find?_cons_of_neg
        unfold acceptedLog
        split
        · rename_i topic0 topic1 rest htopics
          exact absurd htopics (hshort topic0 topic1 rest)
        · exact Bool.false_ne_true
      rw [hskip] at hanswered ⊢
      exact ih h hexact hanswered

/-- Where a log stands in a window, the window splits as the chain does. -/
theorem exists_append_of_filter {α : Type} {p : α → Bool} {l before after : List α} {a : α}
    (h : l.filter p = before ++ a :: after) :
    ∃ l₁ l₂, l = l₁ ++ a :: l₂ ∧ l₁.filter p = before ∧ l₂.filter p = after := by
  obtain ⟨l₁, l₂, rfl, rfl, hrest⟩ := List.filter_eq_append_iff.mp h
  obtain ⟨l₃, l₄, rfl, hnone, -, rfl⟩ := List.filter_eq_cons_iff.mp hrest
  refine ⟨l₁ ++ l₃, l₄, by rw [List.append_assoc], ?_, rfl⟩
  rw [List.filter_append, List.filter_eq_nil_iff.mpr hnone, List.append_nil]

theorem PoolChain.blocks_of_append {earlier later : List EventLog} {log : EventLog}
    (h : chain.logs = earlier ++ log :: later) :
    (∀ x ∈ earlier, x.blockNumber ≤ log.blockNumber) ∧ ∀ x ∈ later, log.blockNumber ≤ x.blockNumber := by
  have hsorted := chain.sorted
  rw [h, List.pairwise_append, List.pairwise_cons] at hsorted
  exact ⟨fun x hx => hsorted.2.2 x hx log List.mem_cons_self, hsorted.2.1.1⟩

/-- The topic is that of the registration, when the calls that decide it are answered. -/
theorem resolveV3Topic_eq {hi : Int} {topic v3Topic : String}
    (h : Runs (resolveV3Topic keccak hi) t (.ok topic)) (hexact : ∀ x ∈ t, chain.Exact x)
    (hfirst : RegistersFirst chain keccak v3Topic) (hanswered : ResolutionAnswered chain keccak hi t) :
    topic = v3Topic := by
  obtain ⟨deploy, t₁, t₂, rfl, hdeploy, hrest⟩ := runs_bind_ok_iff.mp h
  obtain ⟨hexact₁, hexact₂⟩ := List.forall_mem_append.mp hexact
  obtain rfl := findDeployBlock_eq hdeploy hexact₁
  obtain ⟨logs, t₃, rfl, hloop⟩ := runs_ask_bind_ok hrest
  obtain ⟨hrequest, hexact₃⟩ := List.forall_mem_cons.mp hexact₂
  obtain rfl : logs = resolutionWindow chain hi := hrequest logs rfl
  obtain ⟨log, hfind, htopic⟩ := topic_of_firstAccepted hloop hexact₃
    (hanswered.mono fun x hx => List.mem_append_right _ (List.mem_cons_of_mem _ hx))
  -- an earlier registration of the same pool would have been found first
  obtain ⟨haccepted, before, after, hsplit, hnone⟩ := List.find?_eq_some_iff_append.mp hfind
  obtain ⟨earlier, later, hchain, hearlier, -⟩ := exists_append_of_filter hsplit
  have hmem := PoolChain.mem_window.mp
    (hsplit ▸ List.mem_append_right _ List.mem_cons_self : log ∈ resolutionWindow chain hi)
  have haddress : log.address = balancerV3Vault := EventLog.address_of_matches hmem.2.1
  unfold acceptedLog at haccepted
  split at haccepted
  · rename_i topic0 topic1 rest htopics
    rw [htopics, List.head?_cons, Option.some.injEq] at htopic
    subst htopic
    rcases hfirst earlier log later hchain haddress topic0 topic1 rest _ htopics haccepted with
      rfl | ⟨registration, hregistration, hvault, more, hmore⟩
    · rfl
    · have hdeployed := chain.deployed_le registration
        (hchain ▸ List.mem_append_left _ hregistration)
      rw [hvault] at hdeployed
      have hle := (PoolChain.blocks_of_append hchain).1 registration hregistration
      have hbefore : registration ∈ before := by
        rw [← hearlier]
        refine List.mem_filter.mpr ⟨hregistration, ?_⟩
        simp only [EventLog.matches, hvault, decide_true, Option.all_none, Bool.and_true, Bool.true_and,
          Bool.and_eq_true, decide_eq_true_eq]
        omega
      have hskipped := hnone registration hbefore
      unfold acceptedLog at hskipped
      rw [hmore] at hskipped
      dsimp only at hskipped
      rw [haccepted] at hskipped
      cases hskipped
  · cases haccepted

end CatalogEnumeration

end RpcStateIndexer
