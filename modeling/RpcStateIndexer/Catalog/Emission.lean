import RpcStateIndexer.Catalog.Sources

/-!
# Where the emitted pools come from

Each source emits the pools of its window and no others: a pool of one log, the join of the last two logs
of a pool id, or a pool that the vault answers for.
-/

namespace RpcStateIndexer

open Reasoning Program

namespace CatalogEnumeration

variable {keccak : String → List UInt8} {chain : PoolChain} {t : List (Sigma CatalogAnswer)}
  {st st' : CatalogScan} {start : Option Int} {hi : Int} {v3Topic : String} {row : PoolRow}

/-! ## Adding pools -/

theorem pools_addPool (st : CatalogScan) (row : PoolRow) : (st.addPool row).pools = st.pools ++ [row] := by
  have hfold : ∀ (blk : Nat) (tokens : List String) (st : CatalogScan),
      (tokens.foldl (CatalogScan.addToken blk) st).pools = st.pools := by
    intro blk tokens
    induction tokens with
    | nil => exact fun st => rfl
    | cons token tokens ih => exact fun st => ih (st.addToken blk token)
  exact hfold row.deploymentBlock row.assets _

theorem pools_foldl_addPool (rows : List PoolRow) (st : CatalogScan) :
    (rows.foldl CatalogScan.addPool st).pools = st.pools ++ rows := by
  induction rows generalizing st with
  | nil => exact (List.append_nil _).symm
  | cons row rows ih => rw [List.foldl_cons, ih, pools_addPool, List.append_assoc, List.singleton_append]

/-- One log, one pool: the loop adds the row of each log. -/
theorem pools_of_addParsed {parse : EventLog → Except EnumerationFault PoolRow} {logs : List EventLog}
    (h : logs.foldlM (addParsed parse) st = .ok st') :
    ∃ rows, logs.mapM parse = .ok rows ∧ st'.pools = st.pools ++ rows := by
  induction logs generalizing st with
  | nil =>
    obtain rfl := Except.ok.inj h
    exact ⟨[], rfl, (List.append_nil _).symm⟩
  | cons log logs ih =>
    rw [List.foldlM_cons, except_bind_eq_ok_iff] at h
    obtain ⟨next, hnext, hrest⟩ := h
    obtain ⟨row, hrow, hadd⟩ := except_bind_eq_ok_iff.mp hnext
    obtain rfl := Except.ok.inj hadd
    obtain ⟨rows, hrows, hpools⟩ := ih hrest
    refine ⟨row :: rows, ?_, ?_⟩
    · rw [List.mapM_cons, hrow, except_ok_bind, hrows]
      rfl
    · rw [hpools, pools_addPool, List.append_assoc, List.singleton_append]

theorem mem_of_addParsed {parse : EventLog → Except EnumerationFault PoolRow} {logs : List EventLog}
    (h : logs.foldlM (addParsed parse) st = .ok st') :
    ∃ rows, st'.pools = st.pools ++ rows ∧ ∀ row, row ∈ rows ↔ ∃ log ∈ logs, parse log = .ok row := by
  obtain ⟨rows, hrows, hpools⟩ := pools_of_addParsed h
  refine ⟨rows, hpools, fun row => ⟨exists_of_mem_mapM hrows, fun ⟨log, hlog, hrow⟩ => ?_⟩⟩
  obtain ⟨other, hother, hparse⟩ := exists_of_mem_of_mapM hrows hlog
  obtain rfl := Except.ok.inj (hrow.symm.trans hparse)
  exact hother

/-! ## The join of two events -/

/-- The last matching log up to the block whose second topic is the key. -/
structure PoolChain.LastFor (chain : PoolChain) (address topic0 key : String) (hi : Int) (log : EventLog) :
    Prop where
  isMatch : log.matches address (some topic0) = true
  keyed : topicAt log 1 = .ok key
  le : (log.blockNumber : Int) ≤ hi
  last : ∃ earlier later, chain.logs = earlier ++ log :: later ∧ ∀ x ∈ later,
    x.matches address (some topic0) = true → topicAt x 1 = .ok key → hi < x.blockNumber

/-- The last log up to a block is the last one up to an earlier block that it is not above. -/
theorem PoolChain.LastFor.of_le {address topic0 key : String} {log : EventLog} {last : Int}
    (h : chain.LastFor address topic0 key last log) (hlog : (log.blockNumber : Int) ≤ hi) (hle : hi ≤ last) :
    chain.LastFor address topic0 key hi log := by
  obtain ⟨earlier, later, hchain, hlater⟩ := h.last
  refine ⟨h.isMatch, h.keyed, hlog, earlier, later, hchain, fun x hx hmatches hkey => ?_⟩
  have := hlater x hx hmatches hkey
  omega

/-- A scanned dictionary has, under each key, the value of the last log of its window with that key. -/
theorem get?_of_scan {ν : Type} {parse : EventLog → Except EnumerationFault (String × ν)}
    (hkeyed : ∀ log entry, parse log = .ok entry → topicAt log 1 = .ok entry.1) {address topic0 : String}
    {lo : Int} {d : Dict String ν}
    (h : (chain.window address (some topic0) lo hi).foldlM (setEntry parse) .empty = .ok d) {key : String}
    {value : ν} : d.get? key = some value ↔ ∃ log, chain.LastFor address topic0 key hi log ∧
      lo ≤ log.blockNumber ∧ parse log = .ok (key, value) := by
  have hset : Dict.setAll parse (chain.window address (some topic0) lo hi) .empty = .ok d := h
  have hnone : ¬ (Dict.empty : Dict String ν).get? key = some value := by
    intro hget
    cases hget
  rw [Dict.get?_setAll hset, or_iff_left fun hempty => hnone hempty.1]
  constructor
  · rintro ⟨before, log, after, hsplit, hparse, hafter⟩
    obtain ⟨earlier, later, hchain, -, hlater⟩ := exists_append_of_filter hsplit
    have hlog : log ∈ chain.window address (some topic0) lo hi :=
      hsplit ▸ List.mem_append_right _ List.mem_cons_self
    obtain ⟨-, hmatches, hlo, hhi⟩ := PoolChain.mem_window.mp hlog
    refine ⟨log, ⟨hmatches, hkeyed _ _ hparse, hhi, earlier, later, hchain, ?_⟩, hlo, hparse⟩
    intro x hx hxmatches hxkey
    by_contra hle
    have hblock := (PoolChain.blocks_of_append hchain).2 x hx
    -- a later log with the key would be in the window, after this one
    have hmem : x ∈ after := by
      rw [← hlater, List.mem_filter]
      refine ⟨hx, ?_⟩
      simp only [hxmatches, Bool.true_and, Bool.and_eq_true, decide_eq_true_eq]
      omega
    have hwindow : x ∈ chain.window address (some topic0) lo hi :=
      hsplit ▸ List.mem_append_right _ (List.mem_cons_of_mem _ hmem)
    obtain ⟨entry, hentry⟩ := Dict.exists_entry_of_setAll hset x hwindow
    exact hafter x hmem entry hentry (Except.ok.inj ((hkeyed _ _ hentry).symm.trans hxkey))
  · rintro ⟨log, hlast, hlo, hparse⟩
    obtain ⟨earlier, later, hchain, hlater⟩ := hlast.last
    have hle := hlast.le
    have hpasses : (log.matches address (some topic0) && lo ≤ log.blockNumber &&
        log.blockNumber ≤ hi : Bool) = true := by
      simp only [hlast.isMatch, Bool.true_and, Bool.and_eq_true, decide_eq_true_eq]
      omega
    unfold PoolChain.window
    rw [hchain, List.filter_append, List.filter_cons_of_pos (by exact hpasses)]
    refine ⟨_, log, _, rfl, hparse, fun x hx entry hentry heq => ?_⟩
    obtain ⟨hx, hxpasses⟩ := List.mem_filter.mp hx
    simp only [Bool.and_eq_true, decide_eq_true_eq] at hxpasses
    have := hlater x hx hxpasses.1.1 (heq ▸ hkeyed _ _ hentry)
    omega

theorem keyed_registrationEntry (log : EventLog) (entry : String × (String × Nat))
    (h : registrationEntry log = .ok entry) : topicAt log 1 = .ok entry.1 := by
  obtain ⟨poolId, hpoolId, hrest⟩ := except_bind_eq_ok_iff.mp h
  obtain ⟨pool, -, hentry⟩ := except_bind_eq_ok_iff.mp hrest
  obtain rfl := Except.ok.inj hentry
  exact hpoolId

theorem keyed_tokensEntry (log : EventLog) (entry : String × List String)
    (h : tokensEntry log = .ok entry) : topicAt log 1 = .ok entry.1 := by
  obtain ⟨poolId, hpoolId, hentry⟩ := except_bind_eq_ok_iff.mp h
  obtain rfl := Except.ok.inj hentry
  exact hpoolId

/-- A pool is joined when its tokens are known, and some of them are not its own. -/
theorem mem_of_join {registered : Registrations} {toks : Dict String (List String)} :
    row ∈ registered.entries.filterMap (balancerV2Pool toks) ↔
      ∃ poolId pool block tokens, registered.get? poolId = some (pool, block) ∧
        toks.get? poolId = some tokens ∧ balancerV2Row poolId pool block tokens = some row := by
  rw [List.mem_filterMap]
  constructor
  · rintro ⟨⟨poolId, pool, block⟩, hentry, hrow⟩
    refine ⟨poolId, pool, block, ?_⟩
    unfold balancerV2Pool at hrow
    cases htokens : toks.get? poolId with
    | none =>
      rw [htokens] at hrow
      exact absurd hrow (by simp [balancerV2Row])
    | some tokens =>
      rw [htokens, Option.getD_some] at hrow
      exact ⟨tokens, Dict.get?_of_mem hentry, rfl, hrow⟩
  · rintro ⟨poolId, pool, block, tokens, hregistered, htokens, hrow⟩
    refine ⟨(poolId, pool, block), Dict.mem_of_get? hregistered, ?_⟩
    unfold balancerV2Pool
    rw [htokens]
    exact hrow

/-! ## The pools that the vault answers for -/

/-- The vault knows the pool that the log registers, and the row has its tokens. -/
def FromVault (chain : PoolChain) (keccak : String → List UInt8) (hi : Int) (log : EventLog) (row : PoolRow) :
    Prop :=
  ∃ topic pairs, topicAt log 1 = .ok topic ∧ chain.tokenInfo keccak (addrOf topic) hi = some pairs ∧
    row = balancerV3Row (addrOf topic) log.blockNumber pairs

/-- One log: at most the row of its pool, and that row when the calls for the pool are answered. -/
theorem pools_of_addBalancerV3 {log : EventLog} (h : Runs (addBalancerV3 keccak hi st log) t (.ok st'))
    (hexact : ∀ x ∈ t, chain.Exact x) : ∃ rows, st'.pools = st.pools ++ rows ∧
      (∀ row ∈ rows, FromVault chain keccak hi log row) ∧
      ∀ row, FromVault chain keccak hi log row → Answered chain keccak row.address hi t → row ∈ rows := by
  obtain ⟨topic, t₁, t₂, rfl, htopic, hrest⟩ := runs_bind_ok_iff.mp h
  obtain ⟨rfl, hread⟩ := runs_ofExcept_iff.mp htopic
  obtain ⟨info, t₃, t₄, rfl, hcall, hadd⟩ := runs_bind_ok_iff.mp hrest
  obtain ⟨hsome, hall⟩ := poolTokenInfo_spec hcall
    fun x hx => hexact x (List.mem_append_right _ (List.mem_append_left _ hx))
  cases info with
  | some pairs =>
    obtain rfl := Except.ok.inj (runs_ret_iff.mp hadd).2
    refine ⟨[balancerV3Row (addrOf topic) log.blockNumber pairs], pools_addPool _ _, ?_, ?_⟩
    · intro row hrow
      exact ⟨topic, pairs, hread.symm, hsome pairs rfl, List.mem_singleton.mp hrow⟩
    · rintro row ⟨topic', pairs', htopic', hpairs, rfl⟩ -
      obtain rfl := Except.ok.inj (htopic'.symm.trans hread.symm)
      obtain rfl := Option.some.inj ((hsome pairs rfl).symm.trans hpairs)
      exact List.mem_singleton.mpr rfl
  | none =>
    obtain rfl := Except.ok.inj (runs_ret_iff.mp hadd).2
    refine ⟨[], (List.append_nil _).symm, fun row hrow => absurd hrow List.not_mem_nil, ?_⟩
    rintro row ⟨topic', pairs, htopic', hpairs, rfl⟩ hanswered
    obtain rfl := Except.ok.inj (htopic'.symm.trans hread.symm)
    have hnone := hall (hanswered.mono fun x hx => List.mem_append_right _ (List.mem_append_left _ hx))
    rw [hpairs] at hnone
    cases hnone

theorem pools_of_balancerV3Logs {logs : List EventLog}
    (h : Runs (logs.foldlM (addBalancerV3 keccak hi) st) t (.ok st')) (hexact : ∀ x ∈ t, chain.Exact x) :
    ∃ rows, st'.pools = st.pools ++ rows ∧
      (∀ row ∈ rows, ∃ log ∈ logs, FromVault chain keccak hi log row) ∧
      ∀ log ∈ logs, ∀ row, FromVault chain keccak hi log row → Answered chain keccak row.address hi t →
        row ∈ rows := by
  induction logs generalizing st t with
  | nil =>
    obtain rfl := Except.ok.inj (runs_ret_iff.mp h).2
    exact ⟨[], (List.append_nil _).symm, fun row hrow => absurd hrow List.not_mem_nil,
      fun log hlog => absurd hlog List.not_mem_nil⟩
  | cons log logs ih =>
    rw [List.foldlM_cons] at h
    obtain ⟨next, t₁, t₂, rfl, hlog, hlogs⟩ := runs_bind_ok_iff.mp h
    obtain ⟨hexact₁, hexact₂⟩ := List.forall_mem_append.mp hexact
    obtain ⟨first, hfirst, hfrom, hevery⟩ := pools_of_addBalancerV3 hlog hexact₁
    obtain ⟨rest, hrest, hfromRest, heveryRest⟩ := ih hlogs hexact₂
    refine ⟨first ++ rest, by rw [hrest, hfirst, List.append_assoc], ?_, ?_⟩
    · intro row hrow
      rcases List.mem_append.mp hrow with hrow | hrow
      · exact ⟨log, List.mem_cons_self, hfrom row hrow⟩
      · obtain ⟨other, hother, hvault⟩ := hfromRest row hrow
        exact ⟨other, List.mem_cons_of_mem _ hother, hvault⟩
    · intro other hother row hvault hanswered
      rcases List.mem_cons.mp hother with rfl | hother
      · exact List.mem_append_left _
          (hevery row hvault (hanswered.mono fun x hx => List.mem_append_left _ hx))
      · exact List.mem_append_right _
          (heveryRest other hother row hvault (hanswered.mono fun x hx => List.mem_append_right _ hx))

/-! ## The rows of a source -/

/-- The creation events of the source that a scan reads. -/
def PoolChain.creations (chain : PoolChain) (keccak : String → List UInt8) (v3Topic : String)
    (start : Option Int) (hi : Int) (source : PoolSource) : List EventLog :=
  chain.window source.address (some (source.creationTopic keccak v3Topic))
    (lowOf chain start source.address hi) hi

/-- Where a row that a scan of the source emits comes from. -/
inductive Origin (keccak : String → List UInt8) (chain : PoolChain) (v3Topic : String) (start : Option Int)
    (hi : Int) : PoolSource → PoolRow → Prop
  | uniswapV3 {log : EventLog} {row : PoolRow}
      (hlog : log ∈ chain.creations keccak v3Topic start hi .uniswapV3) (hrow : uniswapPool log = .ok row) :
      Origin keccak chain v3Topic start hi .uniswapV3 row
  | swaprV3 {log : EventLog} {row : PoolRow}
      (hlog : log ∈ chain.creations keccak v3Topic start hi .swaprV3) (hrow : swaprPool log = .ok row) :
      Origin keccak chain v3Topic start hi .swaprV3 row
  | balancerV2 {registration tokensLog : EventLog} {poolId pool : String} {block : Nat}
      {tokens : List String} {row : PoolRow}
      (hregistration : chain.LastFor balancerV2Vault (topicV2Registered keccak) poolId hi registration)
      (hregistered : lowOf chain start balancerV2Vault hi ≤ registration.blockNumber)
      (hentry : registrationEntry registration = .ok (poolId, pool, block))
      (htokensLog : chain.LastFor balancerV2Vault (topicV2Tokens keccak) poolId hi tokensLog)
      (htokens : lowOf chain start balancerV2Vault hi ≤ tokensLog.blockNumber)
      (htokensEntry : tokensEntry tokensLog = .ok (poolId, tokens))
      (hrow : balancerV2Row poolId pool block tokens = some row) :
      Origin keccak chain v3Topic start hi .balancerV2 row
  | balancerV3 {log : EventLog} {row : PoolRow}
      (hlog : log ∈ chain.creations keccak v3Topic start hi .balancerV3)
      (hrow : FromVault chain keccak hi log row) : Origin keccak chain v3Topic start hi .balancerV3 row

/-- A scan of one event whose body calls nothing folds over the events that it reads. -/
theorem foldlM_of_scan {σ : Type} {address topic0 : String} {step : σ → EventLog → Except EnumerationFault σ}
    {s s' : σ} (h : Runs (lowBlock start address hi >>= fun lo => foldLogs address topic0 step lo hi s) t
      (.ok s')) (hexact : ∀ x ∈ t, chain.Exact x) :
    (chain.window address (some topic0) (lowOf chain start address hi) hi).foldlM step s = .ok s' := by
  obtain ⟨lo, t₁, t₂, rfl, hlow, hscan⟩ := runs_bind_ok_iff.mp h
  obtain ⟨hexact₁, hexact₂⟩ := List.forall_mem_append.mp hexact
  obtain rfl := lowBlock_eq hlow hexact₁
  exact foldlM_of_runs hscan hexact₂

/-- A scan of the source that returns adds the rows of its origin, and no others; a row of Balancer V3 only
when the calls for its pool are answered. -/
theorem pools_of_enumerateSource (source : PoolSource)
    (h : Runs (enumerateSource keccak start hi st source.name) t (.ok st')) (hexact : ∀ x ∈ t, chain.Exact x)
    (hfirst : RegistersFirst chain keccak v3Topic)
    (hresolved : source = .balancerV3 → ResolutionAnswered chain keccak hi t) :
    ∃ rows, st'.pools = st.pools ++ rows ∧
      (∀ row ∈ rows, Origin keccak chain v3Topic start hi source row) ∧
      ∀ row, Origin keccak chain v3Topic start hi source row →
        (source = .balancerV3 → Answered chain keccak row.address hi t) → row ∈ rows := by
  cases source with
  | uniswapV3 =>
    obtain ⟨rows, hpools, hrows⟩ := mem_of_addParsed (foldlM_of_scan h hexact)
    refine ⟨rows, hpools, fun row hrow => ?_, fun row horigin _ => ?_⟩
    · obtain ⟨log, hlog, hparse⟩ := (hrows row).mp hrow
      exact .uniswapV3 hlog hparse
    · cases horigin with
      | uniswapV3 hlog hparse => exact (hrows row).mpr ⟨_, hlog, hparse⟩
  | swaprV3 =>
    obtain ⟨rows, hpools, hrows⟩ := mem_of_addParsed (foldlM_of_scan h hexact)
    refine ⟨rows, hpools, fun row hrow => ?_, fun row horigin _ => ?_⟩
    · obtain ⟨log, hlog, hparse⟩ := (hrows row).mp hrow
      exact .swaprV3 hlog hparse
    · cases horigin with
      | swaprV3 hlog hparse => exact (hrows row).mpr ⟨_, hlog, hparse⟩
  | balancerV2 =>
    obtain ⟨lo, t₁, t₂, rfl, hlow, hscan⟩ := runs_bind_ok_iff.mp h
    obtain ⟨hexact₁, hexact₂⟩ := List.forall_mem_append.mp hexact
    obtain rfl := lowBlock_eq hlow hexact₁
    obtain ⟨registered, t₃, t₄, rfl, hregistered, hrest⟩ := runs_bind_ok_iff.mp hscan
    obtain ⟨hexact₃, hexact₄⟩ := List.forall_mem_append.mp hexact₂
    obtain ⟨toks, t₅, t₆, rfl, htoks, hjoin⟩ := runs_bind_ok_iff.mp hrest
    obtain ⟨hexact₅, -⟩ := List.forall_mem_append.mp hexact₄
    obtain rfl := Except.ok.inj (runs_ret_iff.mp hjoin).2
    have hregistered := foldlM_of_runs hregistered hexact₃
    have htoks := foldlM_of_runs htoks hexact₅
    refine ⟨registered.entries.filterMap (balancerV2Pool toks), pools_foldl_addPool _ _, ?_, ?_⟩
    · intro row hrow
      obtain ⟨poolId, pool, block, tokens, hget, hgetTokens, hrow⟩ := mem_of_join.mp hrow
      obtain ⟨registration, hlast, hlo, hentry⟩ := (get?_of_scan keyed_registrationEntry hregistered).mp hget
      obtain ⟨tokensLog, hlastTokens, hloTokens, htokens⟩ :=
        (get?_of_scan keyed_tokensEntry htoks).mp hgetTokens
      exact .balancerV2 hlast hlo hentry hlastTokens hloTokens htokens hrow
    · intro row horigin _
      cases horigin with
      | balancerV2 hlast hlo hentry hlastTokens hloTokens htokens hrow =>
        exact mem_of_join.mpr ⟨_, _, _, _,
          (get?_of_scan keyed_registrationEntry hregistered).mpr ⟨_, hlast, hlo, hentry⟩,
          (get?_of_scan keyed_tokensEntry htoks).mpr ⟨_, hlastTokens, hloTokens, htokens⟩, hrow⟩
  | balancerV3 =>
    obtain ⟨topic, t₁, t₂, rfl, hresolve, hrest⟩ := runs_bind_ok_iff.mp h
    obtain ⟨hexact₁, hexact₂⟩ := List.forall_mem_append.mp hexact
    obtain rfl := resolveV3Topic_eq hresolve hexact₁ hfirst
      ((hresolved rfl).mono fun x hx => List.mem_append_left _ hx)
    obtain ⟨lo, t₃, t₄, rfl, hlow, hscan⟩ := runs_bind_ok_iff.mp hrest
    obtain ⟨hexact₃, hexact₄⟩ := List.forall_mem_append.mp hexact₂
    obtain rfl := lowBlock_eq hlow hexact₃
    obtain ⟨t₅, hsub, hloop⟩ := exists_runs_foldlM hscan hexact₄
    obtain ⟨rows, hpools, hfrom, hevery⟩ :=
      pools_of_balancerV3Logs hloop fun x hx => hexact₄ x (hsub.subset hx)
    refine ⟨rows, hpools, fun row hrow => ?_, fun row horigin hanswered => ?_⟩
    · obtain ⟨log, hlog, hvault⟩ := hfrom row hrow
      exact .balancerV3 hlog hvault
    · cases horigin with
      | balancerV3 hlog hvault =>
        apply hevery _ hlog row hvault
        exact (hanswered rfl).mono
          fun x hx => List.mem_append_right _ (List.mem_append_right _ (hsub.subset hx))

/-- The loop over the sources adds the rows of each of them, and no others. -/
theorem pools_of_sources {sources : List PoolSource}
    (h : Runs ((sources.map PoolSource.name).foldlM (enumerateSource keccak start hi) st) t (.ok st'))
    (hexact : ∀ x ∈ t, chain.Exact x) (hfirst : RegistersFirst chain keccak v3Topic)
    (hresolved : ResolutionAnswered chain keccak hi t) :
    ∃ rows, st'.pools = st.pools ++ rows ∧
      (∀ row ∈ rows, ∃ source ∈ sources, Origin keccak chain v3Topic start hi source row) ∧
      ∀ source ∈ sources, ∀ row, Origin keccak chain v3Topic start hi source row →
        (source = .balancerV3 → Answered chain keccak row.address hi t) → row ∈ rows := by
  induction sources generalizing st t with
  | nil =>
    obtain rfl := Except.ok.inj (runs_ret_iff.mp h).2
    exact ⟨[], (List.append_nil _).symm, fun row hrow => absurd hrow List.not_mem_nil,
      fun source hsource => absurd hsource List.not_mem_nil⟩
  | cons source sources ih =>
    rw [List.map_cons, List.foldlM_cons] at h
    obtain ⟨next, t₁, t₂, rfl, hscan, hscans⟩ := runs_bind_ok_iff.mp h
    obtain ⟨hexact₁, hexact₂⟩ := List.forall_mem_append.mp hexact
    obtain ⟨first, hfirstPools, horigins, hevery⟩ := pools_of_enumerateSource source hscan hexact₁ hfirst
      fun _ => hresolved.mono fun x hx => List.mem_append_left _ hx
    obtain ⟨rest, hrestPools, horiginsRest, heveryRest⟩ := ih hscans hexact₂
      (hresolved.mono fun x hx => List.mem_append_right _ hx)
    refine ⟨first ++ rest, by rw [hrestPools, hfirstPools, List.append_assoc], ?_, ?_⟩
    · intro row hrow
      rcases List.mem_append.mp hrow with hrow | hrow
      · exact ⟨source, List.mem_cons_self, horigins row hrow⟩
      · obtain ⟨other, hother, horigin⟩ := horiginsRest row hrow
        exact ⟨other, List.mem_cons_of_mem _ hother, horigin⟩
    · intro other hother row horigin hanswered
      rcases List.mem_cons.mp hother with rfl | hother
      · exact List.mem_append_left _
          (hevery row horigin fun hv3 => (hanswered hv3).mono fun x hx => List.mem_append_left _ hx)
      · exact List.mem_append_right _ (heveryRest other hother row horigin
          fun hv3 => (hanswered hv3).mono fun x hx => List.mem_append_right _ hx)

end CatalogEnumeration

end RpcStateIndexer
