import Mathlib.Data.List.Nodup
import Mathlib.Data.Finset.Card
import Mathlib.Data.Finset.Union
import Mathlib.Order.WithBot
import RpcStateIndexer.Rpc.Classification

/-!
# The endpoint pool

Health-aware selection over a rotating cursor, and the greedy choice of endpoints whose provider groups
are distinct.  The configuration of a pool never changes; the health of its endpoints does.
-/

namespace RpcStateIndexer

/-- What is configured about an endpoint. -/
structure EndpointConfig where
  name : String
  url : String
  providerGroup : String
  supportsHttpBatch : Bool
  supportsEip1898 : Bool
  archiveFromBlock : Option Nat
  deriving DecidableEq

/-- Whether the archive reaches the block, as far as it is configured. -/
def EndpointConfig.Reaches (c : EndpointConfig) (block : Nat) : Prop :=
  (c.archiveFromBlock.all fun first => first ≤ block) = true

/-- What is known about an endpoint now; `cooldownUntil` is a monotonic instant, or infinity. -/
structure EndpointHealth where
  healthy : Bool := true
  consecutiveFailures : Nat := 0
  cooldownUntil : WithTop Nat := 0
  archiveUnavailableThrough : Option Nat := none
  deriving DecidableEq

structure Endpoint where
  config : EndpointConfig
  health : EndpointHealth := {}
  deriving DecidableEq

namespace Endpoint

def providerGroup (e : Endpoint) : String := e.config.providerGroup

/-- Whether the archive state of the block is known to be out of reach. -/
def archiveReaches (e : Endpoint) (block : Nat) : Bool :=
  (e.config.archiveFromBlock.all fun first => first ≤ block) &&
    e.health.archiveUnavailableThrough.all fun last => last < block

def canServe (e : Endpoint) (now : Nat) (historicalBlock : Option Nat) : Bool :=
  if !e.health.healthy && (now : WithTop Nat) < e.health.cooldownUntil then false
  else historicalBlock.all e.archiveReaches

end Endpoint

structure EndpointPool where
  endpoints : List Endpoint
  cursor : Nat
  nonempty : endpoints ≠ []
  names_nodup : (endpoints.map fun e => e.config.name).Nodup

namespace EndpointPool

def configs (pool : EndpointPool) : List EndpointConfig := pool.endpoints.map Endpoint.config

/-- The conditions of `select` on one endpoint. -/
def selectable (now : Nat) (historicalBlock : Option Nat) (requireEip1898 : Bool)
    (exclude : List String) (e : Endpoint) : Bool :=
  e.config.name ∉ exclude && (!requireEip1898 || e.config.supportsEip1898) &&
    e.canServe now historicalBlock

/-- The first selectable endpoint from the cursor on; the cursor moves past it.  `clock` is what the clock
says when the endpoint of a name is looked at. -/
def selectAt (pool : EndpointPool) (clock : String → Nat) (historicalBlock : Option Nat)
    (requireEip1898 : Bool) (exclude : List String) : Except RpcFault EndpointConfig × EndpointPool :=
  let count := pool.endpoints.length
  let order := (List.range count).map fun offset => (pool.cursor + offset) % count
  match order.find? fun index =>
      pool.endpoints[index]?.any fun e =>
        selectable (clock e.config.name) historicalBlock requireEip1898 exclude e with
  | some index =>
    match pool.endpoints[index]? with
    | some e => (.ok e.config, { pool with cursor := (index + 1) % count })
    | none => (.error (.noHealthyEndpoint "no RPC endpoint can serve the request"), pool)
  | none => (.error (.noHealthyEndpoint "no RPC endpoint can serve the request"), pool)

/-- The same at one instant. -/
def select (pool : EndpointPool) (now : Nat) (historicalBlock : Option Nat) (requireEip1898 : Bool)
    (exclude : List String) : Except RpcFault EndpointConfig × EndpointPool :=
  pool.selectAt (fun _ => now) historicalBlock requireEip1898 exclude

/-- One pass over the endpoints, with what has been selected so far, until there are `count`. -/
def selectGroups (count : Nat) (servable : Endpoint → Bool) :
    List Endpoint → List Endpoint → Except RpcFault (List Endpoint)
  | [], selected =>
    .error (.noHealthyEndpoint
      s!"need {count} healthy distinct provider groups; found {selected.length}")
  | e :: rest, selected =>
    if e.providerGroup ∈ selected.map Endpoint.providerGroup then
      selectGroups count servable rest selected
    else if !servable e then selectGroups count servable rest selected
    else if (selected ++ [e]).length = count then .ok (selected ++ [e])
    else selectGroups count servable rest (selected ++ [e])

def selectDistinctGroupsAt (pool : EndpointPool) (clock : String → Nat) (count : Nat)
    (historicalBlock : Option Nat) : Except RpcFault (List EndpointConfig) := do
  if count < 1 then throw (.valueError "quorum count must be positive")
  let selected ← selectGroups count (fun e => e.canServe (clock e.config.name) historicalBlock)
    pool.endpoints []
  return selected.map Endpoint.config

def selectDistinctGroups (pool : EndpointPool) (now : Nat) (count : Nat)
    (historicalBlock : Option Nat) : Except RpcFault (List EndpointConfig) :=
  pool.selectDistinctGroupsAt (fun _ => now) count historicalBlock

/-- The health of one endpoint is replaced. -/
def setHealth (pool : EndpointPool) (name : String) (update : EndpointHealth → EndpointHealth) :
    EndpointPool where
  endpoints := pool.endpoints.map fun e =>
    if e.config.name = name then { e with health := update e.health } else e
  cursor := pool.cursor
  nonempty := by simpa using pool.nonempty
  names_nodup := by
    have hnames : (pool.endpoints.map fun e =>
        if e.config.name = name then { e with health := update e.health } else e).map
          (fun e => e.config.name) = pool.endpoints.map fun e => e.config.name := by
      rw [List.map_map]
      apply List.map_congr_left
      intro e _
      by_cases he : e.config.name = name <;> simp [he]
    rw [hnames]
    exact pool.names_nodup

def recordSuccess (pool : EndpointPool) (name : String) : EndpointPool :=
  pool.setHealth name fun h =>
    { h with healthy := true, consecutiveFailures := 0, cooldownUntil := 0 }

/-- `ticks` are the units of the monotonic clock in a second. -/
def recordFailure (pool : EndpointPool) (now ticks : Nat) (name : String) (failover : Bool)
    (historicalBlock : Option Nat) (archiveUnavailable : Bool) : EndpointPool :=
  pool.setHealth name fun h =>
    let failures := h.consecutiveFailures + 1
    let through := match historicalBlock with
      | some block =>
        if archiveUnavailable then some (max (h.archiveUnavailableThrough.getD 0) block)
        else h.archiveUnavailableThrough
      | none => h.archiveUnavailableThrough
    if failover then
      { healthy := false
        consecutiveFailures := failures
        cooldownUntil := ((now + ticks * min 60 (2 ^ min failures 6) : Nat) : WithTop Nat)
        archiveUnavailableThrough := through }
    else { h with consecutiveFailures := failures, archiveUnavailableThrough := through }

/-! ## What a selection guarantees -/

/-- A selected endpoint is one of the pool's that is selectable now. -/
theorem selectAt_eq_ok {pool : EndpointPool} {clock : String → Nat} {historicalBlock : Option Nat}
    {requireEip1898 : Bool} {exclude : List String} {c : EndpointConfig}
    (h : (pool.selectAt clock historicalBlock requireEip1898 exclude).1 = .ok c) :
    ∃ e ∈ pool.endpoints, e.config = c ∧
      selectable (clock e.config.name) historicalBlock requireEip1898 exclude e = true := by
  rw [selectAt] at h
  split at h
  · next index hfound =>
    split at h
    · next e he =>
      refine ⟨e, List.mem_of_getElem? he, Except.ok.inj h, ?_⟩
      have hany := List.find?_some hfound
      rw [he] at hany
      exact hany
    · exact absurd h nofun
  · exact absurd h nofun

theorem select_eq_ok {pool : EndpointPool} {now : Nat} {historicalBlock : Option Nat}
    {requireEip1898 : Bool} {exclude : List String} {c : EndpointConfig}
    (h : (pool.select now historicalBlock requireEip1898 exclude).1 = .ok c) :
    ∃ e ∈ pool.endpoints, e.config = c ∧
      selectable now historicalBlock requireEip1898 exclude e = true :=
  selectAt_eq_ok h

/-- The order from the cursor on passes every index. -/
theorem mem_order (pool : EndpointPool) {i : Nat} (hi : i < pool.endpoints.length) :
    i ∈ (List.range pool.endpoints.length).map fun offset =>
      (pool.cursor + offset) % pool.endpoints.length := by
  have hcursor := Nat.mod_lt pool.cursor (Nat.zero_lt_of_lt hi)
  refine List.mem_map.mpr ⟨(i + (pool.endpoints.length - pool.cursor % pool.endpoints.length))
    % pool.endpoints.length, List.mem_range.mpr (Nat.mod_lt _ (Nat.zero_lt_of_lt hi)), ?_⟩
  have hsum : pool.cursor % pool.endpoints.length
      + (i + (pool.endpoints.length - pool.cursor % pool.endpoints.length))
      = i + pool.endpoints.length := by omega
  rw [Nat.add_mod_mod, ← Nat.mod_add_mod, hsum, Nat.add_mod_right, Nat.mod_eq_of_lt hi]

/-- A selection fails only when no endpoint is selectable. -/
theorem select_eq_error {pool : EndpointPool} {now : Nat} {historicalBlock : Option Nat}
    {requireEip1898 : Bool} {exclude : List String} {fault : RpcFault}
    (h : (pool.select now historicalBlock requireEip1898 exclude).1 = .error fault) :
    (∃ message, fault = .noHealthyEndpoint message) ∧
      ∀ e ∈ pool.endpoints, selectable now historicalBlock requireEip1898 exclude e = false := by
  rw [select, selectAt] at h
  split at h
  · next index hfound =>
    have hany := List.find?_some hfound
    split at h
    · exact absurd h nofun
    · next hnone =>
      rw [hnone] at hany
      exact absurd hany nofun
  · next hnone =>
    refine ⟨⟨_, (Except.error.inj h).symm⟩, fun e he => ?_⟩
    obtain ⟨i, hi, rfl⟩ := List.mem_iff_getElem.mp he
    have hmem := mem_order pool hi
    have hfalse := List.find?_eq_none.mp hnone i hmem
    rw [List.getElem?_eq_getElem hi] at hfalse
    simpa using hfalse

/-- Whatever the health, a selection for a block names an endpoint whose archive reaches the block. -/
theorem reaches_of_select {pool : EndpointPool} {now block : Nat} {requireEip1898 : Bool}
    {exclude : List String} {c : EndpointConfig}
    (h : (pool.select now (some block) requireEip1898 exclude).1 = .ok c) :
    c ∈ pool.configs ∧ c.Reaches block := by
  obtain ⟨e, he, rfl, hselectable⟩ := select_eq_ok h
  refine ⟨List.mem_map_of_mem he, ?_⟩
  simp only [selectable, Bool.and_eq_true, Endpoint.canServe] at hselectable
  have hserves := hselectable.2
  split at hserves
  · exact absurd hserves Bool.false_ne_true
  · rw [Option.all_some, Endpoint.archiveReaches, Bool.and_eq_true] at hserves
    exact hserves.1

theorem supportsEip1898_of_select {pool : EndpointPool} {now : Nat} {historicalBlock : Option Nat}
    {exclude : List String} {c : EndpointConfig}
    (h : (pool.select now historicalBlock true exclude).1 = .ok c) : c.supportsEip1898 = true := by
  obtain ⟨e, -, rfl, hselectable⟩ := select_eq_ok h
  simp only [selectable, Bool.and_eq_true] at hselectable
  simpa using hselectable.1.2

/-! ## A pool of which one endpoint is left -/

/-- All endpoints but one are cooling down without an end. -/
def onlyUp (pool : EndpointPool) (c : EndpointConfig) : EndpointPool where
  endpoints := pool.endpoints.map fun e =>
    { e with health := if e.config = c then {} else { healthy := false, cooldownUntil := ⊤ } }
  cursor := pool.cursor
  nonempty := by simpa using pool.nonempty
  names_nodup := by
    rw [List.map_map]
    exact pool.names_nodup

theorem configs_onlyUp (pool : EndpointPool) (c : EndpointConfig) :
    (pool.onlyUp c).configs = pool.configs := by
  rw [configs, onlyUp, List.map_map]
  rfl

theorem selectable_onlyUp {pool : EndpointPool} {c : EndpointConfig} {now : Nat}
    {historicalBlock : Option Nat} {requireEip1898 : Bool} {e : Endpoint}
    (he : e ∈ (pool.onlyUp c).endpoints) :
    selectable now historicalBlock requireEip1898 [] e = true ↔
      e.config = c ∧ (requireEip1898 = true → c.supportsEip1898 = true) ∧
        ∀ block, historicalBlock = some block → c.Reaches block := by
  obtain ⟨e', -, rfl⟩ := List.mem_map.mp he
  by_cases hc : e'.config = c
  · subst hc
    cases requireEip1898 <;> cases historicalBlock <;>
      simp [selectable, Endpoint.canServe, Endpoint.archiveReaches, EndpointConfig.Reaches]
  · simp [selectable, Endpoint.canServe, hc]

/-- The endpoint that is left is selected, if its archive reaches the block and it takes hashes where
they are asked for. -/
theorem select_onlyUp {pool : EndpointPool} {c : EndpointConfig} (hc : c ∈ pool.configs) {block : Nat}
    (hreaches : c.Reaches block) (requireEip1898 : Bool) :
    if requireEip1898 = true → c.supportsEip1898 = true then
      ((pool.onlyUp c).select 0 (some block) requireEip1898 []).1 = .ok c
    else ∃ message, ((pool.onlyUp c).select 0 (some block) requireEip1898 []).1
      = .error (.noHealthyEndpoint message) := by
  cases hselect : ((pool.onlyUp c).select 0 (some block) requireEip1898 []).1 with
  | ok c' =>
    obtain ⟨e, he, rfl, hselectable⟩ := select_eq_ok hselect
    obtain ⟨rfl, hkind, -⟩ := (selectable_onlyUp he).mp hselectable
    rw [if_pos hkind]
  | error fault =>
    obtain ⟨⟨message, rfl⟩, hnone⟩ := select_eq_error hselect
    rw [if_neg]
    · exact ⟨message, rfl⟩
    · intro hkind
      rw [← configs_onlyUp pool c, configs, List.mem_map] at hc
      obtain ⟨e, he, hconfig⟩ := hc
      have hselectable : selectable 0 (some block) requireEip1898 [] e = true := by
        refine (selectable_onlyUp he).mpr ⟨hconfig, hkind, fun _ hblock => ?_⟩
        obtain rfl := Option.some.inj hblock
        exact hreaches
      exact absurd (hnone e he) (by rw [hselectable]; exact Bool.noConfusion)

/-! ## The distinct provider groups -/

/-- The provider groups that have a servable endpoint. -/
def servableGroups (servable : Endpoint → Bool) (endpoints : List Endpoint) : Finset String :=
  ((endpoints.filter servable).map Endpoint.providerGroup).toFinset

theorem servableGroups_cons (servable : Endpoint → Bool) (e : Endpoint) (rest : List Endpoint) :
    servableGroups servable (e :: rest) =
      if servable e = true then insert (e.providerGroup) (servableGroups servable rest)
      else servableGroups servable rest := by
  by_cases he : servable e = true
  · simp [servableGroups, he]
  · simp [servableGroups, he]

/-- The pass fails when the groups already chosen and the servable ones left are too few, and selects
endpoints of as many distinct groups as were asked for otherwise. -/
theorem selectGroups_spec {count : Nat} {servable : Endpoint → Bool} {endpoints selected : List Endpoint}
    (hfew : selected.length < count) (hdistinct : (selected.map Endpoint.providerGroup).Nodup) :
    (∀ s, selectGroups count servable endpoints selected = .ok s →
      s.length = count ∧ (s.map Endpoint.providerGroup).Nodup ∧
        ∀ e ∈ s, e ∈ selected ∨ e ∈ endpoints ∧ servable e = true) ∧
    ((∃ e, selectGroups count servable endpoints selected = .error e) ↔
      ((selected.map Endpoint.providerGroup).toFinset ∪ servableGroups servable endpoints).card < count) := by
  induction endpoints generalizing selected with
  | nil =>
    refine ⟨fun s hs => absurd hs nofun, fun _ => ?_, fun _ => ⟨_, rfl⟩⟩
    simpa [servableGroups, List.toFinset_card_of_nodup hdistinct] using hfew
  | cons e rest ih =>
    have hkeep : ∀ {s : List Endpoint},
        (∀ x ∈ s, x ∈ selected ∨ x ∈ rest ∧ servable x = true) →
        ∀ x ∈ s, x ∈ selected ∨ x ∈ e :: rest ∧ servable x = true := by
      intro s hs x hx
      exact (hs x hx).imp id fun hrest => ⟨List.mem_cons_of_mem e hrest.1, hrest.2⟩
    rw [selectGroups, servableGroups_cons]
    by_cases hchosen : e.providerGroup ∈ selected.map Endpoint.providerGroup
    · -- A group that is chosen already adds nothing to the union.
      obtain ⟨hok, herror⟩ := ih hfew hdistinct
      have hunion : (selected.map Endpoint.providerGroup).toFinset ∪ insert (e.providerGroup) (servableGroups servable rest)
          = (selected.map Endpoint.providerGroup).toFinset ∪ servableGroups servable rest := by
        rw [Finset.union_insert, Finset.insert_eq_of_mem]
        exact Finset.mem_union_left _ (List.mem_toFinset.mpr hchosen)
      have hsame : ((selected.map Endpoint.providerGroup).toFinset ∪ if servable e = true then
          insert (e.providerGroup) (servableGroups servable rest) else servableGroups servable rest)
          = (selected.map Endpoint.providerGroup).toFinset ∪ servableGroups servable rest := by
        by_cases he : servable e = true
        · rw [if_pos he, hunion]
        · rw [if_neg he]
      rw [if_pos hchosen, hsame]
      refine ⟨fun s hs => ?_, herror⟩
      obtain ⟨hlen, hnodup, hmem⟩ := hok s hs
      exact ⟨hlen, hnodup, hkeep hmem⟩
    · rw [if_neg hchosen]
      by_cases he : servable e = true
      · have hgroups : (selected ++ [e]).map Endpoint.providerGroup = selected.map Endpoint.providerGroup ++ [e.providerGroup] := by simp
        have hdistinct' : ((selected ++ [e]).map Endpoint.providerGroup).Nodup := by
          rw [hgroups, List.nodup_append]
          refine ⟨hdistinct, List.nodup_singleton _, ?_⟩
          intro x hx y hy
          rw [List.mem_singleton.mp hy]
          rintro rfl
          exact hchosen hx
        have hfinset : (selected.map Endpoint.providerGroup).toFinset ∪ insert (e.providerGroup) (servableGroups servable rest)
            = ((selected ++ [e]).map Endpoint.providerGroup).toFinset ∪ servableGroups servable rest := by
          rw [hgroups, List.toFinset_append, List.toFinset_cons, List.toFinset_nil]
          ext x
          simp only [Finset.mem_union, Finset.mem_insert, List.mem_toFinset, Finset.notMem_empty]
          tauto
        have hmem : ∀ x ∈ selected ++ [e], x ∈ selected ∨ x ∈ e :: rest ∧ servable x = true := by
          intro x hx
          rcases List.mem_append.mp hx with hx | hx
          · exact .inl hx
          · rw [List.mem_singleton.mp hx]
            exact .inr ⟨List.mem_cons_self, he⟩
        simp only [he, Bool.not_true, Bool.false_eq_true, if_false, if_true, hfinset]
        by_cases hfull : (selected ++ [e]).length = count
        · rw [if_pos hfull]
          refine ⟨fun s hs => ?_, fun ⟨_, herror⟩ => absurd herror nofun, fun hcard => ?_⟩
          · obtain rfl := Except.ok.inj hs
            exact ⟨hfull, hdistinct', hmem⟩
          · have hle : ((selected ++ [e]).map Endpoint.providerGroup).toFinset.card ≤
                (((selected ++ [e]).map Endpoint.providerGroup).toFinset ∪
                  servableGroups servable rest).card :=
              Finset.card_le_card Finset.subset_union_left
            rw [List.toFinset_card_of_nodup hdistinct', List.length_map] at hle
            omega
        · rw [if_neg hfull]
          have hfew' : (selected ++ [e]).length < count := by
            rw [List.length_append, List.length_singleton] at hfull ⊢
            omega
          obtain ⟨hok, herror⟩ := ih hfew' hdistinct'
          refine ⟨fun s hs => ?_, herror⟩
          obtain ⟨hlen, hnodup, hall⟩ := hok s hs
          refine ⟨hlen, hnodup, fun x hx => ?_⟩
          rcases hall x hx with hx | ⟨hx, hserve⟩
          · exact hmem x hx
          · exact .inr ⟨List.mem_cons_of_mem e hx, hserve⟩
      · obtain ⟨hok, herror⟩ := ih hfew hdistinct
        simp only [he, Bool.not_false, if_true]
        refine ⟨fun s hs => ?_, herror⟩
        obtain ⟨hlen, hnodup, hmem⟩ := hok s hs
        exact ⟨hlen, hnodup, hkeep hmem⟩

/-- The choice fails exactly when too few groups have a servable endpoint. -/
theorem selectDistinctGroups_error_iff {pool : EndpointPool} {now count : Nat}
    {historicalBlock : Option Nat} (hcount : 1 ≤ count) :
    (∃ e, pool.selectDistinctGroups now count historicalBlock = .error e) ↔
      (servableGroups (fun e => e.canServe now historicalBlock) pool.endpoints).card < count := by
  have hspec := (@selectGroups_spec count (fun e => e.canServe now historicalBlock) pool.endpoints []
    hcount List.nodup_nil).2
  simp only [List.map_nil, List.toFinset_nil, Finset.empty_union] at hspec
  rw [← hspec, selectDistinctGroups, selectDistinctGroupsAt, if_neg (by omega)]
  cases selectGroups count (fun e => e.canServe now historicalBlock) pool.endpoints [] with
  | error e => exact ⟨fun _ => ⟨e, rfl⟩, fun _ => ⟨e, rfl⟩⟩
  | ok s => exact ⟨fun ⟨_, h⟩ => absurd h nofun, fun ⟨_, h⟩ => absurd h nofun⟩

/-- The chosen endpoints are servable ones of the pool, as many as asked for, of distinct groups. -/
theorem selectDistinctGroups_eq_ok {pool : EndpointPool} {now count : Nat}
    {historicalBlock : Option Nat} (hcount : 1 ≤ count) {chosen : List EndpointConfig}
    (h : pool.selectDistinctGroups now count historicalBlock = .ok chosen) :
    chosen.length = count ∧ (chosen.map EndpointConfig.providerGroup).Nodup ∧
      ∀ c ∈ chosen, c ∈ pool.configs := by
  rw [selectDistinctGroups, selectDistinctGroupsAt, if_neg (by omega)] at h
  cases hselected : selectGroups count (fun e => e.canServe now historicalBlock) pool.endpoints [] with
  | error e =>
    rw [hselected] at h
    exact absurd h nofun
  | ok s =>
    rw [hselected] at h
    obtain rfl : s.map Endpoint.config = chosen := Except.ok.inj h
    obtain ⟨hlen, hnodup, hmem⟩ := (@selectGroups_spec count _ pool.endpoints [] hcount
      List.nodup_nil).1 s hselected
    refine ⟨by rw [List.length_map, hlen], by rwa [List.map_map], ?_⟩
    intro c hc
    obtain ⟨e, he, rfl⟩ := List.mem_map.mp hc
    rcases hmem e he with hnone | ⟨hpool, -⟩
    · exact absurd hnone List.not_mem_nil
    · exact List.mem_map_of_mem hpool

end EndpointPool

end RpcStateIndexer
