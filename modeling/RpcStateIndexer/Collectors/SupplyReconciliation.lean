import Mathlib.Algebra.BigOperators.Group.Finset.Basic
import RpcStateIndexer.Collectors.Completeness

/-!
# The supply of a token

In full-supply mode the balances of the holders are to add up to the total supply, less what a call of
its own reads at the zero address when that is no holder.  A universe may hold the zero address all the
same, and then it counts twice.
-/

namespace RpcStateIndexer

open Reasoning Program

/-! ## What a supply is made of -/

/-- A collector of relative tolerance 0. -/
def exactCollector (keccak : String → List UInt8) (scale : Nat) : Erc20Collector := ⟨keccak, ⟨0, scale⟩⟩

/-- The addresses whose balances make up the supply, each once. -/
def supplyHolders (token : TokenConfig) (frozen : FrozenUniverse) : Finset String :=
  match token.zeroAddressRole with
  | .eventSentinel => frozen.addresses.toFinset ∪ {zeroAddress}
  | .holder => frozen.addresses.toFinset

/-- The balance that is returned for an address: by the sentinel when it is not in the universe. -/
def returnedBalance (frozen : FrozenUniverse) (batches : List VerifiedBatchResult) (address : String) :
    Nat :=
  (returnOf batches (if address ∈ frozen.addresses then s!"balanceOf/{address}"
    else s!"sentinel/{address}")).getD 0

/-- What the addresses of the universe are returned to hold. -/
def universeSum (frozen : FrozenUniverse) (batches : List VerifiedBatchResult) : Nat :=
  (frozen.addresses.map fun address => (returnOf batches s!"balanceOf/{address}").getD 0).sum

section Reconciliation

variable (keccak : String → List UInt8) (scale : Nat) (token : TokenConfig) (frozen : FrozenUniverse)
  (anchor : BlockRef) (executor : (op : ExecuteOp) → ExecuteAns op)

/-- The batches answer the request of a full supply, and every planned call returned. -/
def FullyAnswered (batches : List VerifiedBatchResult) : Prop :=
  ∃ request, (exactCollector keccak scale).request token frozen anchor .fullSupply = .ok request ∧
    AnsweredWith executor request.specs anchor batches ∧ EveryCallReturned request.specs batches

/-- Every planned call returned, and the balances add up to the total supply. -/
def SupplyReconciles : Prop :=
  ∃ batches, FullyAnswered keccak scale token frozen anchor executor batches ∧
    returnOf batches "scalar/totalSupply" =
      some (∑ address ∈ supplyHolders token frozen, returnedBalance frozen batches address)

/-- The zero address is a sentinel and in the universe, it holds something, and the supply is what the
universe holds with or without counting that again. -/
def SentinelCountedTwice : Prop :=
  token.zeroAddressRole = .eventSentinel ∧ zeroAddress ∈ frozen.addresses ∧
    ∃ batches, FullyAnswered keccak scale token frozen anchor executor batches ∧
      ∃ sentinel supply, returnOf batches s!"sentinel/{zeroAddress}" = some sentinel ∧ sentinel ≠ 0 ∧
        returnOf batches "scalar/totalSupply" = some supply ∧
        (supply = universeSum frozen batches ∨ supply = universeSum frozen batches + sentinel)

end Reconciliation

/-! ## The request -/

section Request

variable {self : Erc20Collector} {token : TokenConfig} {frozen : FrozenUniverse} {anchor : BlockRef}
  {integrityMode : IntegrityMode} {request : TokenRequest}

theorem sentinelSpec_key {spec : UIntCallSpec} (h : sentinelSpec token integrityMode = .ok (some spec)) :
    spec.call.key = s!"sentinel/{zeroAddress}" ∧ token.zeroAddressRole = .eventSentinel := by
  unfold sentinelSpec at h
  by_cases hread : integrityMode = .fullSupply ∧ token.zeroAddressRole = .eventSentinel
  · rw [if_pos hread] at h
    simp only [except_bind_eq_ok_iff, except_pure_eq_ok_iff, Option.some.injEq] at h
    obtain ⟨bytes, -, rfl⟩ := h
    exact ⟨rfl, hread.2⟩
  · rw [if_neg hread] at h
    cases h

theorem sentinelSpec_none (h : sentinelSpec token .fullSupply = .ok none) :
    token.zeroAddressRole = .holder := by
  unfold sentinelSpec at h
  cases hrole : token.zeroAddressRole with
  | holder => rfl
  | eventSentinel =>
    rw [if_pos ⟨rfl, hrole⟩] at h
    simp only [except_bind_eq_ok_iff, except_pure_eq_ok_iff] at h
    obtain ⟨bytes, -, hno⟩ := h
    cases hno

/-- The keys of a request are those of the holders, of the supply functions and of the sentinel. -/
theorem Erc20Collector.keys_request
    (h : self.request token frozen anchor integrityMode = .ok request) :
    request.specs.map (·.call.key) =
      (frozen.addresses.map fun address => s!"balanceOf/{address}") ++
        (token.supplyFunctions.map fun name => s!"scalar/{name}") ++
        request.sentinel.toList.map (·.call.key) := by
  obtain ⟨-, hholders, hscalars, -⟩ := Erc20Collector.request_eq_ok_iff.mp h
  rw [TokenRequest.specs, List.map_append, List.map_append, List.map_map, List.map_map]
  exact congrArg₂ (· ++ ·) (congrArg₂ (· ++ ·) (keys_holderSpecs hholders) (keys_scalarSpecs hscalars)) rfl

/-- The key of a scalar is only there for a supply function of the token. -/
theorem Erc20Collector.mem_of_scalarKey
    (h : self.request token frozen anchor integrityMode = .ok request) {name : String}
    (hmem : s!"scalar/{name}" ∈ request.specs.map (·.call.key)) : name ∈ token.supplyFunctions := by
  rw [Erc20Collector.keys_request h] at hmem
  rcases List.mem_append.mp hmem with hmem | hmem
  · rcases List.mem_append.mp hmem with hmem | hmem
    · obtain ⟨address, -, heq⟩ := List.mem_map.mp hmem
      exact absurd heq (append_ne_append (p := "balanceOf/") (q := "scalar/") (by decide +kernel)
        (by decide +kernel) _ _)
    · obtain ⟨other, hother, heq⟩ := List.mem_map.mp hmem
      obtain rfl : other = name := (String.append_right_inj "scalar/").mp heq
      exact hother
  · obtain ⟨-, -, -, hsentinel⟩ := Erc20Collector.request_eq_ok_iff.mp h
    cases hs : request.sentinel with
    | none =>
      rw [hs] at hmem
      exact absurd hmem List.not_mem_nil
    | some spec =>
      rw [hs] at hmem hsentinel
      have heq : s!"scalar/{name}" = spec.call.key := List.mem_singleton.mp hmem
      rw [(sentinelSpec_key hsentinel).1] at heq
      exact absurd heq (append_ne_append (p := "scalar/") (q := "sentinel/") (by decide +kernel)
        (by decide +kernel) _ _)

theorem Erc20Collector.nodup_request
    (h : self.request token frozen anchor integrityMode = .ok request) :
    (request.specs.map (·.call.key)).Nodup := by
  obtain ⟨hassert, -, hscalars, hsentinel⟩ := Erc20Collector.request_eq_ok_iff.mp h
  rw [Erc20Collector.keys_request h]
  have hholders : (frozen.addresses.map fun address => s!"balanceOf/{address}").Nodup :=
    nodup_prefixed (Erc20Collector.nodup_holders hassert) "balanceOf/"
  have hnames : (token.supplyFunctions.map fun name => s!"scalar/{name}").Nodup :=
    nodup_prefixed (names_scalarSpecs hscalars).2.1 "scalar/"
  have hfirst := List.nodup_append'.mpr ⟨hholders, hnames,
    disjoint_prefixed (p := "balanceOf/") (q := "scalar/") (by decide +kernel) (by decide +kernel) _ _⟩
  cases hs : request.sentinel with
  | none =>
    rw [Option.toList_none, List.map_nil, List.append_nil]
    exact hfirst
  | some spec =>
    rw [hs] at hsentinel
    have hkey : [spec].map (·.call.key) = [zeroAddress].map fun address => s!"sentinel/{address}" := by
      rw [List.map_singleton, List.map_singleton, (sentinelSpec_key hsentinel).1]
    rw [Option.toList_some, hkey]
    refine List.nodup_append'.mpr ⟨hfirst, List.nodup_singleton _, ?_⟩
    rw [List.disjoint_append_left]
    exact ⟨disjoint_prefixed (p := "balanceOf/") (q := "sentinel/") (by decide +kernel)
      (by decide +kernel) _ _, disjoint_prefixed (p := "scalar/") (q := "sentinel/")
      (by decide +kernel) (by decide +kernel) _ _⟩

end Request

/-! ## The verdict on a decoded answer -/

section Verdict

variable {self : Erc20Collector} {token : TokenConfig} {frozen : FrozenUniverse} {anchor : BlockRef}
  {integrityMode : IntegrityMode} {request : TokenRequest} {batches : List VerifiedBatchResult}
  {decoded : DecodedExecution}

/-- What the sentinel of a request returned. -/
def sentinelBalance (request : TokenRequest) (batches : List VerifiedBatchResult) : Option Nat :=
  request.sentinel.bind fun spec => returnOf batches spec.call.key

theorem readSentinel_eq (hnodup : (request.specs.map (·.call.key)).Nodup)
    (h : decodeBatches request.specs anchor batches = .ok decoded)
    (hall : EveryCallReturned request.specs batches) :
    readSentinel decoded request.sentinel = .ok (sentinelBalance request batches, []) := by
  unfold sentinelBalance
  cases hsentinel : request.sentinel with
  | none => rfl
  | some spec =>
    have hspec : spec ∈ request.specs := by
      rw [TokenRequest.specs, hsentinel]
      exact List.mem_append_right _ List.mem_cons_self
    obtain ⟨call, hcall, -, hvalue⟩ := exists_call hnodup h hspec
    obtain ⟨value, hreturned⟩ := Option.isSome_iff_exists.mp (hall spec hspec)
    rw [readSentinel, hcall, except_ok_bind, hvalue, Option.bind_some, hreturned]
    rfl

/-- Without tolerance the balances and the sentinel's are to add up to the supply. -/
theorem supplyCheck_passed_iff (hexact : self.holderSumRelativeTolerance.coefficient = 0)
    {complete : Bool} {balances : List (String × Nat × Nat)} {supply sentinel : Option Nat} :
    (self.supplyCheck .fullSupply complete balances (expectedSupply supply sentinel)).passed = true ↔
      complete = true ∧ supply = some ((balances.map fun x => x.2.1).sum + sentinel.getD 0) := by
  rw [Erc20Collector.supplyCheck, if_pos rfl, Bool.and_eq_true]
  refine and_congr_right fun _ => ?_
  cases supply with
  | none => exact iff_of_false Bool.false_ne_true nofun
  | some supply =>
    have hexpected : expectedSupply (some supply) sentinel =
        some ((supply : Int) - (sentinel.getD 0 : Nat)) := rfl
    rw [hexpected, Option.any_some, holderSumWithinTolerance_zero hexact, Option.some.injEq]
    omega

/-- A collection in full-supply mode without tolerance is verified exactly when every call returned and
the balances and the sentinel's add up to the total supply. -/
theorem verified_materialize_iff (hexact : self.holderSumRelativeTolerance.coefficient = 0)
    (hrequest : self.request token frozen anchor .fullSupply = .ok request)
    (h : decodeBatches request.specs anchor batches = .ok decoded) :
    (∃ result, self.materialize token frozen .fullSupply request decoded = .ok result ∧
        result.verified = true) ↔
      EveryCallReturned request.specs batches ∧
        returnOf batches "scalar/totalSupply" =
          some (universeSum frozen batches + (sentinelBalance request batches).getD 0) := by
  have hnodup := Erc20Collector.nodup_request hrequest
  obtain ⟨-, hholders, hscalars, -⟩ := Erc20Collector.request_eq_ok_iff.mp hrequest
  have hcomplete := complete_iff hnodup h
  by_cases hall : EveryCallReturned request.specs batches
  swap
  · -- The first check fails, whatever the supplies are.
    refine iff_of_false ?_ fun hno => hall hno.1
    rintro ⟨result, hresult, hverified⟩
    unfold Erc20Collector.materialize at hresult
    simp only [except_bind_eq_ok_iff, except_pure_eq_ok_iff] at hresult
    obtain ⟨_, -, _, -, _, -, rfl⟩ := hresult
    simp only [CollectionOutcome.verified, Bool.and_eq_true, List.all_cons] at hverified
    exact hall (hcomplete.mp hverified.2.1)
  · have hholderSpecs : ∀ x ∈ request.holders, x.2 ∈ request.specs := fun _ =>
      TokenRequest.mem_specs_of_holder
    have hscalarSpecs : ∀ x ∈ request.scalars, x.2 ∈ request.specs := fun _ =>
      TokenRequest.mem_specs_of_scalar
    obtain ⟨balances, hbalances, hbalanceValues⟩ := exists_values hnodup h hholderSpecs hall
    obtain ⟨scalars, hscalarSplit, hscalarValues⟩ := exists_values hnodup h hscalarSpecs hall
    have hsum : (balances.map fun x => x.2.1).sum = universeSum frozen batches := by
      have hpairs := (hbalanceValues.trans (filterMap_returned hholderSpecs hall)).trans
        (map_holderSpecs hholders fun key => (returnOf batches key).getD 0)
      have hvalues := congrArg (List.map Prod.snd) hpairs
      rw [List.map_map, List.map_map] at hvalues
      exact congrArg List.sum hvalues
    have hsupply : scalarValue scalars "totalSupply" = returnOf batches "scalar/totalSupply" := by
      refine scalarValue_eq (fun name => s!"scalar/{name}") hscalarValues
        (fun x hx => (readsScalar_scalarSpecs hscalars x hx).key) ?_
      rw [(names_scalarSpecs hscalars).1, or_iff_not_imp_left]
      intro hname
      refine returnOf_eq_none (decodeBatches_eq_ok_iff.mp h).1 fun hmem => hname ?_
      exact Erc20Collector.mem_of_scalarKey hrequest hmem
    have hbatches : decoded.batches.all (fun batch => batch.evidence.verified) = true := by
      obtain ⟨haccepted, rfl⟩ := decodeBatches_eq_ok_iff.mp h
      exact List.all_eq_true.mpr (haccepted.evidence 0)
    unfold Erc20Collector.materialize
    simp only [hbalances, hscalarSplit, readSentinel_eq hnodup h hall, except_ok_bind, hsupply]
    have hpassed : (self.supplyCheck .fullSupply true balances (expectedSupply
        (returnOf batches "scalar/totalSupply") (sentinelBalance request batches))).passed = true ↔ _ :=
      supplyCheck_passed_iff hexact
    rw [hsum, and_iff_right rfl] at hpassed
    rw [and_iff_right hall, ← hpassed, hcomplete.mpr hall]
    constructor
    · rintro ⟨result, hresult, hverified⟩
      obtain rfl := except_pure_eq_ok_iff.mp hresult
      simp only [CollectionOutcome.verified, Bool.and_eq_true, List.all_cons] at hverified
      exact hverified.2.2.1
    · intro hcheck
      refine ⟨_, rfl, ?_⟩
      simp only [CollectionOutcome.verified, List.append_nil, List.isEmpty_nil, hbatches, List.all_cons,
        hcheck, List.all_nil, Bool.and_self]

end Verdict

/-! ## The verdict on a collection -/

section Collection

variable {keccak : String → List UInt8} {scale : Nat} {token : TokenConfig} {frozen : FrozenUniverse}
  {anchor : BlockRef} {executor : (op : ExecuteOp) → ExecuteAns op} {request : TokenRequest}
  {batches : List VerifiedBatchResult}

theorem answeredBy_collect {self : Erc20Collector} {integrityMode : IntegrityMode}
    {result : TokenCollectionResult} :
    answeredBy executor (self.collect token frozen anchor integrityMode) = .ok result ↔
      ∃ request batches decoded, self.request token frozen anchor integrityMode = .ok request ∧
        AnsweredWith executor request.specs anchor batches ∧
        decodeBatches request.specs anchor batches = .ok decoded ∧
        self.materialize token frozen integrityMode request decoded = .ok result :=
  answeredBy_collection fun _ => Erc20Collector.nodup_request

theorem verifies_iff :
    Verifies executor ((exactCollector keccak scale).collect token frozen anchor .fullSupply) ↔
      ∃ request batches,
        (exactCollector keccak scale).request token frozen anchor .fullSupply = .ok request ∧
        AnsweredWith executor request.specs anchor batches ∧ EveryCallReturned request.specs batches ∧
        returnOf batches "scalar/totalSupply" =
          some (universeSum frozen batches + (sentinelBalance request batches).getD 0) := by
  unfold Verifies
  simp only [answeredBy_collect]
  constructor
  · rintro ⟨result, ⟨request, batches, decoded, hrequest, hanswered, hdecode, hresult⟩, hverified⟩
    exact ⟨request, batches, hrequest, hanswered,
      (verified_materialize_iff rfl hrequest hdecode).mp ⟨result, hresult, hverified⟩⟩
  · rintro ⟨request, batches, hrequest, hanswered, hreconciled⟩
    have hdecode := decodeBatches_eq_ok_iff.mpr ⟨hanswered.accepted, rfl⟩
    obtain ⟨result, hresult, hverified⟩ :=
      (verified_materialize_iff rfl hrequest hdecode).mpr hreconciled
    exact ⟨result, ⟨request, batches, _, hrequest, hanswered, hdecode, hresult⟩, hverified⟩

/-- The sum over the addresses that make up the supply, as the collector adds it up. -/
theorem sum_supplyHolders (token : TokenConfig) (batches : List VerifiedBatchResult)
    (hnodup : frozen.addresses.Nodup) :
    ∑ address ∈ supplyHolders token frozen, returnedBalance frozen batches address =
      if token.zeroAddressRole = .eventSentinel ∧ zeroAddress ∉ frozen.addresses then
        universeSum frozen batches + (returnOf batches s!"sentinel/{zeroAddress}").getD 0
      else universeSum frozen batches := by
  have huniverse : ∑ address ∈ frozen.addresses.toFinset, returnedBalance frozen batches address =
      universeSum frozen batches := by
    rw [List.sum_toFinset _ hnodup, universeSum]
    refine congrArg List.sum (List.map_congr_left fun address hmem => ?_)
    rw [returnedBalance, if_pos hmem]
  unfold supplyHolders
  cases token.zeroAddressRole with
  | holder =>
    rw [if_neg (fun hno => nomatch hno.1)]
    exact huniverse
  | eventSentinel =>
    by_cases hzero : zeroAddress ∈ frozen.addresses
    · have hunion : frozen.addresses.toFinset ∪ {zeroAddress} = frozen.addresses.toFinset :=
        Finset.union_eq_left.mpr (Finset.singleton_subset_iff.mpr (List.mem_toFinset.mpr hzero))
      rw [if_neg (fun hno => hno.2 hzero)]
      dsimp only
      rw [hunion]
      exact huniverse
    · have hdisjoint : Disjoint frozen.addresses.toFinset {zeroAddress} :=
        Finset.disjoint_singleton_right.mpr fun hmem => hzero (List.mem_toFinset.mp hmem)
      rw [if_pos ⟨rfl, hzero⟩]
      dsimp only
      rw [Finset.sum_union hdisjoint, huniverse, Finset.sum_singleton, returnedBalance, if_neg hzero]

theorem sentinelBalance_eq
    (hrequest : (exactCollector keccak scale).request token frozen anchor .fullSupply = .ok request) :
    sentinelBalance request batches =
      if token.zeroAddressRole = .eventSentinel then returnOf batches s!"sentinel/{zeroAddress}"
      else none := by
  obtain ⟨-, -, -, hsentinel⟩ := Erc20Collector.request_eq_ok_iff.mp hrequest
  unfold sentinelBalance
  cases hs : request.sentinel with
  | none =>
    rw [hs] at hsentinel
    rw [sentinelSpec_none hsentinel, if_neg (fun hno => nomatch hno)]
    rfl
  | some spec =>
    rw [hs] at hsentinel
    obtain ⟨hkey, hrole⟩ := sentinelSpec_key hsentinel
    rw [if_pos hrole, Option.bind_some, hkey]

/-- The request and its answer are determined. -/
theorem exists_fullyAnswered_iff
    (hrequest : (exactCollector keccak scale).request token frozen anchor .fullSupply = .ok request)
    (hanswered : AnsweredWith executor request.specs anchor batches)
    (hall : EveryCallReturned request.specs batches) {P : List VerifiedBatchResult → Prop} :
    (∃ batches', FullyAnswered keccak scale token frozen anchor executor batches' ∧ P batches') ↔
      P batches := by
  constructor
  · rintro ⟨batches', ⟨request', hrequest', hanswered', -⟩, hP⟩
    obtain rfl := Except.ok.inj (hrequest.symm.trans hrequest')
    obtain rfl := Except.ok.inj (hanswered.answer.symm.trans hanswered'.answer)
    exact hP
  · exact fun hP => ⟨batches, ⟨request, hrequest, hanswered, hall⟩, hP⟩

/-- With an answer in full, the collection is verified exactly when the supply is the sum of the
universe and the sentinel. -/
theorem verifies_answered_iff
    (hrequest : (exactCollector keccak scale).request token frozen anchor .fullSupply = .ok request)
    (hanswered : AnsweredWith executor request.specs anchor batches)
    (hall : EveryCallReturned request.specs batches) :
    Verifies executor ((exactCollector keccak scale).collect token frozen anchor .fullSupply) ↔
      returnOf batches "scalar/totalSupply" =
        some (universeSum frozen batches + (sentinelBalance request batches).getD 0) := by
  rw [verifies_iff]
  constructor
  · rintro ⟨request', batches', hrequest', hanswered', -, hsupply⟩
    obtain rfl := Except.ok.inj (hrequest.symm.trans hrequest')
    obtain rfl := Except.ok.inj (hanswered.answer.symm.trans hanswered'.answer)
    exact hsupply
  · exact fun hsupply => ⟨request, batches, hrequest, hanswered, hall, hsupply⟩

/-- A collection in full-supply mode is verified exactly when the supply reconciles, unless the zero
address, itself a sentinel, is in the universe and what it holds is all that decides. -/
theorem supply_verified_iff (keccak : String → List UInt8) (scale : Nat) (token : TokenConfig)
    (frozen : FrozenUniverse) (anchor : BlockRef) (executor : (op : ExecuteOp) → ExecuteAns op) :
    (Verifies executor ((exactCollector keccak scale).collect token frozen anchor .fullSupply) ↔
        SupplyReconciles keccak scale token frozen anchor executor) ↔
      ¬ SentinelCountedTwice keccak scale token frozen anchor executor := by
  by_cases hfull : ∃ batches, FullyAnswered keccak scale token frozen anchor executor batches
  swap
  · refine iff_of_true (iff_of_false ?_ ?_) ?_
    · rw [verifies_iff]
      rintro ⟨request, batches, hrequest, hanswered, hall, -⟩
      exact hfull ⟨batches, request, hrequest, hanswered, hall⟩
    · exact fun ⟨batches, hanswered, _⟩ => hfull ⟨batches, hanswered⟩
    · exact fun ⟨_, _, batches, hanswered, _⟩ => hfull ⟨batches, hanswered⟩
  obtain ⟨batches, request, hrequest, hanswered, hall⟩ := hfull
  obtain ⟨hassert, -, -, hsentinel⟩ := Erc20Collector.request_eq_ok_iff.mp hrequest
  have hsum := sum_supplyHolders token batches (Erc20Collector.nodup_holders hassert)
  unfold SupplyReconciles SentinelCountedTwice
  rw [verifies_answered_iff hrequest hanswered hall, exists_fullyAnswered_iff hrequest hanswered hall,
    exists_fullyAnswered_iff hrequest hanswered hall, hsum, sentinelBalance_eq hrequest]
  cases hrole : token.zeroAddressRole with
  | holder =>
    rw [if_neg (fun hno => nomatch hno), if_neg (fun hno => nomatch hno.1)]
    exact iff_of_true Iff.rfl fun hno => nomatch hno.1
  | eventSentinel =>
    by_cases hzero : zeroAddress ∈ frozen.addresses
    swap
    · rw [if_pos rfl, if_pos ⟨rfl, hzero⟩]
      exact iff_of_true Iff.rfl fun hno => hzero hno.2.1
    · -- The balance at the zero address is read twice, and what is returned each time is counted.
      obtain ⟨balance, hbalance⟩ : ∃ balance,
          returnOf batches s!"sentinel/{zeroAddress}" = some balance := by
        have hspec : ∃ spec, request.sentinel = some spec :=
          Option.ne_none_iff_exists'.mp fun hnone => by
            rw [hnone] at hsentinel
            exact nomatch hrole.symm.trans (sentinelSpec_none hsentinel)
        obtain ⟨spec, hspec⟩ := hspec
        rw [hspec] at hsentinel
        have hmem : spec ∈ request.specs := by
          rw [TokenRequest.specs, hspec]
          exact List.mem_append_right _ List.mem_cons_self
        rw [← (sentinelSpec_key hsentinel).1]
        exact Option.isSome_iff_exists.mp (hall spec hmem)
      rw [if_pos rfl, if_neg (fun hno => hno.2 hzero), hbalance, Option.getD_some]
      cases returnOf batches "scalar/totalSupply" with
      | none => simp
      | some supply =>
        have htwice : (∃ sentinel supply', some balance = some sentinel ∧ sentinel ≠ 0 ∧
            some supply = some supply' ∧ (supply' = universeSum frozen batches ∨
              supply' = universeSum frozen batches + sentinel)) ↔
            balance ≠ 0 ∧ (supply = universeSum frozen batches ∨
              supply = universeSum frozen batches + balance) := by
          constructor
          · rintro ⟨_, _, ⟨⟩, hne, ⟨⟩, hsupply⟩
            exact ⟨hne, hsupply⟩
          · exact fun ⟨hne, hsupply⟩ => ⟨_, _, rfl, hne, rfl, hsupply⟩
        rw [htwice, Option.some.injEq, Option.some.injEq]
        simp only [hzero, true_and]
        omega

end Collection

/-! ## A universe with the zero address -/

def wrappedAddress : String := "0x1111111111111111111111111111111111111111"

theorem wrappedAddress_isAddress : isAddress wrappedAddress = true := by decide

theorem wrapped_decimals : 18 ≤ 255 := by decide

theorem wrapped_none : ∀ address ∈ ([] : List String), isAddress address = true :=
  fun _ haddress => absurd haddress List.not_mem_nil

theorem wrapped_dates : ∀ first ∈ (none : Option Nat), ∀ last ∈ (none : Option Nat), first < last :=
  fun _ hfirst => absurd hfirst (Option.not_mem_none _)

theorem wrapped_notAlias : wrappedAddress ∉ ([] : List String) := List.not_mem_nil

theorem wrapped_nodup : ([] : List String).Nodup := .nil

theorem wrapped_atoken : TokenClass.weth9Fork = .aaveV3Atoken ∨ TokenClass.weth9Fork = .sparkAtoken →
    BalanceFunction.balanceOf = .scaledBalanceOf ∧ "scaledTotalSupply" ∈ ["totalSupply"] ∧
      (none : Option IndexSourceConfig).isSome = true := by
  rintro (hclass | hclass) <;> cases hclass

theorem wrapped_indexSource : (none : Option IndexSourceConfig).isSome = true →
    TokenClass.weth9Fork = .aaveV3Atoken ∨ TokenClass.weth9Fork = .sparkAtoken :=
  fun hsource => absurd hsource Bool.false_ne_true

theorem wrapped_zeroSeed : ZeroAddressRole.eventSentinel = .eventSentinel →
    zeroAddress ∉ ([] : List String) :=
  fun _ => List.not_mem_nil

def wrappedToken : TokenConfig where
  address := wrappedAddress
  symbol := "WRP"
  decimals := 18
  tokenClass := .weth9Fork
  deploymentBlock := 0
  dateStart := none
  dateEnd := none
  enabled := true
  zeroAddressRole := .eventSentinel
  balanceFunction := .balanceOf
  supplyFunctions := ["totalSupply"]
  discoveryEvents := []
  seedHolders := []
  universeAliases := []
  indexSource := none
  address_ok := wrappedAddress_isAddress
  decimals_ok := wrapped_decimals
  seeds_ok := wrapped_none
  aliases_ok := wrapped_none
  not_own_alias := wrapped_notAlias
  aliases_nodup := wrapped_nodup
  dates_ok := wrapped_dates
  atoken_ok := wrapped_atoken
  index_source_ok := wrapped_indexSource
  zero_seed_ok := wrapped_zeroSeed

def wrappedUniverse : FrozenUniverse where
  addresses := [zeroAddress, wrappedAddress]
  sources := [(zeroAddress, ["alias"]), (wrappedAddress, ["alias"])]
  universeHash := ""

def wrappedAnchor : BlockRef := ⟨10, "0x01", "0x00", 100⟩

/-- The zero address holds 5 of 15. -/
def wrappedAnswer (key : String) : List UInt8 :=
  bytesBE 32 (if key = "scalar/totalSupply" then 15
    else if key = s!"balanceOf/{wrappedAddress}" then 10 else 5)

/-- The calls of the collection, by their keys. -/
def wrappedKeys : List String :=
  [s!"balanceOf/{zeroAddress}", s!"balanceOf/{wrappedAddress}", "scalar/totalSupply",
    s!"sentinel/{zeroAddress}"]

theorem exists_wrappedRequest : ∃ request,
    (exactCollector (fun _ => []) 1).request wrappedToken wrappedUniverse wrappedAnchor .fullSupply =
        .ok request ∧ request.specs.map (·.call.key) = wrappedKeys := by
  have hok : ((exactCollector (fun _ => []) 1).request wrappedToken wrappedUniverse wrappedAnchor
      .fullSupply).isOk = true := by
    decide +kernel
  cases hrequest : (exactCollector (fun _ => []) 1).request wrappedToken wrappedUniverse wrappedAnchor
      .fullSupply with
  | error message =>
    rw [hrequest] at hok
    cases hok
  | ok request =>
    refine ⟨request, rfl, ?_⟩
    obtain ⟨-, -, -, hsentinel⟩ := Erc20Collector.request_eq_ok_iff.mp hrequest
    rw [Erc20Collector.keys_request hrequest]
    cases hs : request.sentinel with
    | none =>
      rw [hs] at hsentinel
      exact nomatch sentinelSpec_none hsentinel
    | some spec =>
      rw [hs] at hsentinel
      rw [Option.toList_some, List.map_singleton, (sentinelSpec_key hsentinel).1]
      rfl

/-- The balances add up to the supply, and the collection is not verified. -/
theorem supply_counts_sentinel_twice :
    ¬ (Verifies (answerCalls wrappedAnswer)
          ((exactCollector (fun _ => []) 1).collect wrappedToken wrappedUniverse wrappedAnchor
            .fullSupply) ↔
        SupplyReconciles (fun _ => []) 1 wrappedToken wrappedUniverse wrappedAnchor
          (answerCalls wrappedAnswer)) := by
  obtain ⟨request, hrequest, hkeys⟩ := exists_wrappedRequest
  have hsize : ∀ key ∈ request.specs.map (·.call.key), (utf8 key).length < 256 ^ 4 := by
    rw [hkeys]
    decide +kernel
  obtain ⟨batches, hanswered, hreturned⟩ := exists_answeredWith wrappedAnswer wrappedAnchor
    (Erc20Collector.nodup_request hrequest) hsize fun _ => length_bytesBE _ _
  have hall : EveryCallReturned request.specs batches := fun spec hspec => by
    rw [hreturned _ (List.mem_map_of_mem hspec)]
    rfl
  rw [hkeys] at hreturned
  have hsum : universeSum wrappedUniverse batches = 15 := by
    have hfirst := hreturned s!"balanceOf/{zeroAddress}" (by decide +kernel)
    have hsecond := hreturned s!"balanceOf/{wrappedAddress}" (by decide +kernel)
    rw [universeSum, wrappedUniverse, List.map_cons, List.map_singleton, hfirst, hsecond]
    decide +kernel
  have hsupply : returnOf batches "scalar/totalSupply" = some 15 :=
    (hreturned _ (by decide +kernel)).trans (by decide +kernel)
  have hsentinel : returnOf batches s!"sentinel/{zeroAddress}" = some 5 :=
    (hreturned _ (by decide +kernel)).trans (by decide +kernel)
  have hnodup : wrappedUniverse.addresses.Nodup := by decide
  unfold SupplyReconciles
  rw [verifies_answered_iff hrequest hanswered hall, exists_fullyAnswered_iff hrequest hanswered hall,
    sum_supplyHolders _ _ hnodup, sentinelBalance_eq hrequest, hsupply, hsum, hsentinel]
  decide

end RpcStateIndexer
