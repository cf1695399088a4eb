import Mathlib.Data.Rat.Floor
import RpcStateIndexer.Collectors.Completeness

/-!
# The scaled supply of an aToken

Failed calls, a missing index, balances out of range and a supply that does not match all end in one
verdict.  A verified collection has a row for every holder, with the product of its scaled balance and
the index.
-/

namespace RpcStateIndexer

open Reasoning Program

/-! ## The product -/

/-- The product of a scaled balance and an index, to the nearest integer, a tie to the greater one. -/
def rayProduct (scaled index : Nat) : ℤ := round ((scaled * index : ℚ) / 10 ^ 27)

theorem rayProduct_eq (scaled index : Nat) :
    rayProduct scaled index = ((scaled * index + halfRay) / ray : Nat) := by
  have hsum : (scaled * index : ℚ) / 10 ^ 27 + 1 / 2 = ((scaled * index + halfRay : Nat) : ℚ) / (ray : Nat) := by
    rw [halfRay, ray]
    push_cast
    ring
  rw [rayProduct, round_eq, hsum, Rat.floor_natCast_div_natCast, Int.natCast_ediv]

/-- Of words the product is taken exactly when it is a word. -/
theorem rayMulHalfUp_eq_ok_iff {scaled index output : Nat} (hscaled : scaled < 2 ^ 256)
    (hindex : index < 2 ^ 256) :
    rayMulHalfUp scaled index = .ok output ↔
      rayProduct scaled index = output ∧ rayProduct scaled index < 2 ^ 256 := by
  have hmax : uint256Max = 2 ^ 256 - 1 := rfl
  rw [rayProduct_eq, rayMulHalfUp, if_neg (by omega)]
  by_cases hover : uint256Max < ((scaled * index + halfRay) / ray : Nat)
  · rw [if_pos hover]
    exact iff_of_false error_ne_ok fun hno => by omega
  · rw [if_neg hover, Except.ok.injEq, Int.natCast_inj]
    exact ⟨fun heq => ⟨heq, by omega⟩, And.left⟩

/-! ## The request -/

section Request

variable {self : ATokenCollector} {token : TokenConfig} {frozen : FrozenUniverse} {anchor : BlockRef}
  {integrityMode : IntegrityMode} {request : TokenRequest}

/-- The keys of a request are those of the holders, of the supply functions and of the index. -/
theorem ATokenCollector.keys_request
    (h : self.request token frozen anchor integrityMode = .ok request) :
    request.specs.map (·.call.key) =
      (frozen.addresses.map fun address => s!"scaledBalanceOf/{address}") ++
        ((token.supplyFunctions ++ [indexOutputName]).map fun name => s!"scalar/{name}") := by
  obtain ⟨-, hholders, hsentinel, supplies, spec, hscalars, hsupplies, hkey, -⟩ :=
    ATokenCollector.request_spec h
  have hscalarKeys : request.scalars.map (fun x => x.2.call.key) =
      (token.supplyFunctions ++ [indexOutputName]).map fun name => s!"scalar/{name}" := by
    rw [hscalars, List.map_append, List.map_append, keys_scalarSpecs hsupplies, List.map_singleton,
      List.map_singleton, hkey]
  rw [TokenRequest.specs, hsentinel, Option.toList_none, List.append_nil, List.map_append, List.map_map,
    List.map_map]
  exact congrArg₂ (· ++ ·) (keys_holderSpecs hholders) hscalarKeys

theorem ATokenCollector.nodup_request
    (h : self.request token frozen anchor integrityMode = .ok request) :
    (request.specs.map (·.call.key)).Nodup := by
  obtain ⟨haddresses, -, -, supplies, spec, -, hsupplies, -⟩ := ATokenCollector.request_spec h
  obtain ⟨hnames, hnodup, -⟩ := names_scalarSpecs hsupplies
  have hindex : indexOutputName ∉ token.supplyFunctions := by
    rw [← hnames]
    intro hmem
    obtain ⟨x, hx, hname⟩ := List.mem_map.mp hmem
    have hsupply := (readsScalar_scalarSpecs hsupplies x hx).name
    rw [hname] at hsupply
    exact absurd hsupply (by decide)
  rw [ATokenCollector.keys_request h]
  refine List.nodup_append'.mpr ⟨nodup_prefixed haddresses "scaledBalanceOf/",
    nodup_prefixed (List.nodup_append'.mpr ⟨hnodup, List.nodup_singleton _, ?_⟩) "scalar/",
    disjoint_prefixed (p := "scaledBalanceOf/") (q := "scalar/") (by decide +kernel) (by decide +kernel)
      _ _⟩
  exact List.disjoint_singleton.mpr hindex

/-- An aToken has a supply function for its scaled balances. -/
theorem ATokenCollector.scaledTotalSupply_mem
    (h : self.request token frozen anchor integrityMode = .ok request) :
    "scaledTotalSupply" ∈ token.supplyFunctions := by
  unfold ATokenCollector.request ATokenCollector.assertCollectible at h
  simp only [except_bind_eq_ok_iff, check_eq_ok_iff, except_pure_eq_ok_iff] at h
  obtain ⟨-, ⟨-, hatoken, -⟩, -⟩ := h
  rw [TokenConfig.isAtoken, Bool.or_eq_true, decide_eq_true_eq, decide_eq_true_eq] at hatoken
  exact (token.atoken_ok hatoken).2.1

end Request

/-! ## The rows -/

/-- The row of a scaled balance and its product. -/
def scaledRow (index : Nat) (x : String × Nat × Nat) : BalanceRow where
  holderAddress := x.1
  balanceRaw := rayProduct x.2.1 index
  scaledBalanceRaw := some (x.2.1 : Int)
  valueKind := "ray_reconstructed"
  batchSequence := x.2.2

theorem reconstruct_of_lt {index : Nat} {x : String × Nat × Nat} (hscaled : x.2.1 < 2 ^ 256)
    (hindex : index < 2 ^ 256) (hfits : rayProduct x.2.1 index < 2 ^ 256) :
    reconstruct (some index) x = .ok (scaledRow index x) := by
  obtain ⟨output, hproduct⟩ : ∃ output : Nat, rayProduct x.2.1 index = output := ⟨_, rayProduct_eq _ _⟩
  have hray := (rayMulHalfUp_eq_ok_iff hscaled hindex).mpr ⟨hproduct, hfits⟩
  rw [reconstruct]
  dsimp only
  rw [hray, scaledRow, hproduct]

theorem reconstruct_of_not_lt {index : Nat} {x : String × Nat × Nat} (hscaled : x.2.1 < 2 ^ 256)
    (hindex : index < 2 ^ 256) (hfits : ¬ rayProduct x.2.1 index < 2 ^ 256) :
    ∃ e, reconstruct (some index) x = .error e := by
  cases hray : rayMulHalfUp x.2.1 index with
  | ok output => exact absurd ((rayMulHalfUp_eq_ok_iff hscaled hindex).mp hray).2 hfits
  | error message =>
    rw [reconstruct]
    dsimp only
    rw [hray]
    exact ⟨_, rfl⟩

/-- Without an index there is no row. -/
theorem partition_reconstruct_none (scaled : List (String × Nat × Nat)) :
    (partition (scaled.map (reconstruct none))).1 = [] := by
  rw [partition_fst, List.filterMap_map]
  exact List.filterMap_eq_nil_iff.mpr fun _ _ => rfl

/-! ## What is returned -/

def scaledReturned (batches : List VerifiedBatchResult) (address : String) : Nat :=
  (returnOf batches s!"scaledBalanceOf/{address}").getD 0

def indexReturned (batches : List VerifiedBatchResult) : Option Nat :=
  returnOf batches s!"scalar/{indexOutputName}"

/-- No product with the index exceeds a word. -/
def ProductsFit (frozen : FrozenUniverse) (batches : List VerifiedBatchResult) (index : Nat) : Prop :=
  ∀ address ∈ frozen.addresses, rayProduct (scaledReturned batches address) index < 2 ^ 256

/-- The rows are those of the universe, in its order, each with its scaled value and the product. -/
def RowsOfUniverse (frozen : FrozenUniverse) (batches : List VerifiedBatchResult) (index : Nat)
    (rows : List BalanceRow) : Prop :=
  rows.map (fun row => (row.holderAddress, row.scaledBalanceRaw, row.balanceRaw)) =
    frozen.addresses.map fun address => (address, some (scaledReturned batches address : Int),
      rayProduct (scaledReturned batches address) index)

/-- The scaled balances of the universe add up to the scaled total supply. -/
def ScaledSumMatches (frozen : FrozenUniverse) (batches : List VerifiedBatchResult) : Prop :=
  returnOf batches "scalar/scaledTotalSupply" =
    some (frozen.addresses.map (scaledReturned batches)).sum

/-! ## The rows of the pairs read -/

section Pairs

variable {frozen : FrozenUniverse} {batches : List VerifiedBatchResult} {index : Nat}
  {scaled : List (String × Nat × Nat)}
  (hpairs : scaled.map (fun x => (x.1, x.2.1)) =
    frozen.addresses.map fun address => (address, scaledReturned batches address))
include hpairs

theorem scaledReturned_of_mem {x : String × Nat × Nat} (hx : x ∈ scaled) :
    x.1 ∈ frozen.addresses ∧ x.2.1 = scaledReturned batches x.1 := by
  have hmem : (x.1, x.2.1) ∈ scaled.map fun x => (x.1, x.2.1) := List.mem_map_of_mem hx
  rw [hpairs] at hmem
  obtain ⟨address, haddress, heq⟩ := List.mem_map.mp hmem
  obtain ⟨rfl, hvalue⟩ := Prod.mk.inj heq
  exact ⟨haddress, hvalue.symm⟩

theorem word_of_mem {x : String × Nat × Nat} (hx : x ∈ scaled) : x.2.1 < 2 ^ 256 := by
  rw [(scaledReturned_of_mem hpairs hx).2]
  exact getD_returnOf_lt batches _

theorem sum_of_pairs :
    (scaled.map fun x => x.2.1).sum = (frozen.addresses.map (scaledReturned batches)).sum := by
  have hvalues := congrArg (List.map Prod.snd) hpairs
  rw [List.map_map, List.map_map] at hvalues
  exact congrArg List.sum hvalues

theorem length_of_pairs : scaled.length = frozen.size := by
  have hlength := congrArg List.length hpairs
  rw [List.length_map, List.length_map] at hlength
  exact hlength

/-- Products that fit are all rows. -/
theorem partition_of_productsFit (hindex : index < 2 ^ 256) (hfits : ProductsFit frozen batches index) :
    partition (scaled.map (reconstruct (some index))) = (scaled.map (scaledRow index), []) := by
  have hmap : scaled.map (reconstruct (some index)) = (scaled.map (scaledRow index)).map .ok := by
    rw [List.map_map]
    refine List.map_congr_left fun x hx => reconstruct_of_lt (word_of_mem hpairs hx) hindex ?_
    obtain ⟨haddress, hvalue⟩ := scaledReturned_of_mem hpairs hx
    rw [hvalue]
    exact hfits x.1 haddress
  rw [hmap]
  exact partition_map_ok _

/-- A product that does not fit leaves an error. -/
theorem productsFit_of_partition (hindex : index < 2 ^ 256)
    (herrors : (partition (scaled.map (reconstruct (some index)))).2 = []) :
    ProductsFit frozen batches index := by
  intro address haddress
  have hmem : (address, scaledReturned batches address) ∈ scaled.map fun x => (x.1, x.2.1) := by
    rw [hpairs]
    exact List.mem_map_of_mem haddress
  obtain ⟨x, hx, heq⟩ := List.mem_map.mp hmem
  rw [← (Prod.mk.inj heq).2]
  by_contra hnot
  obtain ⟨e, he⟩ := reconstruct_of_not_lt (word_of_mem hpairs hx) hindex hnot
  have hmemError := mem_partition_snd.mpr (he ▸ List.mem_map_of_mem (f := reconstruct (some index)) hx)
  rw [herrors] at hmemError
  exact absurd hmemError List.not_mem_nil

theorem rowsOfUniverse_scaledRow : RowsOfUniverse frozen batches index (scaled.map (scaledRow index)) := by
  have hmap := congrArg (List.map fun x : String × Nat =>
    (x.1, some (x.2 : Int), rayProduct x.2 index)) hpairs
  rw [List.map_map, List.map_map] at hmap
  rw [RowsOfUniverse, List.map_map]
  exact hmap

end Pairs

/-! ## The verdict on a decoded answer -/

section Verdict

variable {self : ATokenCollector} {token : TokenConfig} {frozen : FrozenUniverse} {anchor : BlockRef}
  {request : TokenRequest} {batches : List VerifiedBatchResult} {decoded : DecodedExecution}
  (hrequest : self.request token frozen anchor .scaledFullSupply = .ok request)
include hrequest

theorem scalarValues_scaled {scalars : List (String × Nat × Nat)}
    (hvalues : scalars.map (fun x => (x.1, x.2.1)) = request.scalars.filterMap fun x =>
      (returnOf batches x.2.call.key).map fun value => (x.1, value)) :
    scalarValue scalars indexOutputName = indexReturned batches ∧
      scalarValue scalars "scaledTotalSupply" = returnOf batches "scalar/scaledTotalSupply" := by
  obtain ⟨-, -, -, supplies, spec, hscalars, hsupplies, hkey, -⟩ := ATokenCollector.request_spec hrequest
  have hkeys : ∀ x ∈ request.scalars, x.2.call.key = s!"scalar/{x.1}" := by
    intro x hx
    rw [hscalars] at hx
    rcases List.mem_append.mp hx with hx | hx
    · exact (readsScalar_scalarSpecs hsupplies x hx).key
    · rw [List.mem_singleton.mp hx, hkey]
  have hnames : request.scalars.map Prod.fst = token.supplyFunctions ++ [indexOutputName] := by
    rw [hscalars, List.map_append, (names_scalarSpecs hsupplies).1, List.map_singleton]
  constructor
  · refine scalarValue_eq (fun name => s!"scalar/{name}") hvalues hkeys (.inl ?_)
    rw [hnames]
    exact List.mem_append_right _ List.mem_cons_self
  · refine scalarValue_eq (fun name => s!"scalar/{name}") hvalues hkeys (.inl ?_)
    rw [hnames]
    exact List.mem_append_left _ (ATokenCollector.scaledTotalSupply_mem hrequest)

/-- A full answer has an index. -/
theorem exists_indexReturned (hall : EveryCallReturned request.specs batches) :
    ∃ index, indexReturned batches = some index := by
  have hmem : s!"scalar/{indexOutputName}" ∈ request.specs.map (·.call.key) := by
    rw [ATokenCollector.keys_request hrequest]
    exact List.mem_append_right _ (List.mem_map_of_mem (List.mem_append_right _ List.mem_cons_self))
  obtain ⟨spec, hspec, hkey⟩ := List.mem_map.mp hmem
  rw [indexReturned, ← hkey]
  exact Option.isSome_iff_exists.mp (hall spec hspec)

variable (h : decodeBatches request.specs anchor batches = .ok decoded)
include h

omit hrequest in
/-- The parts of the verdict. -/
theorem verified_parts {scaled scalars : List (String × Nat × Nat)}
    {scaledErrors scalarErrors : List CollectionError} {result : TokenCollectionResult}
    (hscaled : splitCalls decoded request.holders = .ok (scaled, scaledErrors))
    (hscalars : splitCalls decoded request.scalars = .ok (scalars, scalarErrors))
    (hresult : ATokenCollector.materialize token frozen .scaledFullSupply request decoded = .ok result) :
    result.balances = (partition (scaled.map (reconstruct (scalarValue scalars indexOutputName)))).1 ∧
      (result.verified = true ↔
        (scaledErrors = [] ∧ scalarErrors = [] ∧
          (partition (scaled.map (reconstruct (scalarValue scalars indexOutputName)))).2 = []) ∧
        (completenessCheck request.specs.length decoded).1 = true ∧
        result.balances.length = frozen.size ∧
        scalarValue scalars "scaledTotalSupply" = some (scaled.map fun x => x.2.1).sum) := by
  have hbatches : decoded.batches.all (fun batch => batch.evidence.verified) = true := by
    obtain ⟨haccepted, rfl⟩ := decodeBatches_eq_ok_iff.mp h
    exact List.all_eq_true.mpr (haccepted.evidence 0)
  unfold ATokenCollector.materialize at hresult
  simp only [hscaled, hscalars, except_ok_bind, except_pure_eq_ok_iff] at hresult
  subst hresult
  refine ⟨rfl, ?_⟩
  simp only [CollectionOutcome.verified, ATokenCollector.supplyCheck, hbatches, if_true, List.all_cons,
    List.all_nil, Bool.and_eq_true, Bool.and_true, List.isEmpty_iff, List.append_eq_nil_iff,
    decide_eq_true_eq, and_assoc]
  tauto

/-- Without an index the collection has no row. -/
theorem balances_of_no_index (hindex : indexReturned batches = none) {result : TokenCollectionResult}
    (hresult : ATokenCollector.materialize token frozen .scaledFullSupply request decoded = .ok result) :
    result.balances = [] := by
  have hscalarSpecs : ∀ x ∈ request.scalars, x.2 ∈ request.specs := fun _ =>
    TokenRequest.mem_specs_of_scalar
  obtain ⟨scalars, errors, hsplit, hvalues, -⟩ :=
    exists_splitCalls (ATokenCollector.nodup_request hrequest) h hscalarSpecs
  have hscalar := (scalarValues_scaled hrequest hvalues).1
  unfold ATokenCollector.materialize at hresult
  simp only [except_bind_eq_ok_iff, hsplit, except_pure_eq_ok_iff, Except.ok.injEq] at hresult
  obtain ⟨⟨scaled, scaledErrors⟩, -, ⟨_, _⟩, heq, rfl⟩ := hresult
  cases heq
  dsimp only
  rw [hscalar, hindex]
  exact partition_reconstruct_none scaled

/-- A collection in scaled full-supply mode is verified exactly when every call returned, the products
fit and the scaled balances add up; then it has the rows of the universe. -/
theorem exists_verdict_scaled : ∃ result,
    ATokenCollector.materialize token frozen .scaledFullSupply request decoded = .ok result ∧
      (result.verified = true ↔ EveryCallReturned request.specs batches ∧
        ∃ index, indexReturned batches = some index ∧ ProductsFit frozen batches index ∧
          ScaledSumMatches frozen batches) ∧
      (result.verified = true → ∃ index, indexReturned batches = some index ∧
        RowsOfUniverse frozen batches index result.balances) := by
  have hnodup := ATokenCollector.nodup_request hrequest
  have hcomplete := complete_iff hnodup h
  have hholderSpecs : ∀ x ∈ request.holders, x.2 ∈ request.specs := fun _ =>
    TokenRequest.mem_specs_of_holder
  have hscalarSpecs : ∀ x ∈ request.scalars, x.2 ∈ request.specs := fun _ =>
    TokenRequest.mem_specs_of_scalar
  obtain ⟨-, hholders, -⟩ := ATokenCollector.request_spec hrequest
  obtain ⟨result, hresult, -⟩ := ATokenCollector.exists_materialize hrequest hnodup h
  refine ⟨result, hresult, ?_⟩
  by_cases hall : EveryCallReturned request.specs batches
  swap
  · -- The count is not full, whatever else is there.
    obtain ⟨scaled, scaledErrors, hscaled, -⟩ := exists_splitCalls hnodup h hholderSpecs
    obtain ⟨scalars, scalarErrors, hscalars, -⟩ := exists_splitCalls hnodup h hscalarSpecs
    obtain ⟨-, hparts⟩ := verified_parts h hscaled hscalars hresult
    have hunverified : ¬ result.verified = true := fun hverified =>
      hall (hcomplete.mp (hparts.mp hverified).2.1)
    exact ⟨iff_of_false hunverified fun hno => hall hno.1, fun hverified => absurd hverified hunverified⟩
  obtain ⟨scaled, hscaled, hscaledValues⟩ := exists_values hnodup h hholderSpecs hall
  obtain ⟨scalars, hscalars, hscalarValues⟩ := exists_values hnodup h hscalarSpecs hall
  obtain ⟨hindexValue, hsupplyValue⟩ := scalarValues_scaled hrequest hscalarValues
  have hpairs : scaled.map (fun x => (x.1, x.2.1)) =
      frozen.addresses.map fun address => (address, scaledReturned batches address) :=
    (hscaledValues.trans (filterMap_returned hholderSpecs hall)).trans
      (map_holderSpecs hholders fun key => (returnOf batches key).getD 0)
  obtain ⟨index, hindex⟩ := exists_indexReturned hrequest hall
  obtain ⟨hbalances, hparts⟩ := verified_parts h hscaled hscalars hresult
  rw [hindexValue, hindex] at hbalances hparts
  rw [hsupplyValue, sum_of_pairs hpairs] at hparts
  have hindexWord := returnOf_lt hindex
  by_cases hfits : ProductsFit frozen batches index
  · rw [partition_of_productsFit hpairs hindexWord hfits] at hbalances hparts
    have hsize : result.balances.length = frozen.size := by
      rw [hbalances, List.length_map]
      exact length_of_pairs hpairs
    refine ⟨?_, fun _ => ⟨index, hindex, hbalances ▸ rowsOfUniverse_scaledRow hpairs⟩⟩
    rw [hparts]
    constructor
    · exact fun hverified => ⟨hall, index, hindex, hfits, hverified.2.2.2⟩
    · exact fun ⟨_, _, _, _, hsupply⟩ =>
        ⟨⟨rfl, rfl, rfl⟩, hcomplete.mpr hall, hsize, hsupply⟩
  · have hunverified : ¬ result.verified = true := fun hverified =>
      hfits (productsFit_of_partition hpairs hindexWord (hparts.mp hverified).1.2.2)
    refine ⟨iff_of_false hunverified ?_, fun hverified => absurd hverified hunverified⟩
    rintro ⟨-, other, hother, hfits', -⟩
    obtain rfl := Option.some.inj (hindex.symm.trans hother)
    exact hfits hfits'

end Verdict

/-! ## The verdict on a collection -/

/-- Every planned call returned, no product exceeds a word, and the scaled balances add up. -/
def ScaledReconciles (self : ATokenCollector) (token : TokenConfig) (frozen : FrozenUniverse)
    (anchor : BlockRef) (executor : (op : ExecuteOp) → ExecuteAns op) : Prop :=
  ∃ request batches, self.request token frozen anchor .scaledFullSupply = .ok request ∧
    AnsweredWith executor request.specs anchor batches ∧ EveryCallReturned request.specs batches ∧
    ∃ index, indexReturned batches = some index ∧ ProductsFit frozen batches index ∧
      ScaledSumMatches frozen batches

/-- A collection in scaled full-supply mode is verified exactly when every call returned, the products
fit and the scaled balances add up.  Its rows are then those of the universe, and without an index there
is none. -/
theorem scaled_supply_verified_iff (self : ATokenCollector) (token : TokenConfig)
    (frozen : FrozenUniverse) (anchor : BlockRef) (executor : (op : ExecuteOp) → ExecuteAns op) :
    (Verifies executor (self.collect token frozen anchor .scaledFullSupply) ↔
        ScaledReconciles self token frozen anchor executor) ∧
      ∀ result, answeredBy executor (self.collect token frozen anchor .scaledFullSupply) = .ok result →
        ∃ request batches, self.request token frozen anchor .scaledFullSupply = .ok request ∧
          AnsweredWith executor request.specs anchor batches ∧
          (result.verified = true → ∃ index, indexReturned batches = some index ∧
            RowsOfUniverse frozen batches index result.balances) ∧
          (indexReturned batches = none → result.balances = []) := by
  have hcollect : ∀ result,
      answeredBy executor (self.collect token frozen anchor .scaledFullSupply) = .ok result ↔ _ :=
    fun result => answeredBy_collection fun _ => ATokenCollector.nodup_request
  refine ⟨⟨?_, ?_⟩, ?_⟩
  · rintro ⟨result, hresult, hverified⟩
    obtain ⟨request, batches, decoded, hrequest, hanswered, hdecode, hmaterialize⟩ :=
      (hcollect result).mp hresult
    obtain ⟨other, hother, hiff, -⟩ := exists_verdict_scaled hrequest hdecode
    obtain rfl := Except.ok.inj (hmaterialize.symm.trans hother)
    exact ⟨request, batches, hrequest, hanswered, hiff.mp hverified⟩
  · rintro ⟨request, batches, hrequest, hanswered, hreconciled⟩
    have hdecode := decodeBatches_eq_ok_iff.mpr ⟨hanswered.accepted, rfl⟩
    obtain ⟨result, hmaterialize, hiff, -⟩ := exists_verdict_scaled hrequest hdecode
    exact ⟨result, (hcollect result).mpr
      ⟨request, batches, _, hrequest, hanswered, hdecode, hmaterialize⟩, hiff.mpr hreconciled⟩
  · intro result hresult
    obtain ⟨request, batches, decoded, hrequest, hanswered, hdecode, hmaterialize⟩ :=
      (hcollect result).mp hresult
    obtain ⟨other, hother, -, hrows⟩ := exists_verdict_scaled hrequest hdecode
    obtain rfl := Except.ok.inj (hmaterialize.symm.trans hother)
    exact ⟨request, batches, hrequest, hanswered, hrows,
      fun hindex => balances_of_no_index hrequest hdecode hindex hmaterialize⟩

end RpcStateIndexer
