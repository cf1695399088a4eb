import RpcStateIndexer.Evm.Json

/-!
# Token configuration

The accepted values of `EventConfig` and `TokenConfig`: what the validators reject cannot be built.
-/

namespace RpcStateIndexer

/-- `normalize_address` -/
def normalizeAddress (value : String) : Except String String :=
  match hexBody value with
  | some body =>
    if body.length = 40 ∧ body.all isHexDigit then .ok value.toLower
    else .error s!"invalid EVM address: '{value}'"
  | none => .error s!"invalid EVM address: '{value}'"

theorem isAddress_of_normalizeAddress {value address : String}
    (h : normalizeAddress value = .ok address) : isAddress address = true := by
  unfold normalizeAddress at h
  split at h
  · rename_i body hbody
    split at h
    · rename_i hok
      rw [Except.ok.injEq] at h
      subst h
      refine isAddress_iff.mpr ⟨body.map Char.toLower, ?_, by simpa using hok.1, ?_⟩
      · rw [toLower_toList, hexBody_eq_some_iff.mp hbody]
        rfl
      · intro c hc
        obtain ⟨d, hd, rfl⟩ := List.mem_map.mp hc
        exact isLowerHexDigit_toLower (List.all_eq_true.mp hok.2 d hd)
    · cases h
  · cases h

/-- An event to scan and the topic positions that hold addresses. -/
structure EventConfig where
  abi : String
  event : String
  holderTopics : List Nat
  topics_nonempty : holderTopics ≠ []
  topics_range : ∀ topic ∈ holderTopics, topic ∈ [1, 2, 3]
  topics_nodup : holderTopics.Nodup
  deriving DecidableEq

theorem EventConfig.one_le (e : EventConfig) {topic : Nat} (h : topic ∈ e.holderTopics) :
    1 ≤ topic := by
  have := e.topics_range topic h
  simp only [List.mem_cons, List.not_mem_nil, or_false] at this
  omega

inductive TokenClass where
  | standardErc20
  | weth9Fork
  | aaveV3Atoken
  | sparkAtoken
  deriving DecidableEq, Repr

/-- The class as the catalog spells it. -/
def TokenClass.value : TokenClass → String
  | .standardErc20 => "standard_erc20"
  | .weth9Fork => "weth9_fork"
  | .aaveV3Atoken => "aave_v3_atoken"
  | .sparkAtoken => "spark_atoken"

inductive ZeroAddressRole where
  | eventSentinel
  | holder
  deriving DecidableEq, Repr

inductive BalanceFunction where
  | balanceOf
  | scaledBalanceOf
  deriving DecidableEq, Repr

/-- Where an aToken's liquidity index is read. -/
structure IndexSourceConfig where
  contract : String
  argument : String
  contract_ok : isAddress contract = true
  argument_ok : isAddress argument = true
  deriving DecidableEq

/-- One entry of the token catalog; dates are day numbers. -/
structure TokenConfig where
  address : String
  symbol : String
  decimals : Nat
  tokenClass : TokenClass
  deploymentBlock : Nat
  dateStart : Option Nat
  dateEnd : Option Nat
  enabled : Bool
  zeroAddressRole : ZeroAddressRole
  balanceFunction : BalanceFunction
  supplyFunctions : List String
  discoveryEvents : List EventConfig
  seedHolders : List String
  universeAliases : List String
  indexSource : Option IndexSourceConfig
  address_ok : isAddress address = true
  decimals_ok : decimals ≤ 255
  seeds_ok : ∀ seed ∈ seedHolders, isAddress seed = true
  aliases_ok : ∀ other ∈ universeAliases, isAddress other = true
  not_own_alias : address ∉ universeAliases
  aliases_nodup : universeAliases.Nodup
  dates_ok : ∀ first ∈ dateStart, ∀ last ∈ dateEnd, first < last
  atoken_ok : tokenClass = .aaveV3Atoken ∨ tokenClass = .sparkAtoken →
    balanceFunction = .scaledBalanceOf ∧ "scaledTotalSupply" ∈ supplyFunctions ∧
      indexSource.isSome = true
  index_source_ok : indexSource.isSome = true →
    tokenClass = .aaveV3Atoken ∨ tokenClass = .sparkAtoken
  zero_seed_ok : zeroAddressRole = .eventSentinel → zeroAddress ∉ seedHolders
  deriving DecidableEq

namespace TokenConfig

def isAtoken (token : TokenConfig) : Bool :=
  token.tokenClass = .aaveV3Atoken || token.tokenClass = .sparkAtoken

/-- `zero_address_role == "holder"` -/
def includeZero (token : TokenConfig) : Bool := token.zeroAddressRole = .holder

end TokenConfig

end RpcStateIndexer
