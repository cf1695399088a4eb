import RpcStateIndexer.Catalog.Sources

/-!
# Runs against a provider

A provider that refuses no range and fails only some calls.  Against it every scan returns: a scan of a
source folds over its window, and the deployment block is found.
-/

namespace RpcStateIndexer

open Reasoning Program

namespace CatalogEnumeration

/-- Some code, from the deployment on. -/
def PoolChain.code (chain : PoolChain) (address : String) (block : Int) : String :=
  if (chain.deployed address : Int) ≤ block then "0x60" else "0x"

theorem PoolChain.code_not_mem_noCode {chain : PoolChain} {address : String} {block : Int} :
    chain.code address block ∉ noCode ↔ (chain.deployed address : Int) ≤ block := by
  unfold PoolChain.code
  split
  · rename_i hdeployed
    exact ⟨fun _ => hdeployed, fun _ => by decide⟩
  · rename_i hdeployed
    exact ⟨fun hcode => absurd hcode (by decide), fun h => absurd h hdeployed⟩

/-- Each request is answered exactly, but for the calls that fail. -/
def provider (chain : PoolChain) (head : Int) (watermark : Option Int)
    (fails : String → List UInt8 → Int → Bool) : (op : CatalogOp) → CatalogAnswer op
  | .blockNumber => .ok head
  | .getLogs address topic0 lo hi => .ok (chain.window address topic0 lo hi)
  | .getCode address block => .ok (chain.code address block)
  | .ethCall contract data block =>
    if fails contract data block then .error (.other "ReadTimeout")
    else match chain.call contract data block with
      | some returned => .ok returned
      | none => .error (.runtimeError "eth_call: execution reverted")
  | .loadWatermark => .ok watermark
  | .writeOutput _ _ => .ok ()
  | .saveWatermark _ => .ok ()

section Provider

variable {keccak : String → List UInt8} {chain : PoolChain} {head : Int} {watermark : Option Int}
  {fails : String → List UInt8 → Int → Bool}

theorem exact_provider (op : CatalogOp) : chain.Exact ⟨op, provider chain head watermark fails op⟩ := by
  cases op with
  | getLogs address topic0 lo hi =>
    intro logs hlogs
    exact (Except.ok.inj hlogs).symm
  | getCode address block =>
    intro code hcode
    obtain rfl := Except.ok.inj hcode
    exact PoolChain.code_not_mem_noCode
  | ethCall contract data block =>
    intro returned hreturned
    simp only [provider] at hreturned
    split at hreturned
    · exact absurd hreturned error_ne_ok
    · split at hreturned
      · rename_i other hcall
        obtain rfl := Except.ok.inj hreturned
        exact hcall
      · exact absurd hreturned error_ne_ok
  | _ => trivial

theorem exact_of_mem_traceOf {α : Type} {p : CatalogProgram α} :
    ∀ x ∈ traceOf (provider chain head watermark fails) p, chain.Exact x := by
  intro x hx
  have hanswer := answer_of_mem_traceOf hx
  obtain ⟨op, answer⟩ := x
  obtain rfl : answer = provider chain head watermark fails op := hanswer
  exact exact_provider op

/-- A loop over the logs folds over the window. -/
theorem answeredBy_forLogs {σ : Type} {address topic0 : String} {body : σ → EventLog → CatalogProgram σ}
    (lo hi : Int) (st : σ) :
    answeredBy (provider chain head watermark fails) (forLogs address topic0 body lo hi st) =
      (chain.window address (some topic0) lo hi).foldlM
        (fun st log => answeredBy (provider chain head watermark fails) (body st log)) st := by
  induction lo, hi using window_induction generalizing st with
  | chunk lo hi hle ihnext =>
    have hstop := chunkEnd_bounds hle
    rw [forLogs, if_pos hle, ← PoolChain.window_append (by omega : lo ≤ chunkEnd lo hi + 1) hstop.2,
      List.foldlM_append, ← answeredBy_foldlM]
    refine (answeredBy_bind _ _ _).trans ?_
    congr 1
    funext next
    exact ihnext next
  | empty lo hi hlt =>
    rw [forLogs, if_neg (by omega), PoolChain.window_eq_nil hlt]
    rfl

theorem answeredBy_foldLogs {σ : Type} {address topic0 : String}
    {step : σ → EventLog → Except EnumerationFault σ} (lo hi : Int) (st : σ) :
    answeredBy (provider chain head watermark fails) (foldLogs address topic0 step lo hi st) =
      (chain.window address (some topic0) lo hi).foldlM step st := by
  refine (answeredBy_forLogs lo hi st).trans ?_
  congr 1
  funext next log
  exact answeredBy_ofExcept _ (step next log)

theorem answeredBy_findDeployBlock (address : String) (hi : Int) :
    answeredBy (provider chain head watermark fails) (findDeployBlock address hi) =
      .ok (min (chain.deployed address : Int) hi) := by
  have hreturns : ∀ lo hi found, ∃ block, answeredBy (provider chain head watermark fails)
      (searchDeployBlock address lo hi found) = .ok block := by
    intro lo hi found
    induction lo, hi, found using searchDeployBlock.induct with
    | case1 lo hi found hle mid ihlower =>
      rename_i ihupper
      rw [searchDeployBlock, if_pos hle]
      show ∃ block, answeredBy _ (if chain.code address mid ∉ noCode then _ else _) = .ok block
      by_cases hcode : chain.code address mid ∉ noCode
      · rw [if_pos hcode]
        exact ihlower
      · rw [if_neg hcode]
        exact ihupper
    | case2 lo hi found hgt =>
      rw [searchDeployBlock, if_neg hgt]
      exact ⟨found, rfl⟩
  obtain ⟨block, hblock⟩ := hreturns 0 hi hi
  have hrun := runs_answeredBy (provider chain head watermark fails) (findDeployBlock address hi)
  rw [findDeployBlock, hblock] at hrun
  rw [findDeployBlock, hblock, findDeployBlock_eq hrun exact_of_mem_traceOf]

theorem answeredBy_lowBlock (start : Option Int) (address : String) (hi : Int) :
    answeredBy (provider chain head watermark fails) (lowBlock start address hi) =
      .ok (lowOf chain start address hi) := by
  cases start with
  | some start => rfl
  | none => exact answeredBy_findDeployBlock address hi

/-- A scan of one event whose body calls nothing folds over its window. -/
theorem answeredBy_scan {σ : Type} {address topic0 : String} {step : σ → EventLog → Except EnumerationFault σ}
    (start : Option Int) (hi : Int) (st : σ) :
    answeredBy (provider chain head watermark fails)
        (lowBlock start address hi >>= fun lo => foldLogs address topic0 step lo hi st) =
      (chain.window address (some topic0) (lowOf chain start address hi) hi).foldlM step st := by
  rw [answeredBy_bind, answeredBy_lowBlock, except_ok_bind, answeredBy_foldLogs]

/-- The guarded call returns what the vault says, unless it fails. -/
theorem answeredBy_poolTokenInfo {pool : String} {data : List UInt8} {block : Int}
    (hdata : poolTokenInfoCalldata keccak pool = .ok data) :
    answeredBy (provider chain head watermark fails) (poolTokenInfo keccak pool block) =
      .ok (if fails balancerV3Vault data block then none else chain.tokenInfo keccak pool block) := by
  rw [PoolChain.tokenInfo_eq hdata, poolTokenInfo, hdata]
  simp only [answeredBy, provider]
  cases hfails : fails balancerV3Vault data block with
  | true => rfl
  | false => cases chain.call balancerV3Vault data block <;> rfl

/-- The metadata of the tokens is read, or defaulted, and the rows are written. -/
theorem answeredBy_writeCatalog (hi : Int) (st : CatalogScan) :
    answeredBy (provider chain head watermark fails) (writeCatalog none hi st) = .ok () := by
  have hmetadata : ∀ token ∈ sortedSet st.tokens, ∃ metadata,
      answeredBy (provider chain head watermark fails) (tokenMetadata hi token) = .ok metadata := by
    intro token _
    simp only [tokenMetadata, answeredBy]
    split
    · exact ⟨_, rfl⟩
    · simp only [answeredBy]
      split <;> exact ⟨_, rfl⟩
  obtain ⟨metadata, hmetadata⟩ := mapM_isOk hmetadata
  rw [writeCatalog, answeredBy_bind, answeredBy_mapM, hmetadata]
  rfl

end Provider

end CatalogEnumeration

end RpcStateIndexer
