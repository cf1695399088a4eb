import RpcStateIndexer.Catalog.Assemble
import RpcStateIndexer.Evm.BalancerDecoding
import RpcStateIndexer.Evm.Calldata
import RpcStateIndexer.Evm.MetadataDecoding
import RpcStateIndexer.Reasoning.Program

/-!
# Enumerating pools

`enumerate.py` reads the pool-creation events of each source off the chain.  An RPC call, the watermark
file and the output files are operations of a program, and any of them may fail.  A block number is an
integer: the bounds are read from the command line.
-/

namespace RpcStateIndexer

open Reasoning Program

namespace CatalogEnumeration

/-! ## The operations -/

/-- A log of an `eth_getLogs` answer. -/
structure EventLog where
  address : String
  topics : List String
  data : List UInt8
  blockNumber : Nat
  deriving DecidableEq

inductive CatalogOp where
  | blockNumber
  | getLogs (address : String) (topic0 : Option String) (fromBlock toBlock : Int)
  | getCode (address : String) (block : Int)
  | ethCall (contract : String) (data : List UInt8) (block : Int)
  | loadWatermark
  | writeOutput (tokens : List TokenEntry) (pools : List PoolEntry)
  | saveWatermark (head : Int)

/-- What an operation can raise.  An error answer of the RPC is a `RuntimeError`. -/
inductive CallFault where
  | runtimeError (message : String)
  | other (name : String)
  deriving DecidableEq

/-- What an operation returns. -/
def CatalogReply : CatalogOp → Type
  | .blockNumber => Int
  | .getLogs _ _ _ _ => List EventLog
  | .getCode _ _ => String
  | .ethCall _ _ _ => List UInt8
  | .loadWatermark => Option Int
  | .writeOutput _ _ => Unit
  | .saveWatermark _ => Unit

abbrev CatalogAnswer (op : CatalogOp) : Type := Except CallFault (CatalogReply op)

inductive EnumerationFault where
  | raised (fault : CallFault)
  | indexError
  | systemExit (message : String)
  deriving DecidableEq

abbrev CatalogProgram (α : Type) : Type := Program CatalogOp CatalogAnswer EnumerationFault α

/-- Issue the operation, and raise what it raises. -/
def ask (op : CatalogOp) : CatalogProgram (CatalogReply op) :=
  .call op fun answer => ofExcept (answer.mapError .raised)

/-! ## The sources -/

def uniswapV3Factory : String := "0xe32f7dd7e3f098d518ff19a22d5f028e076489b1"
def swaprAlgebraFactory : String := "0xa0864cca6e114013ab0e27cbd5b6f4c8947da766"
def balancerV2Vault : String := "0xba12222222228d8ba445958a75a0704d566bf2c8"
def balancerV3Vault : String := "0xba1333333333a1ba1108e8412f11850a5c319ba9"

section Topics

variable (keccak : String → List UInt8)

def topicUniswap : String := hexData (keccak "PoolCreated(address,address,uint24,int24,address)")
def topicAlgebra : String := hexData (keccak "Pool(address,address,address)")
def topicV2Registered : String := hexData (keccak "PoolRegistered(bytes32,address,uint8)")
def topicV2Tokens : String := hexData (keccak "TokensRegistered(bytes32,address[],address[])")

def poolTokenInfoCalldata (pool : String) : Except String (List UInt8) := do
  return functionSelector keccak "getPoolTokenInfo(address)" ++ (← addressWord pool)

end Topics

def maxRange : Int := 90000

/-- `"0x" + word_hex[-40:].lower()` -/
def addrOf (wordHex : String) : String := "0x" ++ (suffix wordHex 40).toLower

def bytesHex (bytes : List UInt8) : String := String.ofList (bytes.flatMap hexByte)

/-- `lg["topics"][index]` -/
def topicAt (log : EventLog) (index : Nat) : Except EnumerationFault String :=
  match log.topics[index]? with
  | some topic => .ok topic
  | none => .error .indexError

/-- `int.from_bytes(bytes, "big", signed=True)` -/
def signedBE (bytes : List UInt8) : Int :=
  if 256 ^ bytes.length ≤ 2 * ofBytesBE bytes then (ofBytesBE bytes : Int) - 256 ^ bytes.length
  else ofBytesBE bytes

/-! ## The log generator -/

/-- `"max results" in str(exc)` -/
def CallFault.isResultCap : CallFault → Bool
  | .runtimeError message => decide ("max results".toList <:+: message.toList)
  | .other _ => false

/-- The loop over `scan_logs`: the window is read in chunks, a chunk over the result cap by its halves,
and the body runs on each log as it comes. -/
def forLogs {σ : Type} (address topic0 : String) (body : σ → EventLog → CatalogProgram σ) (lo hi : Int)
    (st : σ) : CatalogProgram σ :=
  if lo ≤ hi then
    let stop := min (lo + maxRange - 1) hi
    .call (.getLogs address (some topic0) lo stop) fun (answer : Except CallFault (List EventLog)) =>
      match answer with
      | .ok logs => do
        let st ← logs.foldlM body st
        forLogs address topic0 body (stop + 1) hi st
      | .error fault =>
        if fault.isResultCap = true ∧ lo < stop then do
          let mid := (lo + stop) / 2
          let st ← forLogs address topic0 body lo mid st
          forLogs address topic0 body (mid + 1) hi st
        else throw (.raised fault)
  else .ret st
termination_by (hi + 1 - lo).toNat
decreasing_by all_goals simp only [maxRange, stop] at *; omega

/-- `scan_logs`, run to its end. -/
def scanLogs (address topic0 : String) (lo hi : Int) : CatalogProgram (List EventLog) :=
  forLogs address topic0 (fun logs log => .ret (logs ++ [log])) lo hi []

/-- The loop over `scan_logs` whose body calls nothing. -/
def foldLogs {σ : Type} (address topic0 : String) (step : σ → EventLog → Except EnumerationFault σ)
    (lo hi : Int) (st : σ) : CatalogProgram σ :=
  forLogs address topic0 (fun st log => ofExcept (step st log)) lo hi st

/-- The code of an account that has none. -/
def noCode : List String := ["0x", "0x0", ""]

/-- The search of `find_deploy_block`: `found` is the earliest block seen with code. -/
def searchDeployBlock (address : String) (lo hi found : Int) : CatalogProgram Int :=
  if lo ≤ hi then
    let mid := (lo + hi) / 2
    .call (.getCode address mid) fun (answer : Except CallFault String) =>
      match answer with
      | .ok code =>
        if code ∉ noCode then searchDeployBlock address lo (mid - 1) mid
        else searchDeployBlock address (mid + 1) hi found
      | .error fault => throw (.raised fault)
  else .ret found
termination_by (hi + 1 - lo).toNat
decreasing_by all_goals omega

/-- Binary-search the first block where the address has code. -/
def findDeployBlock (address : String) (hi : Int) : CatalogProgram Int :=
  searchDeployBlock address 0 hi hi

/-! ## Pools and tokens -/

structure PoolRow where
  address : String
  name : String
  poolClass : String
  deploymentBlock : Nat
  tickSpacing : Option Int
  fee : Option Nat
  poolId : Option String
  assets : List String
  deriving DecidableEq

/-- The entry that is written; a field that the source does not set is absent. -/
def PoolRow.entry (row : PoolRow) : PoolEntry where
  address := row.address
  rest := [("name", .str row.name), ("pool_class", .str row.poolClass),
      ("deployment_block", .int row.deploymentBlock)] ++
    (row.tickSpacing.toList.map fun spacing => ("tick_spacing", .int spacing)) ++
    (row.fee.toList.map fun fee => ("fee", .int fee)) ++
    (row.poolId.toList.map fun poolId => ("pool_id", .str poolId)) ++
    [("assets", .arr (row.assets.map fun asset => .obj [("token", .str asset)]))]

/-- What the scans fill: a set of tokens, the pools in their order, and each token's first block. -/
structure CatalogScan where
  tokens : List String
  pools : List PoolRow
  firstSeen : Dict String Nat

namespace CatalogScan

def empty : CatalogScan := ⟨[], [], .empty⟩

/-- `tokens.add(t); first_seen[t] = min(first_seen.get(t, blk), blk)` -/
def addToken (blk : Nat) (st : CatalogScan) (token : String) : CatalogScan :=
  { st with
    tokens := st.tokens ++ [token]
    firstSeen := st.firstSeen.set token (min ((st.firstSeen.get? token).getD blk) blk) }

def addPool (st : CatalogScan) (row : PoolRow) : CatalogScan :=
  row.assets.foldl (addToken row.deploymentBlock) { st with pools := st.pools ++ [row] }

end CatalogScan

/-- `PoolCreated`: the fee is topic 3, the data is the tick spacing and the pool. -/
def uniswapPool (log : EventLog) : Except EnumerationFault PoolRow := do
  let t0 := addrOf (← topicAt log 1)
  let t1 := addrOf (← topicAt log 2)
  let fee := hexValue (← topicAt log 3)
  return {
    address := "0x" ++ suffix (bytesHex (bytesAt log.data 32 32)) 40
    name := "uniswap_v3"
    poolClass := "uniswap_v3"
    deploymentBlock := log.blockNumber
    tickSpacing := some (signedBE (bytesAt log.data 0 32))
    fee := some fee
    poolId := none
    assets := [t0, t1] }

/-- Algebra's tick spacing is fixed; its fee is dynamic and left unset. -/
def swaprPool (log : EventLog) : Except EnumerationFault PoolRow := do
  let t0 := addrOf (← topicAt log 1)
  let t1 := addrOf (← topicAt log 2)
  return {
    address := addrOf (bytesHex (bytesAt log.data 0 32))
    name := "swapr_v3"
    poolClass := "swapr_v3_algebra"
    deploymentBlock := log.blockNumber
    tickSpacing := some 60
    fee := none
    poolId := none
    assets := [t0, t1] }

/-- One log, one pool. -/
def addParsed (parse : EventLog → Except EnumerationFault PoolRow) (st : CatalogScan) (log : EventLog) :
    Except EnumerationFault CatalogScan := do
  return st.addPool (← parse log)

/-! ## Balancer V2 -/

/-- `reg` and `blk_of`: the pool and the block of each pool id. -/
abbrev Registrations : Type := Dict String (String × Nat)

/-- The pool id of a `PoolRegistered` log, with the pool and the block. -/
def registrationEntry (log : EventLog) : Except EnumerationFault (String × (String × Nat)) := do
  let poolId ← topicAt log 1
  return (poolId, addrOf (← topicAt log 2), log.blockNumber)

/-- The elements of the first array of the data. -/
def tokensOf (data : List UInt8) : List String :=
  let offset := ofBytesBE (bytesAt data 0 32)
  let length := ofBytesBE (bytesAt data offset 32)
  (List.range length).map fun i =>
    "0x" ++ suffix (bytesHex (bytesAt data (offset + 32 + i * 32) 32)) 40

/-- The pool id of a `TokensRegistered` log, with its tokens. -/
def tokensEntry (log : EventLog) : Except EnumerationFault (String × List String) := do
  return (← topicAt log 1, tokensOf log.data)

/-- The loop `d[key(log)] = value(log)`. -/
def setEntry {ν : Type} (parse : EventLog → Except EnumerationFault (String × ν)) (d : Dict String ν)
    (log : EventLog) : Except EnumerationFault (Dict String ν) := do
  let entry ← parse log
  return d.set entry.1 entry.2

/-- The row of a registered pool, if it has assets other than its own BPT. -/
def balancerV2Row (poolId pool : String) (block : Nat) (tokens : List String) : Option PoolRow :=
  let assets := tokens.filter fun token => token ≠ pool
  if assets = [] then none
  else some {
    address := pool
    name := "balancer_v2"
    poolClass := "balancer_v2"
    deploymentBlock := block
    tickSpacing := none
    fee := none
    poolId := some poolId.toLower
    assets := assets }

def balancerV2Pool (toks : Dict String (List String)) (entry : String × (String × Nat)) :
    Option PoolRow :=
  balancerV2Row entry.1 entry.2.1 entry.2.2 ((toks.get? entry.1).getD [])

def joinBalancerV2 (registered : Registrations) (toks : Dict String (List String)) (st : CatalogScan) :
    CatalogScan :=
  (registered.entries.filterMap (balancerV2Pool toks)).foldl CatalogScan.addPool st

/-! ## Balancer V3 -/

section BalancerV3

variable (keccak : String → List UInt8)

/-- The guarded call: `none` when building it, issuing it or decoding its answer raised. -/
def poolTokenInfo (pool : String) (block : Int) : CatalogProgram (Option (List (String × Nat))) :=
  match poolTokenInfoCalldata keccak pool with
  | .error _ => .ret none
  | .ok data => .call (.ethCall balancerV3Vault data block) fun (answer : Except CallFault (List UInt8)) =>
    match answer with
    | .ok returned => .ret (decodeBalancerV3PoolTokenInfo returned).toOption
    | .error _ => .ret none

def balancerV3Row (pool : String) (block : Nat) (pairs : List (String × Nat)) : PoolRow where
  address := pool
  name := "balancer_v3"
  poolClass := "balancer_v3"
  deploymentBlock := block
  tickSpacing := none
  fee := none
  poolId := none
  assets := (pairs.map Prod.fst).filter fun token => token ≠ pool

/-- A pool whose call raised is skipped. -/
def addBalancerV3 (block : Int) (st : CatalogScan) (log : EventLog) : CatalogProgram CatalogScan := do
  let pool := addrOf (← ofExcept (topicAt log 1))
  match ← poolTokenInfo keccak pool block with
  | some pairs => return st.addPool (balancerV3Row pool log.blockNumber pairs)
  | none => return st

/-- The topic of the first log whose pool the vault accepts. -/
def firstAccepted (block : Int) : List EventLog → CatalogProgram String
  | [] => throw (.raised (.runtimeError "could not resolve Balancer V3 PoolRegistered topic0"))
  | log :: logs =>
    match log.topics with
    | topic0 :: topic1 :: _ => do
      match ← poolTokenInfo keccak (addrOf topic1) block with
      | some _ => return topic0
      | none => firstAccepted block logs
    | _ => firstAccepted block logs

def resolveV3Topic (hi : Int) : CatalogProgram String := do
  let deploy ← findDeployBlock balancerV3Vault hi
  let logs ← ask (.getLogs balancerV3Vault none deploy (min (deploy + maxRange - 1) hi))
  firstAccepted keccak (hi - 32) logs

end BalancerV3

/-! ## Token metadata -/

/-- `text.strip("\x00")` -/
def stripNul (text : String) : String :=
  let isNul := fun c : Char => c.toNat = 0
  String.ofList ((text.toList.dropWhile isNul).rdropWhile isNul)

/-- `text or "?"` -/
def orQuestion (text : String) : String := if text = "" then "?" else text

/-- A symbol padded with NULs to a word. -/
def decodeWordSymbol (raw : List UInt8) : String :=
  if raw = [] then "?"
  else match decodeUtf8 (raw.rdropWhile fun b => b = 0) with
    | some text => orQuestion text
    | none => "?"

def decodeSymbol (raw : List UInt8) : String :=
  let length := ofBytesBE (bytesAt raw 32 32)
  if 64 ≤ raw.length ∧ 0 < length ∧ length ≤ 64 ∧ 64 + length ≤ raw.length then
    match decodeUtf8 (bytesAt raw 64 length) with
    | some text => orQuestion (stripNul text)
    | none => decodeWordSymbol raw
  else decodeWordSymbol raw

def symbolSelector : List UInt8 := [0x95, 0xd8, 0x9b, 0x41]
def decimalsSelector : List UInt8 := [0x31, 0x3c, 0xe5, 0x67]

/-- `sym[:32] or "?"` and the decimals, cut to a byte. -/
def tokenMeta (sym : String) (dec : Nat) : String × Nat :=
  (orQuestion (String.ofList (sym.toList.take 32)), min dec 255)

/-- A token of which either call raised has the defaults. -/
def tokenMetadata (block : Int) (token : String) : CatalogProgram (String × Nat) :=
  .call (.ethCall token symbolSelector block) fun (symAnswer : Except CallFault (List UInt8)) =>
    match symAnswer with
    | .error _ => .ret (tokenMeta "?" 18)
    | .ok symRaw =>
      .call (.ethCall token decimalsSelector block) fun (decAnswer : Except CallFault (List UInt8)) =>
      match decAnswer with
      | .error _ => .ret (tokenMeta "?" 18)
      | .ok decRaw =>
        .ret (tokenMeta (decodeSymbol symRaw) (if decRaw = [] then 18 else ofBytesBE decRaw))

def tokenRow (firstSeen : Dict String Nat) (token : String) (metadata : String × Nat) : TokenEntry where
  address := token
  tokenClass := "standard_erc20"
  deploymentBlock := (firstSeen.get? token).getD 0
  rest := [("symbol", .str metadata.1), ("decimals", .int metadata.2), ("discovery_events", transferEvents)]

/-! ## The run -/

structure EnumerationArgs where
  sources : List String
  fromBlock : Option Int
  toBlock : Option Int
  incremental : Bool
  overlap : Int

/-- The low block of a source scan, or `none` to scan from the source's deployment. -/
def scanStart (explicitFrom : Option Int) (incremental : Bool) (watermark : Option Int) (overlap : Int) :
    Option Int :=
  match explicitFrom with
  | some start => some start
  | none =>
    match incremental, watermark with
    | true, some head => some (max 0 (head - overlap))
    | _, _ => none

/-- `start if start is not None else find_deploy_block(address, hi)` -/
def lowBlock (start : Option Int) (address : String) (hi : Int) : CatalogProgram Int :=
  match start with
  | some start => .ret start
  | none => findDeployBlock address hi

section Run

variable (keccak : String → List UInt8)

def enumUniswap (lo hi : Int) (st : CatalogScan) : CatalogProgram CatalogScan :=
  foldLogs uniswapV3Factory (topicUniswap keccak) (addParsed uniswapPool) lo hi st

def enumSwapr (lo hi : Int) (st : CatalogScan) : CatalogProgram CatalogScan :=
  foldLogs swaprAlgebraFactory (topicAlgebra keccak) (addParsed swaprPool) lo hi st

def enumBalancerV2 (lo hi : Int) (st : CatalogScan) : CatalogProgram CatalogScan := do
  let registered ← foldLogs balancerV2Vault (topicV2Registered keccak) (setEntry registrationEntry) lo hi .empty
  let toks ← foldLogs balancerV2Vault (topicV2Tokens keccak) (setEntry tokensEntry) lo hi .empty
  return joinBalancerV2 registered toks st

def enumBalancerV3 (lo hi : Int) (v3Topic : String) (block : Int) (st : CatalogScan) :
    CatalogProgram CatalogScan :=
  forLogs balancerV3Vault v3Topic (addBalancerV3 keccak block) lo hi st

/-- One pass of the loop over the sources. -/
def enumerateSource (start : Option Int) (hi : Int) (st : CatalogScan) (src : String) :
    CatalogProgram CatalogScan :=
  if src = "uniswap_v3" then do
    enumUniswap keccak (← lowBlock start uniswapV3Factory hi) hi st
  else if src = "swapr_v3" then do
    enumSwapr keccak (← lowBlock start swaprAlgebraFactory hi) hi st
  else if src = "balancer_v2" then do
    enumBalancerV2 keccak (← lowBlock start balancerV2Vault hi) hi st
  else if src = "balancer_v3" then do
    let v3Topic ← resolveV3Topic keccak hi
    enumBalancerV3 keccak (← lowBlock start balancerV3Vault hi) hi v3Topic hi st
  else throw (.systemExit s!"unknown source {src}")

/-- `args.to_block or head - 32` -/
def highBlock (toBlock : Option Int) (head : Int) : Int :=
  match toBlock with
  | some block => if block = 0 then head - 32 else block
  | none => head - 32

/-- The rows are written first; the watermark advances only without an explicit upper bound. -/
def writeCatalog (toBlock : Option Int) (hi : Int) (st : CatalogScan) : CatalogProgram Unit := do
  let tokens := sortedSet st.tokens
  let metadata ← tokens.mapM (tokenMetadata hi)
  let rows := tokens.zipWith (tokenRow st.firstSeen) metadata
  ask (.writeOutput rows (st.pools.map PoolRow.entry))
  if toBlock = none then ask (.saveWatermark hi) else return ()

/-- `main` returns the pools of the run. -/
def main (args : EnumerationArgs) : CatalogProgram (List PoolRow) := do
  let head ← ask .blockNumber
  let hi := highBlock args.toBlock head
  let watermark ← ask .loadWatermark
  let start := scanStart args.fromBlock args.incremental watermark args.overlap
  let st ← args.sources.foldlM (enumerateSource keccak start hi) .empty
  writeCatalog args.toBlock hi st
  return st.pools

end Run

end CatalogEnumeration

end RpcStateIndexer
