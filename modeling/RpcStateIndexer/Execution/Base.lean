import RpcStateIndexer.Census.Results
import RpcStateIndexer.Reasoning.Codec
import RpcStateIndexer.Reasoning.Sha256
import RpcStateIndexer.Rpc.Client

/-!
# Historical execution

The calls, their results and the evidence both executors share, the digest of a result sequence, and the
references that pin a call to the anchor.
-/

namespace RpcStateIndexer

open Reasoning Program

structure ContractCall where
  key : String
  target : String
  calldata : List UInt8
  allowFailure : Bool := true
  deriving DecidableEq

structure RawCallResult where
  key : String
  success : Bool
  returndata : List UInt8
  errorCode : Option Int := none
  errorMessage : Option String := none
  deriving DecidableEq

structure VerifiedBatchResult where
  results : List RawCallResult
  evidence : VerificationEvidence
  deriving DecidableEq

/-! ## Batches -/

/-- Consecutive batches of `size`, the last of them shorter. -/
def chunked {α : Type} (size : Nat) (hsize : 1 ≤ size) (values : List α) : List (List α) :=
  match values with
  | [] => []
  | v :: vs => (v :: vs).take size :: chunked size hsize ((v :: vs).drop size)
termination_by values.length
decreasing_by
  rw [List.length_drop, List.length_cons]
  omega

theorem flatten_chunked {α : Type} (size : Nat) (hsize : 1 ≤ size) (values : List α) :
    (chunked size hsize values).flatten = values := by
  induction values using chunked.induct size hsize with
  | case1 =>
    rw [chunked]
    rfl
  | case2 v vs ih => rw [chunked, List.flatten_cons, ih, List.take_append_drop]

theorem length_of_mem_chunked {α : Type} {size : Nat} {hsize : 1 ≤ size} {values chunk : List α}
    (h : chunk ∈ chunked size hsize values) : chunk ≠ [] ∧ chunk.length ≤ size := by
  induction values using chunked.induct size hsize with
  | case1 =>
    rw [chunked] at h
    exact absurd h List.not_mem_nil
  | case2 v vs ih =>
    rw [chunked] at h
    rcases List.mem_cons.mp h with rfl | h
    · refine ⟨?_, List.length_take_le _ _⟩
      intro hnil
      have hlen := congrArg List.length hnil
      rw [List.length_take, List.length_cons, List.length_nil] at hlen
      omega
    · exact ih h

/-- The batches are those of consecutive parts of the values, none empty or longer than `size`. -/
def Covers {α β : Type} (R : List α → β → Prop) (size : Nat) (values : List α) (batches : List β) :
    Prop :=
  ∃ parts : List (List α), parts.flatten = values ∧
    List.Forall₂ (fun part b => part ≠ [] ∧ part.length ≤ size ∧ R part b) parts batches

namespace Covers

variable {α β : Type} {R R' : List α → β → Prop} {size size' : Nat} {values values' : List α}
  {batches batches' : List β}

theorem singleton {b : β} (hne : values ≠ []) (hsize : values.length ≤ size) (h : R values b) :
    Covers R size values [b] :=
  ⟨[values], List.flatten_singleton, .cons ⟨hne, hsize, h⟩ .nil⟩

theorem mono (h : Covers R size values batches) (hsize : size ≤ size')
    (himp : ∀ part b, R part b → R' part b) : Covers R' size' values batches := by
  obtain ⟨parts, hparts, hall⟩ := h
  refine ⟨parts, hparts, hall.imp ?_⟩
  rintro part b ⟨hne, hlength, hR⟩
  exact ⟨hne, hlength.trans hsize, himp part b hR⟩

theorem append (h : Covers R size values batches) (h' : Covers R size values' batches') :
    Covers R size (values ++ values') (batches ++ batches') := by
  obtain ⟨parts, rfl, hall⟩ := h
  obtain ⟨parts', rfl, hall'⟩ := h'
  exact ⟨parts ++ parts', List.flatten_append, List.rel_append hall hall'⟩

theorem flatten {groups : List (List α)} {slots : List (List β)}
    (h : List.Forall₂ (Covers R size) groups slots) :
    Covers R size groups.flatten slots.flatten := by
  induction h with
  | nil => exact ⟨[], rfl, .nil⟩
  | cons hfirst _ ih => exact hfirst.append ih

end Covers

/-- Both halves of a list that can be halved are shorter and not empty. -/
theorem halves_spec {α : Type} {values : List α} (h : ¬ values.length ≤ 1) :
    (values.take (values.length / 2) ≠ [] ∧
        (values.take (values.length / 2)).length < values.length) ∧
      values.drop (values.length / 2) ≠ [] ∧
        (values.drop (values.length / 2)).length < values.length := by
  have htake : (values.take (values.length / 2)).length = values.length / 2 := by
    rw [List.length_take]
    omega
  have hdrop : (values.drop (values.length / 2)).length = values.length - values.length / 2 :=
    List.length_drop
  refine ⟨⟨List.ne_nil_of_length_pos ?_, ?_⟩, List.ne_nil_of_length_pos ?_, ?_⟩ <;> omega

/-! ## Hex data -/

/-- The characters that `bytes.fromhex` reads past. -/
def isAsciiSpace (c : Char) : Bool := c = ' ' || (9 ≤ c.toNat && c.toNat ≤ 13)

/-- `bytes.fromhex` -/
def bytesFromHex : List Char → Option (List UInt8)
  | [] => some []
  | c :: rest =>
    if isAsciiSpace c then bytesFromHex rest
    else match rest with
      | [] => none
      | d :: rest' =>
        if isHexDigit c && isHexDigit d then
          (bytesFromHex rest').map (UInt8.ofNat (16 * hexDigitValue c + hexDigitValue d) :: ·)
        else none

def hexDataToBytes (value : String) : Except RpcFault (List UInt8) :=
  match hexBody value with
  | some body =>
    if body.length % 2 ≠ 0 then .error (.valueError "RPC hex data must contain whole bytes")
    else match bytesFromHex body with
      | some bytes => .ok bytes
      | none => .error (.valueError "RPC data contains non-hex characters")
  | none => .error (.valueError "RPC data must be 0x-prefixed hex")

/-- `"0x" + data.hex()` -/
def hexData (bytes : List UInt8) : String := hexText (bytes.flatMap hexByte)

theorem bytesFromHex_flatMap (bytes : List UInt8) :
    bytesFromHex (bytes.flatMap hexByte) = some bytes := by
  induction bytes with
  | nil => rfl
  | cons b bytes ih =>
    have hb := b.toNat_lt
    have hdigit : ∀ d < 16, isAsciiSpace (Nat.digitChar d) = false := by decide
    have hhigh : b.toNat / 16 < 16 := by omega
    have hlow : b.toNat % 16 < 16 := by omega
    have hvalue : UInt8.ofNat (16 * (b.toNat / 16) + b.toNat % 16) = b := by
      rw [Nat.div_add_mod]
      exact UInt8.ofNat_toNat
    rw [List.flatMap_cons, hexByte, List.cons_append, List.cons_append, List.nil_append, bytesFromHex]
    simp only [hdigit _ hhigh, Bool.false_eq_true, if_false, isHexDigit_digitChar hhigh,
      isHexDigit_digitChar hlow, Bool.and_self, if_true, ih, Option.map_some,
      hexDigitValue_digitChar hhigh, hexDigitValue_digitChar hlow, hvalue]

/-- Data that are rendered are read back. -/
theorem hexDataToBytes_hexData (bytes : List UInt8) : hexDataToBytes (hexData bytes) = .ok bytes := by
  have hbody : hexBody (hexData bytes) = some (bytes.flatMap hexByte) := by
    simp [hexBody, hexData, hexText]
  have heven : (bytes.flatMap hexByte).length % 2 = 0 := by
    rw [length_flatMap_hexByte, Nat.mul_mod_right]
  rw [hexDataToBytes, hbody]
  simp only [heven, ne_eq, not_true_eq_false, if_false, bytesFromHex_flatMap]

/-! ## The digest of a result sequence -/

/-- `length.to_bytes(4, "big")` -/
def lengthBytes (length : Nat) : Except RpcFault (List UInt8) :=
  if length < 256 ^ 4 then .ok (bytesBE 4 length) else .error (.overflowError "int too big to convert")

/-- `code.to_bytes(8, "big", signed=True)`; the smallest 32-bit number stands for no code. -/
def codeBytes (errorCode : Option Int) : Except RpcFault (List UInt8) :=
  let code := errorCode.getD (-2 ^ 31)
  if -2 ^ 63 ≤ code ∧ code < 2 ^ 63 then .ok (bytesBE 8 (code % 2 ^ 64).toNat)
  else .error (.overflowError "int too big to convert")

def RawCallResult.updates (result : RawCallResult) : List (Except RpcFault (List UInt8)) := [
  lengthBytes (utf8 result.key).length,
  .ok (utf8 result.key),
  .ok [if result.success then 1 else 0],
  lengthBytes result.returndata.length,
  .ok result.returndata,
  codeBytes result.errorCode,
  lengthBytes (utf8 (result.errorMessage.getD "")).length,
  .ok (utf8 (result.errorMessage.getD ""))]

def rawResultStream (results : List RawCallResult) : Except RpcFault (List UInt8) :=
  Reasoning.updates (results.map fun result => Reasoning.updates result.updates)

def digestRawResults (results : List RawCallResult) : Except RpcFault String := do
  return hexdigest (sha256 (← rawResultStream results))

/-- Each number of the result can be written in its bytes. -/
structure RawCallResult.Digestible (result : RawCallResult) : Prop where
  key : (utf8 result.key).length < 256 ^ 4
  returndata : result.returndata.length < 256 ^ 4
  code : -2 ^ 63 ≤ result.errorCode.getD (-2 ^ 31) ∧ result.errorCode.getD (-2 ^ 31) < 2 ^ 63
  message : (utf8 (result.errorMessage.getD "")).length < 256 ^ 4

theorem exists_lengthBytes_iff {length : Nat} :
    (∃ bytes, lengthBytes length = .ok bytes) ↔ length < 256 ^ 4 := by
  unfold lengthBytes
  split
  · next hfits => exact iff_of_true ⟨_, rfl⟩ hfits
  · next hlong => exact iff_of_false (fun ⟨_, hno⟩ => error_ne_ok hno) hlong

theorem exists_codeBytes_iff {errorCode : Option Int} : (∃ bytes, codeBytes errorCode = .ok bytes) ↔
    -2 ^ 63 ≤ errorCode.getD (-2 ^ 31) ∧ errorCode.getD (-2 ^ 31) < 2 ^ 63 := by
  unfold codeBytes
  dsimp only
  split
  · next hfits => exact iff_of_true ⟨_, rfl⟩ hfits
  · next hlong => exact iff_of_false (fun ⟨_, hno⟩ => error_ne_ok hno) hlong

/-- Results have a digest exactly when each of them can be written. -/
theorem exists_digestRawResults_iff {results : List RawCallResult} :
    (∃ digest, digestRawResults results = .ok digest) ↔ ∀ result ∈ results, result.Digestible := by
  have hdigest : (∃ digest, digestRawResults results = .ok digest) ↔
      ∃ stream, rawResultStream results = .ok stream := by
    simp only [digestRawResults, except_bind_eq_ok_iff, except_pure_eq_ok_iff]
    constructor
    · rintro ⟨_, stream, hstream, -⟩
      exact ⟨stream, hstream⟩
    · rintro ⟨stream, hstream⟩
      exact ⟨_, stream, hstream, rfl⟩
  rw [hdigest, rawResultStream, exists_updates_iff, List.forall_mem_map]
  refine forall₂_congr fun result _ => ?_
  rw [exists_updates_iff, RawCallResult.updates]
  simp only [List.forall_mem_cons, List.not_mem_nil, false_implies, implies_true, and_true,
    exists_lengthBytes_iff, exists_codeBytes_iff, Except.ok.injEq, exists_eq', true_and]
  constructor
  · rintro ⟨hkey, hreturndata, hcode, hmessage⟩
    exact ⟨hkey, hreturndata, hcode, hmessage⟩
  · rintro ⟨hkey, hreturndata, hcode, hmessage⟩
    exact ⟨hkey, hreturndata, hcode, hmessage⟩

/-! ## References to the anchor -/

def normalizeHash : Json → Except RpcFault String
  | .str value =>
    if isHash value then .ok value.toLower
    else .error (.verification "AnchorHashMismatch" "invalid block hash")
  | _ => .error (.verification "AnchorHashMismatch" "invalid block hash")

/-- A hash in lower case stands for itself. -/
theorem normalizeHash_hexData {bytes : List UInt8} (h : bytes.length = 32) :
    normalizeHash (.str (hexData bytes)) = .ok (hexData bytes) := by
  have hhex := all_flatMap_hexByte bytes
  have hlength : (bytes.flatMap hexByte).length = 64 := by rw [length_flatMap_hexByte, h]
  have hash : isHash (hexData bytes) = true := isHash_hexText hlength hhex
  simp only [normalizeHash, if_pos hash]
  rw [hexData, toLower_hexText hhex]

/-- The reference to a block by its hash. -/
def hashReference (blockHash : String) : Json :=
  .obj [("blockHash", .str blockHash), ("requireCanonical", .bool true)]

def eip1898Reference (anchor : BlockRef) : Except RpcFault Json := do
  return hashReference (← normalizeHash (.str anchor.blockHash))

def numberReference (anchor : BlockRef) : Json := .str (hex anchor.number)

/-- `params` of an `eth_call`. -/
def ethCallParams (target : String) (calldata : List UInt8) (reference : Json) : List Json :=
  [.obj [("to", .str target), ("data", .str (hexData calldata))], reference]

def readBlockHash (endpoint : EndpointConfig) (blockNumber exchange : Nat) : ClientProgram String := do
  let result ← callOnEndpoint endpoint "eth_getBlockByNumber" [.str (hex blockNumber), .bool false]
    exchange
  match result with
  | .obj fields => ofExcept (normalizeHash (Json.get fields "hash"))
  | _ => throw (.verification "AnchorHashMismatch" "block lookup returned no object")

def assertAnchorHash (endpoint : EndpointConfig) (anchor : BlockRef) (exchange : Nat) :
    ClientProgram Unit := do
  let observed ← readBlockHash endpoint anchor.number exchange
  let expected ← ofExcept (normalizeHash (.str anchor.blockHash))
  ofExcept (check (observed = expected)
    (.verification "AnchorHashMismatch" s!"endpoint {endpoint.name} anchor hash mismatch"))

/-- In `t`, the endpoint named the anchor's hash as the hash of the anchor's number. -/
def AnchorConfirmed (t : List (Sigma RpcAns)) (endpoint : EndpointConfig) (anchor : BlockRef) : Prop :=
  ∃ fields, CallAnswered t endpoint "eth_getBlockByNumber" [.str (hex anchor.number), .bool false]
      (.obj fields) ∧
    normalizeHash (Json.get fields "hash") = normalizeHash (.str anchor.blockHash)

/-- The check returns only when the endpoint confirmed the anchor. -/
theorem anchorConfirmed_of_runs {endpoint : EndpointConfig} {anchor : BlockRef} {exchange : Nat}
    {t : List (Sigma RpcAns)} {u : Unit} (h : Runs (assertAnchorHash endpoint anchor exchange) t (.ok u)) :
    AnchorConfirmed t endpoint anchor := by
  obtain ⟨observed, t₁, t₂, rfl, h₁, h₂⟩ := runs_bind_ok_iff.mp h
  obtain ⟨result, t₃, t₄, rfl, h₃, h₄⟩ := runs_bind_ok_iff.mp h₁
  have hanswered := answered_of_runs h₃
  cases result with
  | obj fields =>
    obtain ⟨rfl, hobserved⟩ := runs_ofExcept_iff.mp h₄
    obtain ⟨expected, t₅, t₆, rfl, h₅, h₆⟩ := runs_bind_ok_iff.mp h₂
    obtain ⟨rfl, hexpected⟩ := runs_ofExcept_iff.mp h₅
    obtain ⟨rfl, hcheck⟩ := runs_ofExcept_iff.mp h₆
    have heq := of_decide_eq_true (check_eq_ok_iff.mp hcheck.symm)
    refine ⟨fields, hanswered.mono (by simp), ?_⟩
    rw [← hobserved, ← hexpected, heq]
  | null => exact absurd h₄ not_runs_raise_ok
  | bool b => exact absurd h₄ not_runs_raise_ok
  | int i => exact absurd h₄ not_runs_raise_ok
  | float x => exact absurd h₄ not_runs_raise_ok
  | str s => exact absurd h₄ not_runs_raise_ok
  | arr items => exact absurd h₄ not_runs_raise_ok

/-- An endpoint may confirm the anchor. -/
theorem mayEnd_assertAnchorHash {pool : EndpointPool} {anchor : BlockRef} {endpoint : EndpointConfig}
    {exchange : Nat} {observed : String} (h : normalizeHash (.str anchor.blockHash) = .ok observed) :
    MayEnd pool.Answers (assertAnchorHash endpoint anchor exchange) (.ok ()) := by
  rw [assertAnchorHash, h]
  refine MayEnd.bind (a := observed) ?_ (.bind (.ofExcept (.ok observed)) ?_)
  · refine .bind (mayEnd_callOnEndpoint endpoint _ _ _ (.obj [("hash", .str anchor.blockHash)])) ?_
    have hhash : Json.get [("hash", Json.str anchor.blockHash)] "hash" = .str anchor.blockHash := rfl
    simp only [hhash, h]
    exact .ret observed
  · rw [decide_eq_true rfl]
    exact .ret ()

end RpcStateIndexer
