import RpcStateIndexer.Config.Token
import RpcStateIndexer.Evm.Bytes
import RpcStateIndexer.Reasoning.Except

/-!
# ABI fragments and event topics

`AbiRegistry` reads committed ABI documents and derives `topic0` from the canonical signature.  The
documents and the hash function are parameters.
-/

namespace RpcStateIndexer

open Reasoning

structure EventDefinition where
  abiName : String
  eventName : String
  topic0 : String
  indexedTypes : List String
  deriving DecidableEq

/-- The committed fragments by name, each an array of objects or the error of loading it. -/
structure AbiRegistry where
  documents : String → Except String (List (List (String × Json)))
  keccak : String → Word

namespace AbiRegistry

/-- The type of one input and whether it is indexed. -/
def parseInput (eventName : String) (item : Json) : Except String (String × Bool) :=
  match item with
  | .obj fields =>
    match Json.get fields "type", Json.get fields "indexed" with
    | .str type, .bool indexed => .ok (type, indexed)
    | .str _, _ => .error s!"event input has no boolean indexed flag: {eventName}"
    | _, _ => .error s!"malformed event input: {eventName}"
  | _ => .error s!"malformed event input: {eventName}"

def isEvent (eventName : String) (item : List (String × Json)) : Bool :=
  match Json.get item "type", Json.get item "name" with
  | .str type, .str name => type = "event" && name = eventName
  | _, _ => false

def event (abi : AbiRegistry) (abiName eventName : String) : Except String EventDefinition := do
  let document ← abi.documents abiName
  match document.filter (isEvent eventName) with
  | [item] =>
    match Json.get item "anonymous", Json.get item "inputs" with
    | .bool false, .arr rawInputs => do
      let inputs ← rawInputs.mapM (parseInput eventName)
      let signature := eventName ++ "(" ++ ",".intercalate (inputs.map Prod.fst) ++ ")"
      return {
        abiName, eventName
        topic0 := hexText (hexDigest (abi.keccak signature))
        indexedTypes := (inputs.filter Prod.snd).map Prod.fst }
    | .bool false, _ => .error s!"event inputs must be an array: {eventName}"
    | _, _ => .error s!"anonymous events are unsupported: {eventName}"
  | _ => .error s!"expected exactly one {eventName} event in {abiName}.json"

/-- The event, provided its configured topics are indexed addresses. -/
def validateHolderTopics (abi : AbiRegistry) (abiName eventName : String)
    (holderTopics : List Nat) : Except String EventDefinition := do
  let event ← abi.event abiName eventName
  holderTopics.forM fun position =>
    match event.indexedTypes[position - 1]? with
    | none => .error s!"{abiName}.{eventName} has no indexed topic {position}"
    | some type =>
      check (type = "address") s!"{abiName}.{eventName} topic {position} is not address"
  return event

/-- The first topic is a lower-case 32-byte word, whatever the hash function. -/
theorem topic0_ok {abi : AbiRegistry} {abiName eventName : String} {holderTopics : List Nat}
    {e : EventDefinition} (h : abi.validateHolderTopics abiName eventName holderTopics = .ok e) :
    isHash e.topic0 = true ∧ e.topic0.toLower = e.topic0 := by
  have hevent : abi.event abiName eventName = .ok e := by
    simp only [validateHolderTopics, except_bind_eq_ok_iff, except_pure_eq_ok_iff] at h
    obtain ⟨_, hevent, -, -, rfl⟩ := h
    exact hevent
  simp only [event, except_bind_eq_ok_iff] at hevent
  obtain ⟨document, -, hmatch⟩ := hevent
  split at hmatch
  · split at hmatch
    · simp only [except_bind_eq_ok_iff, except_pure_eq_ok_iff] at hmatch
      obtain ⟨inputs, -, rfl⟩ := hmatch
      exact ⟨isHash_hexText (hexDigest_length _) (hexDigest_all _),
        toLower_hexText (hexDigest_all _)⟩
    · simp at hmatch
    · simp at hmatch
  · simp at hmatch

end AbiRegistry

end RpcStateIndexer
