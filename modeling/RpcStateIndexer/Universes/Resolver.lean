import RpcStateIndexer.Config.Catalog
import RpcStateIndexer.Reasoning.Descent
import RpcStateIndexer.Reasoning.MultiMap
import RpcStateIndexer.Reasoning.Program
import RpcStateIndexer.Storage.Digests

/-!
# The universe resolver

`UniverseResolver` freezes the members of a named universe for one token and anchor.  The holder table
and the vendored lists are behind operations; everything else is computed from the selectors.
-/

namespace RpcStateIndexer

open Reasoning Program

/-- An address of a holder source, with its provenance. -/
structure UniverseMember where
  address : String
  sources : List String
  deriving DecidableEq

inductive UniverseFault where
  /-- universe selector cycle: {path} -/
  | selectorCycle (path : List String)
  /-- unknown universe selector: {name} -/
  | unknownSelector (name : String)
  /-- holder repository returned no provenance for {address} -/
  | noProvenance (address : String)
  /-- holder repository returned empty provenance for {address} -/
  | emptyProvenance (address : String)
  /-- {kind} universe {name} has no children -/
  | noChildren (kind : UniverseKind) (name : String)
  | valueError (message : String)
  | digest (e : DigestException)
  /-- What the repository or the loader of lists raised. -/
  | source (message : String)
  deriving DecidableEq

/-- A cycle or an unknown name. -/
def UniverseFault.isReference : UniverseFault → Bool
  | .selectorCycle _ | .unknownSelector _ => true
  | _ => false

inductive UniverseOp where
  | holderMembers (chainId : Nat) (tokenAddress : String) (anchorBlock : Nat)
  | explicitAddresses (universeName : String)
  deriving DecidableEq

/-- Either may raise, with a message of its own. -/
abbrev UniverseAns : UniverseOp → Type
  | .holderMembers .. => Except String (List UniverseMember)
  | .explicitAddresses _ => Except String (List String)

abbrev UniverseProgram := Program UniverseOp UniverseAns UniverseFault

def holderMembers (chainId : Nat) (tokenAddress : String) (anchorBlock : Nat) :
    UniverseProgram (List UniverseMember) :=
  .call (.holderMembers chainId tokenAddress anchorBlock) fun answer =>
    ofExcept (answer.mapError .source)

def loadExplicit (universeName : String) : UniverseProgram (List String) :=
  .call (.explicitAddresses universeName) fun answer => ofExcept (answer.mapError .source)

/-- The members in the order they came, each with its labels. -/
abbrev SourceMap := MultiMap String String

/-! ## Selectors -/

/-- `normalize_address` as the resolver calls it. -/
def normalized (address : String) : Except UniverseFault String :=
  (normalizeAddress address).mapError .valueError

def holderLabel (universeName source : String) : String := s!"full_holders:{universeName}:{source}"

def seedLabel : String := "full_holders:config_seed"

def listLabel (universeName : String) (selector : UniverseConfig) : String :=
  let source := selector.source.getD ""
  s!"explicit_list:{universeName}:{source}"

/-- A row of the repository; it must have provenance, and none of it may be empty. -/
def addMember (universeName : String) (members : SourceMap) (member : UniverseMember) :
    Except UniverseFault SourceMap := do
  let address ← normalized member.address
  let labels := (member.sources.filter fun source => source ≠ "").map (holderLabel universeName)
  check (member.sources ≠ []) (.noProvenance address)
  check (labels.dedup.length = member.sources.dedup.length) (.emptyProvenance address)
  return members.update address labels

def addListed (label : String) (members : SourceMap) (address : String) :
    Except UniverseFault SourceMap := do
  return members.update (← normalized address) [label]

/-- The mappings are normalized by `make`. -/
structure UniverseResolver where
  chainId : Nat
  universes : List (String × UniverseConfig)
  seedHolders : List (String × List String)
  universeAliases : List (String × List String)

namespace UniverseResolver

def normalizeEntry (entry : String × List String) : Except UniverseFault (String × List String) := do
  return (← normalized entry.1, ← entry.2.mapM normalized)

/-- The constructor.  A later entry of a mapping replaces an earlier one of the same key. -/
def make (chainId : Nat) (universes : List (String × UniverseConfig))
    (seedHolders universeAliases : List (String × List String)) :
    Except UniverseFault UniverseResolver := do
  check (1 ≤ chainId) (.valueError "chain_id must be positive")
  let seedHolders ← seedHolders.mapM normalizeEntry
  let universeAliases ← universeAliases.mapM normalizeEntry
  return ⟨chainId, universes, seedHolders.reverse, universeAliases.reverse⟩

/-- The ledgers whose holders are read for a token: its own and those of its aliases. -/
def ledgers (self : UniverseResolver) (tokenAddress : String) : List String :=
  tokenAddress :: (self.universeAliases.lookup tokenAddress).getD []

def seeds (self : UniverseResolver) (tokenAddress : String) : List String :=
  (self.seedHolders.lookup tokenAddress).getD []

def fullHolders (self : UniverseResolver) (tokenAddress : String) (anchorBlock : Nat)
    (universeName : String) : UniverseProgram SourceMap := do
  let members ← (self.ledgers tokenAddress).mapM fun ledger =>
    holderMembers self.chainId ledger anchorBlock
  let output ← ofExcept (members.flatten.foldlM (addMember universeName) [])
  return (self.seeds tokenAddress).foldl (fun output address => output.update address [seedLabel]) output

def explicitList (universeName : String) (selector : UniverseConfig) : UniverseProgram SourceMap := do
  let addresses ← loadExplicit universeName
  ofExcept (addresses.foldlM (addListed (listLabel universeName selector)) [])

/-- The members of the children of a composed selector. -/
def compose (universeName : String) (selector : UniverseConfig)
    (children : List (UniverseProgram SourceMap)) (combine : List SourceMap → SourceMap) :
    UniverseProgram SourceMap := do
  let members ← children.mapM id
  ofExcept (check (members ≠ []) (.noChildren selector.kind universeName))
  return combine members

def visit (self : UniverseResolver) (tokenAddress : String) (anchorBlock : Nat) (universeName : String)
    (selector : UniverseConfig) (children : List (UniverseProgram SourceMap)) :
    UniverseProgram SourceMap :=
  match selector.kind with
  | .fullHolders => self.fullHolders tokenAddress anchorBlock universeName
  | .explicitList => explicitList universeName selector
  | .union => compose universeName selector children MultiMap.join
  | .intersect => compose universeName selector children MultiMap.meet

/-- `_resolve_map`; the path of a cycle starts at the name that was asked for. -/
def resolveMap (self : UniverseResolver) (tokenAddress : String) (anchorBlock : Nat)
    (stack : List String) (universeName : String) : UniverseProgram SourceMap :=
  descend self.universes UniverseConfig.of
    (fun stack name => throw (.selectorCycle (stack.reverse ++ [name])))
    (fun name => throw (.unknownSelector name)) (self.visit tokenAddress anchorBlock) stack universeName

/-- The sorted members of a mapping, with their sorted labels. -/
def frozenSources (members : SourceMap) : List (String × List String) :=
  (sortBy id members.keys).map fun address => (address, sortedSet (members.valuesOf address))

def freeze (members : SourceMap) : Except UniverseFault FrozenUniverse := do
  let sources := frozenSources members
  let universeHash ← (digestUniverse sources).mapError .digest
  return ⟨sortBy id members.keys, sources, universeHash⟩

def resolve (self : UniverseResolver) (universeName tokenAddress : String) (anchorBlock : Nat) :
    UniverseProgram FrozenUniverse := do
  let tokenAddress ← ofExcept (normalized tokenAddress)
  let members ← self.resolveMap tokenAddress anchorBlock [] universeName
  ofExcept (freeze members)

end UniverseResolver

end RpcStateIndexer
