import RpcStateIndexer.Discovery.Store
import RpcStateIndexer.Universes.Resolution

/-!
# The holder table as a source

`ClickHouseHolderUniverseRepository` reads the members of a ledger out of `holder_universe`.  A member
list is determined by which holder was seen under which label by the anchor.
-/

namespace RpcStateIndexer

open Reasoning Program

/-- `if(source_detail = '', source, concat(source, ':', source_detail))` -/
def HolderRow.label (row : HolderRow) : String :=
  if row.sourceDetail = "" then row.source else row.source ++ ":" ++ row.sourceDetail

namespace DiscoveryStore

/-- The merged rows of a ledger that were first seen by the anchor. -/
def rowsOfLedger (store : DiscoveryStore) (chainId : Nat) (tokenAddress : String) (anchorBlock : Nat) :
    List HolderRow :=
  store.holderUniverse.filter fun row =>
    row.chainId = chainId && row.tokenAddress = tokenAddress && row.firstSeenBlock ≤ anchorBlock

/-- The holders of a ledger in address order, each with its sorted labels. -/
def membersOfLedger (store : DiscoveryStore) (chainId : Nat) (tokenAddress : String) (anchorBlock : Nat) :
    List UniverseMember :=
  let rows := store.rowsOfLedger chainId tokenAddress anchorBlock
  (sortedSet (rows.map HolderRow.holderAddress)).map fun holder =>
    ⟨holder, sortedSet ((rows.filter fun row => row.holderAddress = holder).map HolderRow.label)⟩

/-- `holder_members`, which normalizes the address of the ledger. -/
def holderMembers (store : DiscoveryStore) (chainId : Nat) (tokenAddress : String) (anchorBlock : Nat) :
    Except String (List UniverseMember) := do
  let tokenAddress ← normalizeAddress tokenAddress
  return store.membersOfLedger chainId tokenAddress anchorBlock

/-- The holder was seen on the ledger under the label by the anchor. -/
def Seen (store : DiscoveryStore) (chainId : Nat) (tokenAddress : String) (anchorBlock : Nat)
    (holder label : String) : Prop :=
  ∃ row ∈ store.holders, row.chainId = chainId ∧ row.tokenAddress = tokenAddress ∧
    row.holderAddress = holder ∧ row.label = label ∧ row.firstSeenBlock ≤ anchorBlock

variable {store store' : DiscoveryStore} {chainId anchorBlock : Nat} {tokenAddress : String}

/-- What merging does to a row shows in the query only through the earliest block. -/
theorem exists_rowOfLedger_iff {holder label : String} :
    (∃ row ∈ store.rowsOfLedger chainId tokenAddress anchorBlock, row.holderAddress = holder ∧
      row.label = label) ↔ store.Seen chainId tokenAddress anchorBlock holder label := by
  have haggregate := exists_aggregate_le_iff HolderRow.key_merge HolderRow.firstSeenBlock_merge
    store.holders
  have hlabel : ∀ {a b : HolderRow}, a.key = b.key → a.label = b.label := by
    intro a b hkey
    simp only [HolderRow.key, Prod.mk.injEq] at hkey
    unfold HolderRow.label
    rw [hkey.2.2.2.1, hkey.2.2.2.2]
  constructor
  · rintro ⟨row, hrow, rfl, rfl⟩
    obtain ⟨hmem, hcols⟩ := List.mem_filter.mp hrow
    simp only [Bool.and_eq_true, decide_eq_true_eq] at hcols
    obtain ⟨r, hr, hkey, hle⟩ := (haggregate row.key anchorBlock).mp ⟨row, hmem, rfl, hcols.2⟩
    have hsame := hlabel hkey
    simp only [HolderRow.key, Prod.mk.injEq] at hkey
    exact ⟨r, hr, hkey.1.trans hcols.1.1, hkey.2.1.trans hcols.1.2, hkey.2.2.1, hsame, hle⟩
  · rintro ⟨r, hr, hchain, htoken, rfl, rfl, hle⟩
    obtain ⟨row, hrow, hkey, hle⟩ := (haggregate r.key anchorBlock).mpr ⟨r, hr, rfl, hle⟩
    have hsame := hlabel hkey
    simp only [HolderRow.key, Prod.mk.injEq] at hkey
    refine ⟨row, List.mem_filter.mpr ⟨hrow, ?_⟩, hkey.2.2.1, hsame⟩
    simp only [Bool.and_eq_true, decide_eq_true_eq]
    exact ⟨⟨hkey.1.trans hchain, hkey.2.1.trans htoken⟩, hle⟩

/-- A member carries exactly the labels it was seen under. -/
theorem mem_membersOfLedger {member : UniverseMember}
    (h : member ∈ store.membersOfLedger chainId tokenAddress anchorBlock) :
    member.sources ≠ [] ∧ ∀ label, label ∈ member.sources ↔
      store.Seen chainId tokenAddress anchorBlock member.address label := by
  obtain ⟨holder, hholder, rfl⟩ := List.mem_map.mp h
  have hsources : ∀ label, label ∈ sortedSet (((store.rowsOfLedger chainId tokenAddress anchorBlock).filter
      fun row => row.holderAddress = holder).map HolderRow.label) ↔
        store.Seen chainId tokenAddress anchorBlock holder label := by
    intro label
    rw [mem_sortedSet, List.mem_map, ← exists_rowOfLedger_iff]
    constructor
    · rintro ⟨row, hrow, rfl⟩
      obtain ⟨hmem, heq⟩ := List.mem_filter.mp hrow
      exact ⟨row, hmem, of_decide_eq_true heq, rfl⟩
    · rintro ⟨row, hmem, heq, rfl⟩
      exact ⟨row, List.mem_filter.mpr ⟨hmem, decide_eq_true heq⟩, rfl⟩
  obtain ⟨row, hrow, heq⟩ := List.mem_map.mp (mem_sortedSet.mp hholder)
  refine ⟨?_, hsources⟩
  exact List.ne_nil_of_mem ((hsources row.label).mpr (exists_rowOfLedger_iff.mp ⟨row, hrow, heq, rfl⟩))

/-- The members are those seen, each once, in address order. -/
theorem frozenAs_membersOfLedger : FrozenAs (store.Seen chainId tokenAddress anchorBlock)
    ((store.membersOfLedger chainId tokenAddress anchorBlock).map fun member =>
      (member.address, member.sources)) where
  sorted := by
    have haddresses : ((store.membersOfLedger chainId tokenAddress anchorBlock).map fun member =>
        (member.address, member.sources)).map Prod.fst =
          sortedSet ((store.rowsOfLedger chainId tokenAddress anchorBlock).map HolderRow.holderAddress) := by
      unfold membersOfLedger
      rw [List.map_map, List.map_map]
      exact List.map_id _
    rw [haddresses]
    exact sortedSet_pairwise _
  members := by
    intro address
    simp only [List.map_map, List.mem_map, Function.comp_apply]
    constructor
    · rintro ⟨member, hmember, rfl⟩
      obtain ⟨hne, hlabels⟩ := mem_membersOfLedger hmember
      obtain ⟨label, hlabel⟩ := List.exists_mem_of_ne_nil _ hne
      exact ⟨label, (hlabels label).mp hlabel⟩
    · rintro ⟨label, hseen⟩
      obtain ⟨row, hrow, heq, -⟩ := exists_rowOfLedger_iff.mpr hseen
      exact ⟨_, List.mem_map_of_mem (mem_sortedSet.mpr (List.mem_map.mpr ⟨row, hrow, heq⟩)), rfl⟩
  provenance := by
    intro entry hentry
    obtain ⟨member, hmember, rfl⟩ := List.mem_map.mp hentry
    obtain ⟨hne, hlabels⟩ := mem_membersOfLedger hmember
    obtain ⟨holder, -, rfl⟩ := List.mem_map.mp hmember
    exact ⟨hne, sortedSet_pairwise _, hlabels⟩

/-- Stores in which the same was seen by the anchor have the same members, whatever rows they hold. -/
theorem membersOfLedger_eq
    (h : ∀ holder label, store'.Seen chainId tokenAddress anchorBlock holder label ↔
      store.Seen chainId tokenAddress anchorBlock holder label) :
    store'.membersOfLedger chainId tokenAddress anchorBlock =
      store.membersOfLedger chainId tokenAddress anchorBlock := by
  have hseen : store'.Seen chainId tokenAddress anchorBlock =
      store.Seen chainId tokenAddress anchorBlock := by
    funext holder label
    exact propext (h holder label)
  have hsame := (hseen ▸ store'.frozenAs_membersOfLedger).unique store.frozenAs_membersOfLedger
  have hinj : Function.Injective fun member : UniverseMember => (member.address, member.sources) := by
    rintro ⟨address, sources⟩ ⟨address', sources'⟩ heq
    rw [Prod.mk.injEq] at heq
    rw [UniverseMember.mk.injEq]
    exact heq
  exact hinj.list_map hsame

end DiscoveryStore

end RpcStateIndexer
