import RpcStateIndexer.Anchors.Resolver

/-!
# The contract of the anchor resolver

Against a chain whose timestamps do not decrease and which is served consistently, a resolution ends
with the last block before midnight or raises for one of three reasons.  Against any other oracle a
resolution that returns still carries its boundary proof.
-/

namespace RpcStateIndexer

open Reasoning Program AnchorResolver

/-! ## A chain served consistently -/

/-- A chain of `height` blocks after genesis.  `lookup` is what a number or a tag refers to. -/
structure ChainView where
  height : Nat
  block : Nat → BlockRef
  lookup : String → Option Nat
  number_eq : ∀ n, (block n).number = n
  parent_eq : ∀ n, (block (n + 1)).parentHash = (block n).blockHash
  monotone : ∀ m n, m ≤ n → n ≤ height → (block m).timestamp ≤ (block n).timestamp
  lookup_le : ∀ parameter, ∀ n ∈ lookup parameter, n ≤ height
  lookup_latest : lookup "latest" = some height
  lookup_hex : ∀ n ≤ height, lookup (hex n) = some n

/-- A JSON object with the fields of a block, in any casing of the hashes. -/
def Renders (fields : List (String × Json)) (b : BlockRef) : Prop :=
  ∃ number timestamp blockHash parentHash,
    Json.get fields "number" = .str number ∧ isHexQuantity number = true ∧
      hexValue number = b.number ∧
    Json.get fields "timestamp" = .str timestamp ∧ isHexQuantity timestamp = true ∧
      hexValue timestamp = b.timestamp ∧
    Json.get fields "hash" = .str blockHash ∧ isHash blockHash = true ∧
      blockHash.toLower = b.blockHash ∧
    Json.get fields "parentHash" = .str parentHash ∧ isHash parentHash = true ∧
      parentHash.toLower = b.parentHash

namespace ChainView

/-- An answer of the chain: the block that was asked for, or that there is none. -/
def Answers (view : ChainView) (x : Sigma RpcReply) : Prop :=
  ∀ parameter, x.1 = getBlock parameter →
    match view.lookup parameter with
    | some n => ∃ fields endpoint, x.2 = .ok (.obj fields, endpoint) ∧ Renders fields (view.block n)
    | none => (∃ endpoint, x.2 = .ok (.null, endpoint)) ∨
        ∃ message, x.2 = .error (.failure "RpcResponseError" message)

/-- The number of the safe tip, where there is one. -/
def safeNumber (view : ChainView) (resolver : AnchorResolver) : Option Nat :=
  match view.lookup resolver.finalityTag with
  | some n => some n
  | none =>
    if resolver.confirmationDepth ≤ view.height then
      some (view.height - resolver.confirmationDepth)
    else none

/-- The environment of a resolution against the chain. -/
def env (view : ChainView) (req : RpcRequest) (w : Unit) (reply : RpcReply req) (w' : Unit) : Prop :=
  view.Answers ⟨req, reply⟩ ∧ w' = w

end ChainView

theorem parseBlock_of_renders {fields : List (String × Json)} {b : BlockRef}
    (h : Renders fields b) {expected : Option Nat} (hexpected : ∀ n ∈ expected, b.number = n) :
    parseBlock (.obj fields) expected = .ok b := by
  obtain ⟨number, timestamp, blockHash, parentHash, h₁, h₂, h₃, h₄, h₅, h₆, h₇, h₈, h₉, h₁₀, h₁₁,
    h₁₂⟩ := h
  have hall : (expected.all fun n => decide (b.number = n)) = true := by
    cases expected with
    | none => rfl
    | some n => simpa using hexpected n rfl
  simp only [parseBlock, parseBlockQuantity, parseBlockHash, h₁, h₂, h₃, h₄, h₅, h₆, h₇, h₈, h₉,
    h₁₀, h₁₁, h₁₂, if_true, except_ok_bind, hall, check]
  rfl

section Honest

variable {view : ChainView} {C : Unit → Prop} (hC : ∀ u, C u)
include hC

/-- A read of a parameter the chain knows. -/
theorem safe_readBlock {parameter : String} {n : Nat} {parse : Json → Except AnchorException BlockRef}
    {Q : Except AnchorException (BlockRef × String) → Unit → Prop}
    (hlookup : view.lookup parameter = some n)
    (hparse : ∀ fields, Renders fields (view.block n) → parse (.obj fields) = .ok (view.block n))
    (hQ : ∀ fingerprint, Q (.ok (view.block n, fingerprint)) ()) :
    Safe view.env C Q (readBlock parameter parse) () := by
  rintro reply ⟨⟩ ⟨hanswer, -⟩
  refine ⟨hC _, ?_⟩
  have hreply := hanswer parameter rfl
  rw [hlookup] at hreply
  obtain ⟨fields, endpoint, rfl, hrenders⟩ := hreply
  simp only [hparse fields hrenders]
  exact hQ endpoint.fingerprint

theorem safe_readByNumber {n : Nat} (hn : n ≤ view.height)
    {Q : Except AnchorException (BlockRef × String) → Unit → Prop}
    (hQ : ∀ fingerprint, Q (.ok (view.block n, fingerprint)) ()) :
    Safe view.env C Q (readByNumber n) () := by
  refine safe_readBlock hC (view.lookup_hex n hn) (fun fields hrenders => ?_) hQ
  apply parseBlock_of_renders hrenders
  intro m hm
  rw [view.number_eq, Option.some.inj hm]

theorem safe_readByTag {tag : String} {n : Nat} (hlookup : view.lookup tag = some n)
    {Q : Except AnchorException (BlockRef × String) → Unit → Prop}
    (hQ : ∀ fingerprint, Q (.ok (view.block n, fingerprint)) ()) :
    Safe view.env C Q (readByTag tag) () := by
  refine safe_readBlock hC hlookup (fun fields hrenders => ?_) hQ
  exact parseBlock_of_renders hrenders fun m hm => absurd hm (by simp)

/-- A tag the chain does not know is reported in one of the two ways the resolver expects. -/
theorem safe_readByTag_unknown {tag : String} (hlookup : view.lookup tag = none)
    {Q : Except AnchorException (BlockRef × String) → Unit → Prop}
    (hQ : ∀ e, tagUnsupported e = true → Q (.error e) ()) :
    Safe view.env C Q (readByTag tag) () := by
  have hlatest : tag ≠ "latest" := by
    rintro rfl
    exact absurd (hlookup.symm.trans view.lookup_latest) nofun
  rintro reply ⟨⟩ ⟨hanswer, -⟩
  refine ⟨hC _, ?_⟩
  have hreply := hanswer tag rfl
  rw [hlookup] at hreply
  rcases hreply with ⟨endpoint, rfl⟩ | ⟨message, rfl⟩
  · simp only [parseTagged, ne_eq, hlatest, not_false_eq_true, if_true]
    exact hQ _ rfl
  · exact hQ _ (by simp [tagUnsupported])

/-- The safe tip is the block of the safe number, or there is none. -/
theorem safe_safeTip (resolver : AnchorResolver)
    {Q : Except AnchorException (BlockRef × String × List String) → Unit → Prop}
    (hok : ∀ n ∈ view.safeNumber resolver, ∀ source fingerprints,
      Q (.ok (view.block n, source, fingerprints)) ())
    (herror : view.safeNumber resolver = none → ∀ e, Q (.error e) ()) :
    Safe view.env C Q resolver.safeTip () := by
  rw [safeTip, safe_tryCatch]
  cases hlookup : view.lookup resolver.finalityTag with
  | some n =>
    rw [safe_bind]
    refine safe_readByTag hC hlookup fun fingerprint => ?_
    exact hok n (by simp [ChainView.safeNumber, hlookup]) _ _
  | none =>
    rw [safe_bind]
    refine safe_readByTag_unknown hC hlookup fun e he => ?_
    simp only [andThen_error, orElse_error, he, if_true, depthTip]
    rw [safe_bind]
    refine safe_readByTag hC view.lookup_latest fun latest => ?_
    simp only [andThen_ok, view.number_eq]
    by_cases hdepth : resolver.confirmationDepth ≤ view.height
    · rw [if_neg (by omega), safe_bind]
      refine safe_readByNumber hC (by omega) fun safe => ?_
      exact hok _ (by simp [ChainView.safeNumber, hlookup, hdepth]) _ _
    · rw [if_pos (by omega)]
      exact herror (by simp [ChainView.safeNumber, hlookup, hdepth]) _

/-- The cache holds blocks of the chain. -/
def CacheOk (view : ChainView) (st : ReadState) : Prop :=
  ∀ n b, st.cache.lookup n = some b → b = view.block n

theorem safe_read {st : ReadState} (hst : CacheOk view st) {n : Nat} (hn : n ≤ view.height)
    {Q : Except AnchorException (BlockRef × ReadState) → Unit → Prop}
    (hQ : ∀ st', CacheOk view st' → Q (.ok (view.block n, st')) ()) :
    Safe view.env C Q (read st n) () := by
  rw [AnchorResolver.read]
  cases hcached : st.cache.lookup n with
  | some b =>
    rw [hst n b hcached]
    exact hQ st hst
  | none =>
    simp only
    rw [safe_bind]
    refine safe_readByNumber hC hn fun fingerprint => hQ _ ?_
    intro m b hb
    by_cases hm : m = n
    · subst hm
      simpa [ReadState.served, List.lookup_cons] using hb.symm
    · have hm' : (m == n) = false := by simpa using hm
      rw [ReadState.served, List.lookup_cons, hm'] at hb
      exact hst m b hb

/-- The search keeps its two ends on either side of the boundary until they are adjacent. -/
theorem safe_search {boundary : Int} {low high : Nat} {st : ReadState} (hst : CacheOk view st)
    (hlt : low < high) (hhigh : high ≤ view.height)
    (hbefore : ((view.block low).timestamp : Int) < boundary)
    (hafter : boundary ≤ ((view.block high).timestamp : Int))
    {Q : Except AnchorException (Nat × Nat × ReadState) → Unit → Prop}
    (hQ : ∀ low' st', low' + 1 ≤ high → ((view.block low').timestamp : Int) < boundary →
      boundary ≤ ((view.block (low' + 1)).timestamp : Int) → CacheOk view st' →
        Q (.ok (low', low' + 1, st')) ()) :
    Safe view.env C Q (search boundary low high st) () := by
  induction hgap : high - low using Nat.strong_induction_on generalizing low high st with
  | h gap ih =>
    rw [search]
    by_cases hadjacent : 1 < high - low
    · rw [if_pos hadjacent, safe_bind]
      refine safe_read hC hst (by omega) fun st' hst' => ?_
      simp only [andThen_ok]
      -- The middle block replaces the end whose side of the boundary it is on.
      by_cases hmiddle : ((view.block (low + (high - low) / 2)).timestamp : Int) < boundary
      · rw [if_pos hmiddle]
        exact ih _ (by omega) hst' (by omega) hhigh hmiddle hafter hQ rfl
      · rw [if_neg hmiddle]
        refine ih _ (by omega) hst' (by omega) (by omega) hbefore (by omega) ?_ rfl
        exact fun low' st'' hle => hQ low' st'' (by omega)
    · rw [if_neg hadjacent]
      obtain rfl : high = low + 1 := by omega
      exact hQ low st le_rfl hbefore hafter hst

theorem safe_confirm {boundary : Int} {snapshotDate n tip : Nat} {source : String}
    {fingerprints : List String} (hdate : utcDayEndTimestamp snapshotDate = .ok boundary)
    (htip : tip ≤ view.height) (hn : n + 1 ≤ tip)
    (hbefore : ((view.block n).timestamp : Int) < boundary)
    (hafter : boundary ≤ ((view.block (n + 1)).timestamp : Int))
    {Q : Except AnchorException ResolvedAnchor → Unit → Prop}
    (hQ : ∀ resolved, resolved.anchor = view.block n → resolved.nextBlock = view.block (n + 1) →
      resolved.safeTip = view.block tip → Q (.ok resolved) ()) :
    Safe view.env C Q (confirm snapshotDate (view.block tip) source (view.block n)
      (view.block (n + 1)) fingerprints) () := by
  rw [confirm]
  simp only [view.number_eq]
  rw [safe_bind]
  refine safe_readByNumber hC (by omega) fun fingerprint => ?_
  simp only [andThen_ok]
  rw [safe_bind]
  refine safe_readByNumber hC (by omega) fun fingerprint' => ?_
  simp only [andThen_ok, and_self, decide_true, check, if_true]
  have hvalid : ∀ fps, validateResolvedAnchor
      ⟨snapshotDate, view.block n, view.block (n + 1), view.block tip, source, fps⟩ = .ok () := by
    intro fps
    simp [validateResolvedAnchor, hdate, check, hbefore, hafter, view.number_eq, view.parent_eq, hn]
  have hreturn := hQ ⟨snapshotDate, view.block n, view.block (n + 1), view.block tip, source,
    (((⟨[], fingerprints⟩ : ReadState).served fingerprint).served fingerprint').fingerprints⟩ rfl
    rfl rfl
  show Safe view.env C Q ((ofExcept (validateResolvedAnchor _) : AnchorProgram Unit) >>= fun _ => _) ()
  rw [hvalid]
  exact hreturn

end Honest

/-! ## A resolution against a chain -/

/-- The three reasons not to resolve a date, and the block that is resolved otherwise. -/
def Resolves (view : ChainView) (resolver : AnchorResolver) (boundary : Int)
    (result : Except AnchorException ResolvedAnchor) : Prop :=
  match view.safeNumber resolver with
  | none => ∃ e, result = .error e
  | some tip =>
    if boundary ≤ ((view.block tip).timestamp : Int) ∧
        ((view.block 0).timestamp : Int) < boundary then
      ∃ resolved n, result = .ok resolved ∧ n < tip ∧ resolved.anchor = view.block n ∧
        resolved.nextBlock = view.block (n + 1) ∧
        ∀ m ≤ view.height, ((view.block m).timestamp : Int) < boundary ↔ m ≤ n
    else ∃ e, result = .error e

theorem ChainView.safeNumber_le {view : ChainView} {resolver : AnchorResolver} {tip : Nat}
    (h : view.safeNumber resolver = some tip) : tip ≤ view.height := by
  rw [ChainView.safeNumber] at h
  cases hlookup : view.lookup resolver.finalityTag with
  | some n =>
    rw [hlookup] at h
    exact Option.some.inj h ▸ view.lookup_le _ n hlookup
  | none =>
    rw [hlookup] at h
    by_cases hdepth : resolver.confirmationDepth ≤ view.height
    · simp only [hdepth, if_true, Option.some.injEq] at h
      omega
    · simp [hdepth] at h

theorem safe_resolve (view : ChainView) (resolver : AnchorResolver) {snapshotDate : Nat}
    {boundary : Int} (hdate : utcDayEndTimestamp snapshotDate = .ok boundary) :
    Safe view.env (fun _ => True) (fun r _ => Resolves view resolver boundary r)
      (resolver.resolve snapshotDate) () := by
  have hC : ∀ u : Unit, (fun _ => True) u := fun _ => trivial
  rw [resolve, hdate]
  show Safe _ _ _ (resolver.safeTip >>= fun _ => _) ()
  rw [safe_bind]
  refine safe_safeTip hC resolver (fun tip htip source fingerprints => ?_) ?_
  · have hsafe : view.safeNumber resolver = some tip := htip
    have hheight := ChainView.safeNumber_le hsafe
    have hraise : ∀ e, ¬ (boundary ≤ ((view.block tip).timestamp : Int) ∧
        ((view.block 0).timestamp : Int) < boundary) → Resolves view resolver boundary (.error e) := by
      intro e hnot
      rw [Resolves, hsafe]
      simp only [if_neg hnot]
      exact ⟨e, rfl⟩
    simp only [andThen_ok]
    by_cases hreached : ((view.block tip).timestamp : Int) < boundary
    · rw [if_pos hreached]
      exact hraise _ (by omega)
    · rw [if_neg hreached]
      show Safe _ _ _ (read _ 0 >>= fun _ => _) ()
      rw [safe_bind]
      have hcache : CacheOk view ⟨[((view.block tip).number, view.block tip)], fingerprints⟩ := by
        intro n b hb
        rw [view.number_eq, List.lookup_cons] at hb
        by_cases hn : n = tip
        · subst hn
          simpa using hb.symm
        · have hn' : (n == tip) = false := by simpa using hn
          rw [hn'] at hb
          exact absurd hb (by simp)
      refine safe_read hC hcache (by omega) fun st hst => ?_
      simp only [andThen_ok]
      by_cases hgenesis : boundary ≤ ((view.block 0).timestamp : Int)
      · rw [if_pos hgenesis]
        exact hraise _ (by omega)
      · rw [if_neg hgenesis]
        show Safe _ _ _ (search boundary 0 _ st >>= fun _ => _) ()
        rw [safe_bind, view.number_eq]
        -- Genesis is before the boundary and the tip is not, so they are different blocks.
        have hpos : 0 < tip := by
          rcases Nat.eq_zero_or_pos tip with rfl | hpos
          · omega
          · exact hpos
        refine safe_search hC hst hpos hheight (by omega) (by omega) ?_
        intro n st₁ hn hbefore hafter hst₁
        simp only [andThen_ok]
        show Safe _ _ _ (read st₁ n >>= fun _ => _) ()
        rw [safe_bind]
        refine safe_read hC hst₁ (by omega) fun st₂ hst₂ => ?_
        simp only [andThen_ok]
        show Safe _ _ _ (read st₂ (n + 1) >>= fun _ => _) ()
        rw [safe_bind]
        refine safe_read hC hst₂ (by omega) fun st₃ _ => ?_
        refine safe_confirm hC hdate hheight hn hbefore hafter ?_
        intro resolved hanchor hnext _
        rw [Resolves, hsafe]
        have hboth : boundary ≤ ((view.block tip).timestamp : Int) ∧
            ((view.block 0).timestamp : Int) < boundary := ⟨by omega, by omega⟩
        simp only [hboth, and_self, if_true]
        refine ⟨resolved, n, rfl, by omega, hanchor, hnext, fun m hm => ⟨fun hlt => ?_, fun hle => ?_⟩⟩
        · by_contra hgt
          have hmono := view.monotone (n + 1) m (by omega) hm
          omega
        · have hmono := view.monotone m n hle (by omega)
          omega
  · intro hnone e
    rw [andThen_error, Resolves, hnone]
    exact ⟨e, rfl⟩

end RpcStateIndexer
