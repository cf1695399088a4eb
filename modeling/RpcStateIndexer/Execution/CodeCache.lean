import RpcStateIndexer.Execution.CodeVerifier
import RpcStateIndexer.Reasoning.Interleaving

/-!
# Concurrent verifications share only what was verified

Any number of calls of `verify` run over one cache.  A bucket belongs to the anchor it was made for, also
when the cache has moved on and only the calls that looked it up still hold it.  A call that stores its
evidence has just verified its own request, so whatever a bucket holds was verified for the bucket's anchor
under the entry's key.
-/

namespace RpcStateIndexer

open Reasoning Program VerifierProgram

/-! ## What a call has done -/

/-- A ghost of one call: its exchanges with the client, the bucket it holds, the evidence it found. -/
structure VerifyStage where
  exchanges : List (Sigma RpcAns)
  bucket : Option Nat
  found : Option CodeEvidence
  /-- every operation so far was one of this call -/
  fits : Prop

namespace HistoricalCodeVerifier

variable (keccak : List UInt8 → Word) (v : HistoricalCodeVerifier)

/-- The exchanges verified the request with this evidence. -/
def Verifies (request : CodeRequest) (t : List (Sigma RpcAns)) (evidence : CodeEvidence) : Prop :=
  Runs (v.uncached keccak request) t (.ok evidence)

/-- The stage after an answered operation. -/
def move (request : CodeRequest) (stage : VerifyStage) :
    (op : VerifierOp) → VerifierAns op → VerifyStage
  | .rpc op, answer => { stage with exchanges := stage.exchanges ++ [⟨op, answer⟩] }
  | .cacheGet blockHash, bucket =>
    { stage with bucket, fits := stage.fits ∧ blockHash = request.anchor.blockHash }
  | .bucketGet bucket key, found =>
    { stage with found, fits := stage.fits ∧ stage.bucket = some bucket ∧ key = request.cacheKey }
  | .replaceCache blockHash, bucket =>
    { stage with bucket := some bucket, fits := stage.fits ∧ blockHash = request.anchor.blockHash }
  | .bucketSet bucket key evidence, _ =>
    { stage with fits := stage.fits ∧ stage.bucket = some bucket ∧ key = request.cacheKey ∧
        v.Verifies keccak request stage.exchanges evidence }

/-- Where the evidence that a call returns is from. -/
def Obtained (request : CodeRequest) (r : Except CodeFault CodeEvidence) (stage : VerifyStage) : Prop :=
  ∀ evidence, r = .ok evidence →
    stage.found = some evidence ∨ v.Verifies keccak request stage.exchanges evidence

/-- Safety over the stages of one call. -/
abbrev Stays {α : Type} (request : CodeRequest) (Q : Except CodeFault α → VerifyStage → Prop)
    (p : VerifierProgram α) (stage : VerifyStage) : Prop :=
  Safe (Parties.staged (v.move keccak request)) VerifyStage.fits Q p stage

variable {keccak v} {request : CodeRequest}

theorem stays_store {t : List (Sigma RpcAns)} {evidence : CodeEvidence} {bucket : Nat}
    {found : Option CodeEvidence} {fits : Prop} (hfits : fits)
    (hverifies : v.Verifies keccak request t evidence) :
    v.Stays keccak request (v.Obtained keccak request)
      (bucketSet bucket request.cacheKey evidence >>= fun _ => pure evidence)
      ⟨t, some bucket, found, fits⟩ := by
  rintro ⟨⟩ _ rfl
  refine ⟨⟨hfits, rfl, rfl, hverifies⟩, fun evidence' heq => ?_⟩
  obtain rfl := Except.ok.inj heq
  exact .inr hverifies

/-- A miss stores the evidence that the call itself obtained, in a bucket that it holds. -/
theorem stays_verifyMissing (bucket : Option Nat) {fits : Prop} (hfits : fits) :
    v.Stays keccak request (v.Obtained keccak request) (v.verifyMissing keccak request bucket)
      ⟨[], bucket, none, fits⟩ := by
  apply safe_bind.mpr
  apply safe_lift_record fun t => (⟨t, bucket, none, fits⟩ : VerifyStage)
  · rintro t op a _ rfl
    exact ⟨rfl, hfits⟩
  · intro t r hrun
    rw [List.nil_append]
    cases r with
    | error e =>
      intro evidence heq
      cases heq
    | ok evidence =>
      cases bucket with
      | some b => exact stays_store hfits hrun
      | none =>
        rintro b _ rfl
        exact ⟨⟨hfits, rfl⟩, stays_store ⟨hfits, rfl⟩ hrun⟩

/-- A call keeps to its own request, whatever it is answered. -/
theorem stays_verify :
    v.Stays keccak request (v.Obtained keccak request) (v.verify keccak request) ⟨[], none, none, True⟩ := by
  rintro bucket _ rfl
  refine ⟨⟨trivial, rfl⟩, ?_⟩
  cases bucket with
  | none => exact stays_verifyMissing none ⟨trivial, rfl⟩
  | some b =>
    rintro hit _ rfl
    refine ⟨⟨⟨trivial, rfl⟩, rfl, rfl⟩, ?_⟩
    cases hit with
    | none => exact stays_verifyMissing (some b) ⟨⟨trivial, rfl⟩, rfl, rfl⟩
    | some found =>
      intro evidence heq
      obtain rfl := Except.ok.inj heq
      exact .inl rfl

/-! ## The calls together -/

variable {P : Type} (keccak v) (request : P → CodeRequest)

/-- Some call has verified this key at this anchor, with this evidence. -/
def Verified (stage : P → VerifyStage) (blockHash : String) (key : CodeKey) (evidence : CodeEvidence) : Prop :=
  ∃ q t, (request q).anchor.blockHash = blockHash ∧ (request q).cacheKey = key ∧
    t <+: (stage q).exchanges ∧ v.Verifies keccak (request q) t evidence

/-- Each bucket was made for one anchor, its owner, and holds what was verified there. -/
structure CacheInvariant (stage : P → VerifyStage) (w : CodeMemory) (owner : Nat → String) : Prop where
  cached : ∀ blockHash bucket, (blockHash, bucket) ∈ w.cache →
    bucket < w.buckets.length ∧ owner bucket = blockHash
  held : ∀ p bucket, (stage p).bucket = some bucket →
    bucket < w.buckets.length ∧ owner bucket = (request p).anchor.blockHash
  stored : ∀ bucket entries, w.buckets[bucket]? = some entries → ∀ entry ∈ entries,
    v.Verified keccak request stage (owner bucket) entry.1 entry.2
  found : ∀ p evidence, (stage p).found = some evidence →
    v.Verified keccak request stage (request p).anchor.blockHash (request p).cacheKey evidence

variable {keccak v request} {stage : P → VerifyStage} {w : CodeMemory} {owner : Nat → String}

theorem Verified.mono {stage' : P → VerifyStage} {blockHash : String} {key : CodeKey}
    {evidence : CodeEvidence} (h : v.Verified keccak request stage blockHash key evidence)
    (hextend : ∀ q, (stage q).exchanges <+: (stage' q).exchanges) :
    v.Verified keccak request stage' blockHash key evidence := by
  obtain ⟨q, t, hhash, hkey, hprefix, hverifies⟩ := h
  exact ⟨q, t, hhash, hkey, hprefix.trans (hextend q), hverifies⟩

/-- A call moves on and leaves the memory as it is. -/
theorem CacheInvariant.advance [DecidableEq P] (h : v.CacheInvariant keccak request stage w owner) (p : P)
    {next : VerifyStage} (hextend : (stage p).exchanges <+: next.exchanges)
    (hheld : ∀ bucket, next.bucket = some bucket →
      bucket < w.buckets.length ∧ owner bucket = (request p).anchor.blockHash)
    (hfound : ∀ evidence, next.found = some evidence →
      v.Verified keccak request stage (request p).anchor.blockHash (request p).cacheKey evidence) :
    v.CacheInvariant keccak request (Function.update stage p next) w owner := by
  have hall : ∀ q, (stage q).exchanges <+: (Function.update stage p next q).exchanges := by
    intro q
    by_cases hq : q = p
    · subst hq
      rw [Function.update_self]
      exact hextend
    · rw [Function.update_of_ne hq]
  refine ⟨h.cached, fun q bucket hbucket => ?_, fun bucket entries hentries entry hentry =>
    (h.stored bucket entries hentries entry hentry).mono hall, fun q evidence hevidence => ?_⟩
  · by_cases hq : q = p
    · subst hq
      rw [Function.update_self] at hbucket
      exact hheld bucket hbucket
    · rw [Function.update_of_ne hq] at hbucket
      exact h.held q bucket hbucket
  · by_cases hq : q = p
    · subst hq
      rw [Function.update_self] at hevidence
      exact (hfound evidence hevidence).mono hall
    · rw [Function.update_of_ne hq] at hevidence
      exact (h.found q evidence hevidence).mono hall

/-- A new cache has one empty bucket; the older buckets stay with their owners. -/
theorem CacheInvariant.replace (h : v.CacheInvariant keccak request stage w owner) (blockHash : String) :
    v.CacheInvariant keccak request stage (w.replace blockHash)
      (Function.update owner w.buckets.length blockHash) := by
  have hold : ∀ bucket, bucket < w.buckets.length →
      Function.update owner w.buckets.length blockHash bucket = owner bucket :=
    fun bucket hlt => Function.update_of_ne hlt.ne ..
  have hlength : (w.replace blockHash).buckets.length = w.buckets.length + 1 := List.length_append
  refine ⟨?_, fun p bucket hbucket => ?_, fun bucket entries hentries entry hentry => ?_, h.found⟩
  · rintro blockHash' bucket hmem
    obtain ⟨rfl, rfl⟩ := Prod.mk.inj (List.mem_singleton.mp hmem)
    rw [hlength, Function.update_self]
    exact ⟨Nat.lt_succ_self _, rfl⟩
  · obtain ⟨hlt, howner⟩ := h.held p bucket hbucket
    rw [hlength, hold bucket hlt]
    exact ⟨hlt.trans (Nat.lt_succ_self _), howner⟩
  · by_cases hlt : bucket < w.buckets.length
    · rw [hold bucket hlt]
      have hsame : w.buckets[bucket]? = some entries := by
        rw [← hentries]
        exact (List.getElem?_append_left hlt).symm
      exact h.stored bucket entries hsame entry hentry
    · have hnew : (w.buckets ++ [[]])[bucket]? = some entries := hentries
      rw [List.getElem?_append_right (by omega)] at hnew
      obtain rfl := List.mem_singleton.mp (List.mem_of_getElem? hnew)
      cases hentry

/-- Evidence is stored where it was verified for the owner of the bucket. -/
theorem CacheInvariant.set (h : v.CacheInvariant keccak request stage w owner) {bucket : Nat} {key : CodeKey}
    {evidence : CodeEvidence} (hverified : v.Verified keccak request stage (owner bucket) key evidence) :
    v.CacheInvariant keccak request stage (w.set bucket key evidence) owner := by
  have hlength : (w.set bucket key evidence).buckets.length = w.buckets.length := List.length_modify ..
  refine ⟨fun blockHash b hmem => ?_, fun p b hheld => ?_, fun b entries hentries entry hentry => ?_, h.found⟩
  · rw [hlength]
    exact h.cached blockHash b hmem
  · rw [hlength]
    exact h.held p b hheld
  · by_cases hb : bucket = b
    · subst hb
      have hmodify : (w.buckets[bucket]?.map fun entries =>
          (key, evidence) :: entries.filter fun entry => entry.1 ≠ key) = some entries := by
        rw [← hentries]
        exact (List.getElem?_modify_eq ..).symm
      obtain ⟨before, hbefore, rfl⟩ := Option.map_eq_some_iff.mp hmodify
      rcases List.mem_cons.mp hentry with rfl | hentry
      · exact hverified
      · exact h.stored bucket before hbefore entry (List.mem_of_mem_filter hentry)
    · have hsame : w.buckets[b]? = some entries := by
        rw [← hentries]
        exact (List.getElem?_modify_ne _ _ hb).symm
      exact h.stored b entries hsame entry hentry

/-- Whatever one call does next, every bucket keeps to its owner. -/
theorem cacheInvariant_step [DecidableEq P] {p : P} {op : VerifierOp} {a : VerifierAns op} {w' : CodeMemory}
    (h : ∃ owner, v.CacheInvariant keccak request stage w owner)
    (hfits : (v.move keccak (request p) (stage p) op a).fits) (henv : verifierEnv op w a w') :
    ∃ owner, v.CacheInvariant keccak request
      (Function.update stage p (v.move keccak (request p) (stage p) op a)) w' owner := by
  obtain ⟨owner, h⟩ := h
  cases op with
  | rpc op =>
    obtain rfl := henv
    exact ⟨owner, h.advance p (List.prefix_append _ _) (h.held p) (h.found p)⟩
  | cacheGet blockHash =>
    obtain ⟨rfl, rfl⟩ := henv
    obtain ⟨-, rfl⟩ := hfits
    refine ⟨owner, h.advance p (List.prefix_refl _) (fun bucket hbucket => ?_) (h.found p)⟩
    exact h.cached _ bucket (mem_of_lookup_eq_some hbucket)
  | bucketGet bucket key =>
    obtain ⟨rfl, rfl⟩ := henv
    obtain ⟨-, hheld, rfl⟩ := hfits
    refine ⟨owner, h.advance p (List.prefix_refl _) (h.held p) fun evidence hfound => ?_⟩
    obtain ⟨entries, hentries, hlookup⟩ := Option.bind_eq_some_iff.mp hfound
    have hverified := h.stored bucket entries hentries _ (mem_of_lookup_eq_some hlookup)
    rw [(h.held p bucket hheld).2] at hverified
    exact hverified
  | replaceCache blockHash =>
    obtain ⟨rfl, rfl⟩ := henv
    obtain ⟨-, rfl⟩ := hfits
    refine ⟨_, (h.replace _).advance p (List.prefix_refl _) (fun bucket hbucket => ?_) (h.found p)⟩
    obtain rfl := Option.some.inj hbucket
    refine ⟨?_, Function.update_self ..⟩
    rw [show (w.replace _).buckets.length = w.buckets.length + 1 from List.length_append]
    exact Nat.lt_succ_self _
  | bucketSet bucket key evidence =>
    obtain rfl := henv
    obtain ⟨-, hheld, rfl, hverifies⟩ := hfits
    have howner := (h.held p bucket hheld).2
    refine ⟨owner, (h.set ?_).advance p (List.prefix_refl _) (fun b hb => ?_) (h.found p)⟩
    · rw [howner]
      exact ⟨p, _, rfl, rfl, List.prefix_refl _, hverifies⟩
    · rw [show (w.set _ _ _).buckets.length = w.buckets.length from List.length_modify ..]
      exact h.held p b hb

/-! ## Every interleaving -/

/-- All calls at their beginning, with an empty cache. -/
def started (keccak : List UInt8 → Word) (v : HistoricalCodeVerifier) (request : P → CodeRequest) :
    Parties P VerifierOp VerifierAns CodeFault CodeEvidence VerifyStage CodeMemory where
  program p := v.verify keccak (request p)
  stage _ := ⟨[], none, none, True⟩
  world := .empty

/-- The calls take turns in any order; one that has not begun, or never ends, stays where it is. -/
abbrev Interleaves [DecidableEq P] (keccak : List UInt8 → Word) (v : HistoricalCodeVerifier)
    (request : P → CodeRequest) :
    Parties P VerifierOp VerifierAns CodeFault CodeEvidence VerifyStage CodeMemory → Prop :=
  Parties.Run (fun _ _ => True) (fun _ => verifierEnv) (fun p => v.move keccak (request p))
    (fun _ _ => False) (v.started keccak request)

theorem cacheInvariant_run [DecidableEq P]
    {s : Parties P VerifierOp VerifierAns CodeFault CodeEvidence VerifyStage CodeMemory}
    (hrun : v.Interleaves keccak request s) :
    (∃ owner, v.CacheInvariant keccak request s.stage s.world owner) ∧
      ∀ p evidence, s.program p = .ret evidence →
        v.Obtained keccak (request p) (.ok evidence) (s.stage p) := by
  have hkeeps : Parties.Keeps (fun p => v.move keccak (request p)) (fun _ => VerifyStage.fits)
      (fun p => v.Obtained keccak (request p)) (v.started keccak request) :=
    fun p => ⟨trivial, stays_verify⟩
  have hstart : ∃ owner, v.CacheInvariant keccak request (v.started keccak request).stage
      (v.started keccak request).world owner := by
    refine ⟨fun _ => "", fun _ _ hmem => ?_, fun _ _ hbucket => ?_, fun _ _ hentries => ?_, fun _ _ hfound => ?_⟩
    · cases hmem
    · cases hbucket
    · cases hentries
    · cases hfound
  obtain ⟨hkept, hinv⟩ := Parties.invariant_run
    (I := fun stage w => ∃ owner, v.CacheInvariant keccak request stage w owner)
    (fun _ _ _ _ _ hno => absurd hno id)
    (fun _ _ _ _ _ _ _ hI _ hfits henv => cacheInvariant_step hI hfits henv) hkeeps hstart hrun
  exact ⟨hinv, fun p evidence hreturn => hkept.returned hreturn⟩

/-! ## What a verification found -/

theorem checkHash_eq_ok {code : List UInt8} {address codeHash : String} {expectedCodeHash : Option String}
    (h : checkHash keccak code address expectedCodeHash = .ok codeHash) {expected : String}
    (hexpected : expectedCodeHash = some expected) : codeHash = expected.toLower := by
  subst hexpected
  unfold checkHash at h
  dsimp only at h
  split at h
  · cases h
  · next hsame =>
    obtain rfl := Except.ok.inj h
    rw [Option.any_some, decide_eq_true_eq, not_not] at hsame
    exact hsame

theorem codeHash_of_verifyNumberQuorum {address : String} {anchor : BlockRef}
    {expectedCodeHash : Option String} {t : List (Sigma RpcAns)} {evidence : CodeEvidence}
    (h : Runs (v.verifyNumberQuorum keccak address anchor expectedCodeHash) t (.ok evidence))
    {expected : String} (hexpected : expectedCodeHash = some expected) :
    evidence.address = address ∧ evidence.codeHash = expected.toLower := by
  obtain ⟨endpoints, t₁, t₂, rfl, -, hvalues⟩ := runs_bind_ok_iff.mp h
  obtain ⟨values, t₃, t₄, rfl, -, hcode⟩ := runs_bind_ok_iff.mp hvalues
  obtain ⟨code, t₅, t₆, rfl, -, hhash⟩ := runs_bind_ok_iff.mp hcode
  obtain ⟨codeHash, t₇, t₈, rfl, hcheck, hret⟩ := runs_bind_ok_iff.mp hhash
  obtain ⟨-, hchecked⟩ := runs_ofExcept_iff.mp hcheck
  obtain ⟨-, hevidence⟩ := runs_ret_iff.mp hret
  obtain rfl := Except.ok.inj hevidence
  exact ⟨rfl, checkHash_eq_ok hchecked.symm hexpected⟩

/-- A verification of a pinned hash returns that hash. -/
theorem Verifies.codeHash {request : CodeRequest} {t : List (Sigma RpcAns)} {evidence : CodeEvidence}
    (h : v.Verifies keccak request t evidence) {expected : String}
    (hexpected : request.expectedCodeHash = some expected) :
    evidence.address = request.normalized ∧ evidence.codeHash = expected.toLower := by
  obtain ⟨selected, t₁, t₂, rfl, -, hrest⟩ := runs_bind_ok_iff.mp h
  cases selected with
  | ok endpoint =>
    obtain ⟨reference, t₃, t₄, rfl, -, hencoded⟩ := runs_bind_ok_iff.mp hrest
    obtain ⟨encoded, t₅, t₆, rfl, -, hcode⟩ := runs_bind_ok_iff.mp hencoded
    obtain ⟨code, t₇, t₈, rfl, -, hhash⟩ := runs_bind_ok_iff.mp hcode
    obtain ⟨codeHash, t₉, t₁₀, rfl, hcheck, hret⟩ := runs_bind_ok_iff.mp hhash
    obtain ⟨-, hchecked⟩ := runs_ofExcept_iff.mp hcheck
    obtain ⟨-, hevidence⟩ := runs_ret_iff.mp hret
    obtain rfl := Except.ok.inj hevidence
    exact ⟨rfl, checkHash_eq_ok hchecked.symm hexpected⟩
  | error e =>
    cases e with
    | rpc fault =>
      cases fault with
      | noHealthyEndpoint message => exact codeHash_of_verifyNumberQuorum hrest hexpected
      | _ => exact absurd hrest not_runs_raise_ok
    | _ => exact absurd hrest not_runs_raise_ok

/-! ## The contract of the cache -/

/-- In every interleaving, whatever a call returns was verified by a call for the same address, the same
anchor and the same expected hash, so a pinned hash is the hash that was found; and so was whatever the
cache holds for an anchor, and whatever is held in a bucket that has left the cache. -/
theorem concurrent_verify_sound [DecidableEq P] (keccak : List UInt8 → Word) (v : HistoricalCodeVerifier)
    (request : P → CodeRequest)
    {s : Parties P VerifierOp VerifierAns CodeFault CodeEvidence VerifyStage CodeMemory}
    (hrun : v.Interleaves keccak request s) :
    (∀ p evidence, s.program p = .ret evidence →
      v.Verified keccak request s.stage (request p).anchor.blockHash (request p).cacheKey evidence ∧
      ∀ expected, (request p).expectedCodeHash = some expected →
        evidence.address = (request p).normalized ∧ evidence.codeHash = expected.toLower) ∧
    (∀ blockHash bucket entries, (blockHash, bucket) ∈ s.world.cache →
      s.world.buckets[bucket]? = some entries → ∀ entry ∈ entries,
        v.Verified keccak request s.stage blockHash entry.1 entry.2) ∧
    ∀ entries ∈ s.world.buckets, ∀ entry ∈ entries,
      ∃ blockHash, v.Verified keccak request s.stage blockHash entry.1 entry.2 := by
  obtain ⟨⟨owner, hinv⟩, hobtained⟩ := cacheInvariant_run hrun
  refine ⟨fun p evidence hreturn => ?_, fun blockHash bucket entries hcached hentries entry hentry => ?_,
    fun entries hentries entry hentry => ?_⟩
  · have hverified : v.Verified keccak request s.stage (request p).anchor.blockHash (request p).cacheKey
        evidence := by
      rcases hobtained p evidence hreturn evidence rfl with hfound | hverifies
      · exact hinv.found p evidence hfound
      · exact ⟨p, _, rfl, rfl, List.prefix_refl _, hverifies⟩
    refine ⟨hverified, fun expected hexpected => ?_⟩
    obtain ⟨q, t, -, hkey, -, hverifies⟩ := hverified
    obtain ⟨hnormalized, hpinned⟩ := Prod.mk.inj hkey
    obtain ⟨haddress, hhash⟩ := hverifies.codeHash (hpinned.trans hexpected)
    exact ⟨haddress.trans hnormalized, hhash⟩
  · have hstored := hinv.stored bucket entries hentries entry hentry
    rw [(hinv.cached blockHash bucket hcached).2] at hstored
    exact hstored
  · obtain ⟨bucket, hbucket, rfl⟩ := List.mem_iff_getElem.mp hentries
    exact ⟨owner bucket, hinv.stored bucket _ (List.getElem?_eq_getElem hbucket) entry hentry⟩

/-! ## A call served from the cache -/

/-- The hash of the one byte that the sample contract has. -/
def sampleCodeHash : Word := ⟨[188, 54, 120, 158, 122, 30, 40, 20, 54, 70, 66, 41, 130, 143, 129, 125, 102, 18,
  247, 180, 119, 214, 101, 145, 255, 150, 169, 224, 100, 188, 201, 138], rfl⟩

def codeEndpoint : EndpointConfig where
  name := "archive"
  url := "http://archive"
  providerGroup := "own"
  supportsHttpBatch := false
  supportsEip1898 := true
  archiveFromBlock := none

def codeAnchor : BlockRef where
  number := 1
  blockHash := hexData (List.replicate 32 17)
  parentHash := hexData (List.replicate 32 34)
  timestamp := 1

def codeRequest : CodeRequest := ⟨zeroAddress, codeAnchor, some (hexData sampleCodeHash.toList)⟩

theorem sampleQuorum_ge : 2 ≤ 2 := Nat.le_refl 2

def sampleVerifier : HistoricalCodeVerifier := ⟨2, sampleQuorum_ge⟩

/-- A client whose one endpoint serves the sample contract. -/
def sampleClient : (op : RpcOp) → RpcAns op
  | .nextId => (1 : Nat)
  | .post _ _ _ => .ok (respond (.str "0x00"))
  | .select _ _ _ => .ok codeEndpoint
  | .selectDistinctGroups _ _ => .ok [codeEndpoint]
  | .recordSuccess _ => ()
  | .recordFailure _ _ _ _ => ()
  | .turn => true

/-- The answers of that client, and of the memory. -/
def sampleHandler : (op : VerifierOp) → CodeMemory → VerifierAns op × CodeMemory
  | .rpc op, w => (sampleClient op, w)
  | .cacheGet blockHash, w => (w.cache.lookup blockHash, w)
  | .bucketGet bucket key, w => (w.get bucket key, w)
  | .replaceCache blockHash, w => (w.buckets.length, w.replace blockHash)
  | .bucketSet bucket key evidence, w => ((), w.set bucket key evidence)

theorem sampleHandler_allowed (op : VerifierOp) (w : CodeMemory) :
    verifierEnv op w (sampleHandler op w).1 (sampleHandler op w).2 := by
  cases op with
  | rpc op => rfl
  | cacheGet blockHash => exact ⟨rfl, rfl⟩
  | bucketGet bucket key => exact ⟨rfl, rfl⟩
  | replaceCache blockHash => exact ⟨rfl, rfl⟩
  | bucketSet bucket key evidence => rfl

def sampleEvidence : CodeEvidence where
  address := codeRequest.normalized
  codeHash := hexData sampleCodeHash.toList
  providerGroups := ["own"]
  referenceKind := "eip1898"

/-- The memory after the first call. -/
def sampleMemory : CodeMemory where
  cache := [(codeAnchor.blockHash, 0)]
  buckets := [[(codeRequest.cacheKey, sampleEvidence)]]

theorem checkHash_sample (address : String) : checkHash (fun _ => sampleCodeHash) [0] address
    (some (hexData sampleCodeHash.toList)) = .ok (hexData sampleCodeHash.toList) := by
  have hlower : (hexData sampleCodeHash.toList).toLower = hexData sampleCodeHash.toList :=
    toLower_hexText (all_flatMap_hexByte _)
  unfold checkHash
  dsimp only
  rw [Option.any_some, hlower, decide_eq_false (not_not_intro rfl)]
  rfl

/-- The client lets the verification of the sample request succeed. -/
theorem answeredBy_uncached :
    answeredBy sampleClient (sampleVerifier.uncached (fun _ => sampleCodeHash) codeRequest) =
      .ok sampleEvidence := by
  have hreference : eip1898Reference codeAnchor = .ok (hashReference codeAnchor.blockHash) := by
    show (normalizeHash (.str (hexData (List.replicate 32 17))) >>= fun hash =>
      (.ok (hashReference hash) : Except RpcFault Json)) = _
    rw [normalizeHash_hexData List.length_replicate]
    rfl
  have hcode : ∀ address, decodeCode (.str "0x00") address = .ok [0] := by
    intro address
    have hbytes : hexDataToBytes "0x00" = .ok [0] := by rfl
    rw [decodeCode, hbytes]
  have hselect : answeredBy sampleClient (onClient (selectEndpoint (some 1) true [])).outcome =
      .ok (.ok codeEndpoint) := rfl
  have hcall : ∀ params, answeredBy sampleClient
      (onClient (callOnEndpoint codeEndpoint "eth_getCode" params 0)) = .ok (.str "0x00") := fun _ => rfl
  rw [uncached, verifyUncached, codeRequest, answeredBy_bind, codeAnchor, hselect, except_ok_bind]
  dsimp only
  rw [answeredBy_bind, ← codeAnchor, hreference, answeredBy_ofExcept, Except.mapError, except_ok_bind,
    answeredBy_bind, hcall, except_ok_bind, answeredBy_bind, hcode, answeredBy_ofExcept, except_ok_bind,
    answeredBy_bind, checkHash_sample, answeredBy_ofExcept]
  rfl

theorem exec_verify_miss : exec sampleHandler (sampleVerifier.verify (fun _ => sampleCodeHash) codeRequest)
    .empty = (.ok sampleEvidence, sampleMemory) := by
  have hwire : exec sampleHandler (onWire (sampleVerifier.uncached (fun _ => sampleCodeHash) codeRequest))
      .empty = (.ok sampleEvidence, .empty) := by
    have hanswer : ∀ op, (sampleHandler (.rpc op) .empty).1 = sampleClient op ∧
        (sampleHandler (.rpc op) .empty).2 = .empty := fun _ => ⟨rfl, rfl⟩
    rw [onWire, exec_lift hanswer, answeredBy_uncached]
    rfl
  have hget : exec sampleHandler (cacheGet codeRequest.anchor.blockHash) .empty = (.ok none, .empty) := rfl
  rw [verify, exec_bind_ok hget]
  dsimp only
  rw [pure_eq, ret_bind]
  dsimp only
  rw [verifyMissing, exec_bind_ok hwire]
  rfl

theorem exec_verify_hit : exec sampleHandler (sampleVerifier.verify (fun _ => sampleCodeHash) codeRequest)
    sampleMemory = (.ok sampleEvidence, sampleMemory) := by
  have hcache : sampleMemory.cache.lookup codeAnchor.blockHash = some 0 := by
    rw [sampleMemory, List.lookup_cons_self]
  have hbucket : sampleMemory.get 0 codeRequest.cacheKey = some sampleEvidence := by
    have hentries : sampleMemory.buckets[0]? = some [(codeRequest.cacheKey, sampleEvidence)] := rfl
    rw [CodeMemory.get, hentries, Option.bind_some, List.lookup_cons_self]
  have hget : exec sampleHandler (cacheGet codeRequest.anchor.blockHash) sampleMemory =
      (.ok (some 0), sampleMemory) := by
    show (Except.ok (sampleMemory.cache.lookup codeAnchor.blockHash), sampleMemory) = _
    rw [hcache]
  have hhit : exec sampleHandler (bucketGet 0 codeRequest.cacheKey) sampleMemory =
      (.ok (some sampleEvidence), sampleMemory) := by
    show (Except.ok (sampleMemory.get 0 codeRequest.cacheKey), sampleMemory) = _
    rw [hbucket]
  rw [verify, exec_bind_ok hget]
  dsimp only
  rw [exec_bind_ok hhit]
  rfl

/-- Of two calls for one contract the first reads it, and the second returns what the first has stored. -/
theorem concurrent_verify_sound_sample : ∃ s : Parties Bool VerifierOp VerifierAns CodeFault CodeEvidence
      VerifyStage CodeMemory,
    sampleVerifier.Interleaves (fun _ => sampleCodeHash) (fun _ => codeRequest) s ∧
      s.program false = .ret sampleEvidence ∧ s.program true = .ret sampleEvidence ∧
      sampleVerifier.Verified (fun _ => sampleCodeHash) (fun _ => codeRequest) s.stage codeAnchor.blockHash
        codeRequest.cacheKey sampleEvidence := by
  have hmiss := reaches_exec sampleHandler_allowed
    (sampleVerifier.verify (fun _ => sampleCodeHash) codeRequest) .empty
  have hhit := reaches_exec sampleHandler_allowed
    (sampleVerifier.verify (fun _ => sampleCodeHash) codeRequest) sampleMemory
  rw [exec_verify_miss] at hmiss
  rw [exec_verify_hit] at hhit
  obtain ⟨s₁, hrun₁, hfirst, hworld, hothers⟩ : ∃ s₁, sampleVerifier.Interleaves (fun _ => sampleCodeHash)
      (fun _ : Bool => codeRequest) s₁ ∧ s₁.program false = .ret sampleEvidence ∧ s₁.world = sampleMemory ∧
      ∀ q, q ≠ false → s₁.program q = sampleVerifier.verify (fun _ => sampleCodeHash) codeRequest :=
    Parties.run_of_reaches (fun _ _ => trivial) false hmiss
  rw [← hothers true (by decide), ← hworld] at hhit
  obtain ⟨s₂, hrun₂, hsecond, -, hkept⟩ : ∃ s₂, Parties.Run (fun _ _ => True) (fun _ => verifierEnv)
      (fun _ => sampleVerifier.move (fun _ => sampleCodeHash) codeRequest) (fun _ _ => False) s₁ s₂ ∧
      s₂.program true = .ret sampleEvidence ∧ s₂.world = s₁.world ∧
      ∀ q, q ≠ true → s₂.program q = s₁.program q :=
    Parties.run_of_reaches (fun _ _ => trivial) true hhit
  have hrun := hrun₁.trans hrun₂
  refine ⟨s₂, hrun, (hkept false (by decide)).trans hfirst, hsecond, ?_⟩
  exact ((concurrent_verify_sound _ _ _ hrun).1 true sampleEvidence hsecond).1

end HistoricalCodeVerifier

end RpcStateIndexer
