import RpcStateIndexer.Census.Runner
import RpcStateIndexer.Collectors.AToken
import RpcStateIndexer.Collectors.Pools
import RpcStateIndexer.Collectors.UintCalls

/-!
# What the collectors of values materialize

Of an accepted answer every holder of a token and every asset of a pool has one row with its value, or
an error and no row.  What a result says beyond its batches depends on the results by key only.
-/

namespace RpcStateIndexer

open Reasoning

/-- A collection whose every row is the value of one subject. -/
inductive ValueCollection where
  | erc20 (collector : Erc20Collector) (token : TokenConfig) (frozen : FrozenUniverse)
  | aToken (collector : ATokenCollector) (token : TokenConfig) (frozen : FrozenUniverse)
  | reserves (pool : PoolConfig)

/-- The balance that a scaled balance comes to with the index, when both are there. -/
def reconstructed (index : Option Nat) (scaled : Nat) : Option Nat :=
  index.bind fun index => (rayMulHalfUp scaled index).toOption

namespace ValueCollection

def collect (collection : ValueCollection) (anchor : BlockRef) (integrityMode : IntegrityMode) :
    CollectorProgram CollectionResult :=
  match collection with
  | .erc20 collector token frozen => do
    return .token (← collector.collect token frozen anchor integrityMode)
  | .aToken collector token frozen => do
    return .token (← collector.collect token frozen anchor integrityMode)
  | .reserves pool => do
    return .pool (← PoolReserveCollector.collect pool anchor integrityMode)

/-- The holders or assets that are to have a value. -/
def subjects : ValueCollection → List String
  | .erc20 _ _ frozen => frozen.addresses
  | .aToken _ _ frozen => frozen.addresses
  | .reserves pool => pool.assets

/-- The key of the call that reads a subject. -/
def key : ValueCollection → String → String
  | .erc20 .., holder => s!"balanceOf/{holder}"
  | .aToken .., holder => s!"scaledBalanceOf/{holder}"
  | .reserves pool, asset => s!"reserve/{pool.address}/{asset}"

/-- The kinds of the errors that stand for a missing value. -/
def callKinds : ValueCollection → List String
  | .erc20 .. => ["balanceOf"]
  | .aToken .. => ["scaledBalanceOf", "ray_reconstruct"]
  | .reserves _ => ["balanceOf(pool)"]

/-- The value that the batches give a subject: what its call returned, and for an aToken what this
reconstructs to with the index. -/
def valueOf (collection : ValueCollection) (batches : List VerifiedBatchResult) (subject : String) :
    Option Nat :=
  match collection with
  | .aToken .. => (returnOf batches (collection.key subject)).bind
      (reconstructed (returnOf batches s!"scalar/{indexOutputName}"))
  | _ => returnOf batches (collection.key subject)

end ValueCollection

namespace CollectionResult

/-- The subjects of the rows with their values. -/
def rows : CollectionResult → List (String × Int)
  | .token r => r.balances.map fun row => (row.holderAddress, row.balanceRaw)
  | .pool r => r.balances.map fun row => (row.tokenAddress, row.balanceRaw)
  | .poolCl _ => []

end CollectionResult

/-- Every subject has exactly one row, with its value, or errors and no row. -/
structure Materialized (collection : ValueCollection) (batches : List VerifiedBatchResult)
    (result : CollectionResult) : Prop where
  nodup : (result.rows.map Prod.fst).Nodup
  rows : ∀ subject (value : Int), (subject, value) ∈ result.rows ↔
    subject ∈ collection.subjects ∧ ∃ v : Nat, collection.valueOf batches subject = some v ∧ value = v
  errors : ∀ subject ∈ collection.subjects,
    (∃ e ∈ result.outcome.errors, e.subjectAddress = subject ∧ e.callKind ∈ collection.callKinds) ↔
      collection.valueOf batches subject = none

/-! ## Requests -/

section Requests

variable {keccak : String → List UInt8} {token : TokenConfig}

/-- What a spec says of the subject that it is made for. -/
structure Reads (key : String → String) (kind : String) (subject : String) (x : String × UIntCallSpec) :
    Prop where
  named : x.1 = subject
  keyed : x.2.call.key = key subject
  addressed : x.2.subjectAddress = subject
  ofKind : x.2.callKind = kind

theorem reads_holderSpec {functionName : String} {calldata : String → Except String (List UInt8)}
    {holder : String} {x : String × UIntCallSpec}
    (h : holderSpec token functionName calldata holder = .ok x) :
    Reads (fun holder => s!"{functionName}/{holder}") functionName holder x := by
  unfold holderSpec at h
  simp only [except_bind_eq_ok_iff, except_pure_eq_ok_iff] at h
  obtain ⟨bytes, -, rfl⟩ := h
  exact ⟨rfl, rfl, rfl, rfl⟩

theorem reads_reserveSpec {pool : PoolConfig} {asset : String} {x : String × UIntCallSpec}
    (h : PoolReserveCollector.reserveSpec pool asset = .ok x) :
    Reads (fun asset => s!"reserve/{pool.address}/{asset}") "balanceOf(pool)" asset x := by
  unfold PoolReserveCollector.reserveSpec at h
  simp only [except_bind_eq_ok_iff, except_pure_eq_ok_iff] at h
  obtain ⟨bytes, -, rfl⟩ := h
  exact ⟨rfl, rfl, rfl, rfl⟩

def supplyNames : List String := ["totalSupply", "scaledTotalSupply"]

/-- A spec of a scalar: named by its function, under the key of its name. -/
structure ReadsScalar (x : String × UIntCallSpec) : Prop where
  key : x.2.call.key = s!"scalar/{x.1}"
  kind : x.2.callKind = x.1
  name : x.1 ∈ supplyNames

theorem mem_supplyNames {name : String} {bytes : List UInt8}
    (h : scalarCalldata keccak name = .ok bytes) : name ∈ supplyNames := by
  unfold scalarCalldata at h
  by_cases htotal : name = "totalSupply"
  · exact htotal ▸ .head _
  · rw [if_neg htotal] at h
    by_cases hscaled : name = "scaledTotalSupply"
    · exact hscaled ▸ .tail _ (.head _)
    · rw [if_neg hscaled] at h
      cases h

theorem readsScalar_scalarSpecs {seen names : List String} {specs : List (String × UIntCallSpec)}
    (h : scalarSpecs keccak token seen names = .ok specs) : ∀ x ∈ specs, ReadsScalar x := by
  induction names generalizing seen specs with
  | nil =>
    cases h
    exact fun x hx => absurd hx List.not_mem_nil
  | cons name names ih =>
    unfold scalarSpecs scalarSpec at h
    simp only [except_bind_eq_ok_iff, except_pure_eq_ok_iff] at h
    obtain ⟨-, -, spec, ⟨bytes, hbytes, rfl⟩, rest, hrest, rfl⟩ := h
    intro x hx
    rcases List.mem_cons.mp hx with rfl | hx
    · exact ⟨rfl, rfl, mem_supplyNames hbytes⟩
    · exact ih hrest x hx

end Requests

/-! ## Rows of values -/

/-- The graph of a partial function over a list without repetition. -/
theorem nodup_filterMap_graph {α β : Type} {names : List α} (h : names.Nodup) (g : α → Option β) :
    ((names.filterMap fun s => (g s).map fun v => (s, v)).map Prod.fst).Nodup := by
  refine h.sublist ?_
  rw [List.map_filterMap]
  have hfst : (fun s => ((g s).map fun v => (s, v)).map Prod.fst) = fun s => (g s).map fun _ => s := by
    funext s
    cases g s <;> rfl
  rw [hfst]
  clear hfst h
  induction names with
  | nil => exact .slnil
  | cons s rest ih =>
    cases hg : g s with
    | none =>
      rw [List.filterMap_cons, hg]
      exact ih.cons s
    | some v =>
      rw [List.filterMap_cons, hg]
      exact ih.cons_cons s

theorem lookup_graph {β : Type} {names : List String} {g : String → Option β} {name : String}
    (h : name ∈ names ∨ g name = none) :
    (names.filterMap fun s => (g s).map fun v => (s, v)).lookup name = g name := by
  induction names with
  | nil =>
    rw [h.resolve_left List.not_mem_nil]
    rfl
  | cons s rest ih =>
    by_cases hs : name = s
    · subst hs
      cases hg : g name with
      | none =>
        rw [List.filterMap_cons, hg]
        exact (ih (.inr hg)).trans hg
      | some v =>
        rw [List.filterMap_cons, hg]
        exact List.lookup_cons_self
    · have hrest := ih (h.imp_left fun hmem => (List.mem_cons.mp hmem).resolve_left hs)
      have hbeq : (name == s) = false := beq_eq_false_iff_ne.mpr hs
      cases hg : g s with
      | none =>
        rw [List.filterMap_cons, hg]
        exact hrest
      | some v =>
        rw [List.filterMap_cons, hg, Option.map_some, List.lookup_cons, hbeq]
        exact hrest

/-- A scalar has the value that its key returned. -/
theorem scalarValue_eq {scalars : List (String × UIntCallSpec)} {values : List (String × Nat × Nat)}
    {g : String → Option Nat} (key : String → String)
    (hvalues : values.map (fun x => (x.1, x.2.1)) =
      scalars.filterMap fun x => (g x.2.call.key).map fun value => (x.1, value))
    (hkeys : ∀ x ∈ scalars, x.2.call.key = key x.1) {name : String}
    (hname : name ∈ scalars.map Prod.fst ∨ g (key name) = none) :
    scalarValue values name = g (key name) := by
  have hlookup : (values.map fun x => (x.1, x.2.1)).lookup name = scalarValue values name := by
    unfold scalarValue
    clear hvalues
    induction values with
    | nil => rfl
    | cons x rest ih =>
      rw [List.map_cons, List.lookup_cons, List.lookup_cons]
      cases name == x.1 with
      | true => rfl
      | false => exact ih
  have hgraph : (scalars.filterMap fun x => (g x.2.call.key).map fun value => (x.1, value)) =
      (scalars.map Prod.fst).filterMap fun s => (g (key s)).map fun v => (s, v) := by
    rw [List.filterMap_map]
    exact List.filterMap_congr fun x hx => by rw [hkeys x hx, Function.comp]
  rw [← hlookup, hvalues, hgraph]
  exact lookup_graph (g := fun s => g (key s)) hname

section Split

variable {specs : List UIntCallSpec} {anchor : BlockRef} {batches : List VerifiedBatchResult}
  {decoded : DecodedExecution} {names : List String} {subjects : List (String × UIntCallSpec)}
  {f : String → Except String (String × UIntCallSpec)} {key : String → String} {kind : String}

/-- The calls of subjects: their values in order, and one error for each other subject. -/
theorem exists_subjects_split (hnodup : (specs.map (·.call.key)).Nodup)
    (h : decodeBatches specs anchor batches = .ok decoded)
    (hreads : ∀ name x, f name = .ok x → Reads key kind name x) (hmap : names.mapM f = .ok subjects)
    (hspecs : ∀ x ∈ subjects, x.2 ∈ specs) :
    ∃ values errors, splitCalls decoded subjects = .ok (values, errors) ∧
      values.map (fun x => (x.1, x.2.1)) =
        names.filterMap (fun s => (returnOf batches (key s)).map fun value => (s, value)) ∧
      errors.map (fun e => (e.subjectAddress, e.callKind)) =
        (names.filter fun s => returnOf batches (key s) = none).map fun s => (s, kind) := by
  obtain ⟨values, errors, hsplit, hvalues, herrors⟩ := exists_splitCalls hnodup h hspecs
  refine ⟨values, errors, hsplit, hvalues.trans ?_, herrors.trans ?_⟩
  · clear hvalues herrors hsplit hspecs
    have hall := mapM_eq_ok_iff.mp hmap
    clear hmap
    induction hall with
    | nil => rfl
    | @cons name x names subjects hx _ ih =>
      have hread := hreads name x hx
      rw [List.filterMap_cons, List.filterMap_cons, ih, hread.keyed, hread.named]
  · clear hvalues herrors hsplit hspecs
    have hall := mapM_eq_ok_iff.mp hmap
    clear hmap
    induction hall with
    | nil => rfl
    | @cons name x names subjects hx _ ih =>
      have hread := hreads name x hx
      rw [List.filter_cons, List.filter_cons, hread.keyed]
      by_cases hnone : returnOf batches (key name) = none
      · simp only [hnone, decide_true, if_true, List.map_cons, ih, hread.addressed, hread.ofKind]
      · simp only [hnone, decide_false, Bool.false_eq_true, if_false, ih]

end Split

section Graph

variable {names : List String} {g : String → Option Nat} {rows : List (String × Int)}
  (hrows : rows = (names.filterMap fun s => (g s).map fun v => (s, v)).map fun x => (x.1, (x.2 : Int)))
include hrows

theorem nodup_rows (hnames : names.Nodup) : (rows.map Prod.fst).Nodup := by
  rw [hrows, List.map_map]
  exact nodup_filterMap_graph hnames g

theorem mem_rows_iff {subject : String} {value : Int} :
    (subject, value) ∈ rows ↔ subject ∈ names ∧ ∃ v : Nat, g subject = some v ∧ value = v := by
  rw [hrows]
  simp only [List.mem_map, List.mem_filterMap, Option.map_eq_some_iff]
  constructor
  · rintro ⟨x, ⟨s, hs, v, hv, rfl⟩, heq⟩
    cases heq
    exact ⟨hs, v, hv, rfl⟩
  · rintro ⟨hs, v, hv, rfl⟩
    exact ⟨(subject, v), ⟨subject, hs, v, hv, rfl⟩, rfl⟩

end Graph

/-- The errors of calls of one kind stand for the subjects without a value. -/
theorem exists_error_iff {names : List String} {missing : String → Bool} {kind subject : String}
    {errors : List CollectionError}
    (h : errors.map (fun e => (e.subjectAddress, e.callKind)) =
      (names.filter missing).map fun s => (s, kind)) :
    (∃ e ∈ errors, e.subjectAddress = subject ∧ e.callKind = kind) ↔
      subject ∈ names ∧ missing subject = true := by
  have hmem : (subject, kind) ∈ errors.map (fun e => (e.subjectAddress, e.callKind)) ↔
      ∃ e ∈ errors, e.subjectAddress = subject ∧ e.callKind = kind := by
    simp
  rw [← hmem, h]
  simp

theorem nodup_addresses {frozen : FrozenUniverse} {u : Unit} (h : assertUniverse frozen = .ok u) :
    frozen.addresses.Nodup := by
  unfold assertUniverse at h
  simp only [except_bind_eq_ok_iff, check_eq_ok_iff, decide_eq_true_eq] at h
  obtain ⟨-, hsorted, -⟩ := h
  rw [hsorted]
  exact nodup_sortedSet _

/-! ## The collectors -/

section Erc20

variable {self : Erc20Collector} {token : TokenConfig} {frozen : FrozenUniverse} {anchor : BlockRef}
  {integrityMode : IntegrityMode} {request : TokenRequest}

theorem Erc20Collector.request_eq_ok_iff :
    self.request token frozen anchor integrityMode = .ok request ↔
      Erc20Collector.assertCollectible token frozen anchor integrityMode = .ok () ∧
        frozen.addresses.mapM (holderSpec token "balanceOf" balanceOfCalldata) = .ok request.holders ∧
        scalarSpecs self.keccak token [] token.supplyFunctions = .ok request.scalars ∧
        sentinelSpec token integrityMode = .ok request.sentinel := by
  unfold Erc20Collector.request
  simp only [except_bind_eq_ok_iff, except_pure_eq_ok_iff]
  constructor
  · rintro ⟨_, hassert, holders, hholders, scalars, hscalars, sentinel, hsentinel, rfl⟩
    exact ⟨hassert, hholders, hscalars, hsentinel⟩
  · rintro ⟨hassert, hholders, hscalars, hsentinel⟩
    exact ⟨(), hassert, _, hholders, _, hscalars, _, hsentinel, rfl⟩

theorem Erc20Collector.nodup_holders
    (h : Erc20Collector.assertCollectible token frozen anchor integrityMode = .ok ()) :
    frozen.addresses.Nodup := by
  unfold Erc20Collector.assertCollectible at h
  simp only [except_bind_eq_ok_iff] at h
  obtain ⟨-, -, -, -, -, -, -, -, huniverse⟩ := h
  exact nodup_addresses huniverse

theorem kind_sentinelSpec {spec : UIntCallSpec} (h : sentinelSpec token integrityMode = .ok (some spec)) :
    spec.callKind = "balanceOf_sentinel" := by
  unfold sentinelSpec at h
  by_cases hread : integrityMode = .fullSupply ∧ token.zeroAddressRole = .eventSentinel
  · rw [if_pos hread] at h
    simp only [except_bind_eq_ok_iff, except_pure_eq_ok_iff, Option.some.injEq] at h
    obtain ⟨bytes, -, rfl⟩ := h
    rfl
  · rw [if_neg hread] at h
    cases h

/-- The errors of scalars never are of the kind of a balance. -/
theorem kind_of_scalarErrors {scalars : List (String × UIntCallSpec)} {errors : List CollectionError}
    {kinds : List String} {missing : String × UIntCallSpec → Bool} (hscalars : ∀ x ∈ scalars, x.2.callKind ∈ kinds)
    (h : errors.map (fun e => (e.subjectAddress, e.callKind)) =
      (scalars.filter missing).map fun x => (x.2.subjectAddress, x.2.callKind)) :
    ∀ e ∈ errors, e.callKind ∈ kinds := by
  intro e he
  have hmem : (e.subjectAddress, e.callKind) ∈
      (scalars.filter missing).map fun x => (x.2.subjectAddress, x.2.callKind) := by
    rw [← h]
    exact List.mem_map_of_mem he
  obtain ⟨x, hx, heq⟩ := List.mem_map.mp hmem
  have hkind : x.2.callKind = e.callKind := congrArg Prod.snd heq
  rw [← hkind]
  exact hscalars x (List.mem_of_mem_filter hx)

theorem exists_readSentinel {specs : List UIntCallSpec} {batches : List VerifiedBatchResult}
    {decoded : DecodedExecution} (hnodup : (specs.map (·.call.key)).Nodup)
    (h : decodeBatches specs anchor batches = .ok decoded) {sentinel : Option UIntCallSpec}
    (hspecs : ∀ spec ∈ sentinel, spec ∈ specs) :
    ∃ balance errors, readSentinel decoded sentinel = .ok (balance, errors) ∧
      ∀ e ∈ errors, ∃ spec ∈ sentinel, e.callKind = spec.callKind := by
  cases sentinel with
  | none => exact ⟨none, [], rfl, fun e he => absurd he List.not_mem_nil⟩
  | some spec =>
    obtain ⟨call, hcall, hsame, -⟩ := exists_call hnodup h (hspecs spec rfl)
    rw [readSentinel, hcall, except_ok_bind]
    cases call.observation.value with
    | some value => exact ⟨some value, [], rfl, fun e he => absurd he List.not_mem_nil⟩
    | none =>
      refine ⟨none, [call.asError], rfl, fun e he => ⟨spec, rfl, ?_⟩⟩
      rw [List.mem_singleton.mp he, DecodedUIntCall.asError, hsame]

theorem Erc20Collector.exists_materialize {batches : List VerifiedBatchResult}
    {decoded : DecodedExecution} (hrequest : self.request token frozen anchor integrityMode = .ok request)
    (hnodup : (request.specs.map (·.call.key)).Nodup)
    (h : decodeBatches request.specs anchor batches = .ok decoded) :
    ∃ result, self.materialize token frozen integrityMode request decoded = .ok result ∧
      Materialized (.erc20 self token frozen) batches (.token result) := by
  obtain ⟨hassert, hholders, hscalars, hsentinel⟩ := Erc20Collector.request_eq_ok_iff.mp hrequest
  obtain ⟨balances, balanceErrors, hbalances, hvalues, hbalanceErrors⟩ :=
    exists_subjects_split hnodup h (fun _ _ => reads_holderSpec) hholders fun _ =>
      TokenRequest.mem_specs_of_holder
  obtain ⟨scalars, scalarErrors, hsplit, -, hscalarErrors⟩ :=
    exists_splitCalls hnodup h fun _ => TokenRequest.mem_specs_of_scalar
  obtain ⟨balance, sentinelErrors, hread, hsentinelErrors⟩ :=
    exists_readSentinel hnodup h fun _ => TokenRequest.mem_specs_of_sentinel
  unfold Erc20Collector.materialize
  simp only [hbalances, hsplit, hread, except_ok_bind]
  refine ⟨_, rfl, ?_⟩
  have hrows : ((balances.map balanceRow).map fun row => (row.holderAddress, row.balanceRaw)) =
      (balances.map fun x => (x.1, x.2.1)).map fun x => (x.1, (x.2 : Int)) := by
    rw [List.map_map, List.map_map]
    rfl
  rw [hvalues] at hrows
  have hscalarKinds : ∀ e ∈ scalarErrors, e.callKind ∈ supplyNames :=
    kind_of_scalarErrors (fun x hx => by
      have hreads := readsScalar_scalarSpecs hscalars x hx
      rw [hreads.kind]
      exact hreads.name) hscalarErrors
  constructor
  · exact nodup_rows hrows (Erc20Collector.nodup_holders hassert)
  · intro subject value
    exact mem_rows_iff hrows
  · intro subject hsubject
    have hiff : (∃ e ∈ balanceErrors, e.subjectAddress = subject ∧ e.callKind = "balanceOf") ↔ _ :=
      exists_error_iff hbalanceErrors
    show (∃ e ∈ balanceErrors ++ scalarErrors ++ sentinelErrors, e.subjectAddress = subject ∧
      e.callKind ∈ ["balanceOf"]) ↔ returnOf batches s!"balanceOf/{subject}" = none
    rw [decide_eq_true_eq] at hiff
    constructor
    · rintro ⟨e, he, haddress, hkind⟩
      have hkind := List.mem_singleton.mp hkind
      rcases List.mem_append.mp he with he | he
      · rcases List.mem_append.mp he with he | he
        · exact (hiff.mp ⟨e, he, haddress, hkind⟩).2
        · have hsupply := hscalarKinds e he
          rw [hkind] at hsupply
          exact absurd hsupply (by decide)
      · obtain ⟨spec, hspec, hsame⟩ := hsentinelErrors e he
        rw [hspec] at hsentinel
        rw [hsame, kind_sentinelSpec hsentinel] at hkind
        exact absurd hkind (by decide)
    · intro hnone
      obtain ⟨e, he, haddress, hkind⟩ := hiff.mpr ⟨hsubject, hnone⟩
      exact ⟨e, List.mem_append_left _ (List.mem_append_left _ he), haddress, hkind ▸ .head _⟩

end Erc20

section Reserves

open PoolReserveCollector

variable {pool : PoolConfig} {anchor : BlockRef} {integrityMode : IntegrityMode}
  {request : List (String × UIntCallSpec)}

theorem PoolReserveCollector.request_eq_ok_iff :
    PoolReserveCollector.request pool anchor integrityMode = .ok request ↔
      assertCollectible pool anchor integrityMode = .ok () ∧
        (sortBy id pool.assets).mapM (reserveSpec pool) = .ok request := by
  unfold PoolReserveCollector.request
  simp only [except_bind_eq_ok_iff]
  constructor
  · rintro ⟨_, hassert, hspecs⟩
    exact ⟨hassert, hspecs⟩
  · rintro ⟨hassert, hspecs⟩
    exact ⟨(), hassert, hspecs⟩

theorem PoolReserveCollector.nodup_assets (h : assertCollectible pool anchor integrityMode = .ok ()) :
    pool.assets.Nodup := by
  unfold assertCollectible at h
  simp only [except_bind_eq_ok_iff, check_eq_ok_iff, decide_eq_true_eq] at h
  obtain ⟨-, -, -, -, hnodup⟩ := h
  exact hnodup

theorem PoolReserveCollector.exists_materialize {batches : List VerifiedBatchResult}
    {decoded : DecodedExecution}
    (hrequest : PoolReserveCollector.request pool anchor integrityMode = .ok request)
    (hnodup : ((request.map Prod.snd).map (·.call.key)).Nodup)
    (h : decodeBatches (request.map Prod.snd) anchor batches = .ok decoded) :
    ∃ result, materialize pool integrityMode request decoded = .ok result ∧
      Materialized (.reserves pool) batches (.pool result) := by
  obtain ⟨hassert, hspecs⟩ := PoolReserveCollector.request_eq_ok_iff.mp hrequest
  obtain ⟨balances, errors, hbalances, hvalues, herrors⟩ :=
    exists_subjects_split hnodup h (fun _ _ => reads_reserveSpec) hspecs fun x hx =>
      List.mem_map_of_mem hx
  unfold materialize
  simp only [hbalances, except_ok_bind]
  refine ⟨_, rfl, ?_⟩
  have hrows : ((balances.map (reserveRow pool)).map fun row => (row.tokenAddress, row.balanceRaw)) =
      (balances.map fun x => (x.1, x.2.1)).map fun x => (x.1, (x.2 : Int)) := by
    rw [List.map_map, List.map_map]
    rfl
  rw [hvalues] at hrows
  constructor
  · exact nodup_rows hrows ((sortBy_perm id pool.assets).nodup_iff.mpr (nodup_assets hassert))
  · intro subject value
    have hmem := @mem_rows_iff _ _ _ hrows subject value
    rw [mem_sortBy] at hmem
    exact hmem
  · intro subject hsubject
    have hiff : (∃ e ∈ errors, e.subjectAddress = subject ∧ e.callKind = "balanceOf(pool)") ↔ _ :=
      exists_error_iff herrors
    rw [mem_sortBy, decide_eq_true_eq] at hiff
    show (∃ e ∈ errors, e.subjectAddress = subject ∧ e.callKind ∈ ["balanceOf(pool)"]) ↔
      returnOf batches s!"reserve/{pool.address}/{subject}" = none
    simp only [List.mem_singleton]
    exact hiff.trans (and_iff_right hsubject)

end Reserves

section AToken

variable {self : ATokenCollector} {token : TokenConfig} {frozen : FrozenUniverse} {anchor : BlockRef}
  {integrityMode : IntegrityMode} {request : TokenRequest}

theorem ATokenCollector.exists_index
    (h : ATokenCollector.assertCollectible token frozen anchor integrityMode = .ok ()) :
    frozen.addresses.Nodup ∧ ∃ index, token.indexSource = some index := by
  unfold ATokenCollector.assertCollectible at h
  simp only [except_bind_eq_ok_iff, check_eq_ok_iff] at h
  obtain ⟨-, -, -, -, -, hindex, -, -, -, -, huniverse⟩ := h
  exact ⟨nodup_addresses huniverse, Option.isSome_iff_exists.mp hindex⟩

/-- The index is asked for under its own name, after the supply functions. -/
theorem ATokenCollector.request_spec (h : self.request token frozen anchor integrityMode = .ok request) :
    frozen.addresses.Nodup ∧
      frozen.addresses.mapM (holderSpec token "scaledBalanceOf" (scaledBalanceOfCalldata self.keccak)) =
        .ok request.holders ∧ request.sentinel = none ∧
      ∃ supplies spec, request.scalars = supplies ++ [(indexOutputName, spec)] ∧
        scalarSpecs self.keccak token [] token.supplyFunctions = .ok supplies ∧
          spec.call.key = s!"scalar/{indexOutputName}" ∧ spec.callKind = indexFunction := by
  unfold ATokenCollector.request at h
  simp only [except_bind_eq_ok_iff, except_pure_eq_ok_iff] at h
  obtain ⟨_, hassert, holders, hholders, supplies, hsupplies, index, hindex, rfl⟩ := h
  obtain ⟨hnodup, source, hsource⟩ := exists_index hassert
  refine ⟨hnodup, hholders, rfl, supplies, ?_⟩
  have hspec := mapM_eq_ok_iff.mp hindex
  rw [hsource] at hspec
  obtain ⟨x, hx, rfl⟩ : ∃ x, indexSpec self.keccak source = .ok x ∧ index = [x] := by
    cases hspec with
    | cons hx hrest =>
      cases hrest
      exact ⟨_, hx, rfl⟩
  unfold indexSpec at hx
  simp only [except_bind_eq_ok_iff, except_pure_eq_ok_iff] at hx
  obtain ⟨bytes, -, rfl⟩ := hx
  exact ⟨_, rfl, hsupplies, rfl, rfl⟩

theorem reconstruct_of_some {index : Option Nat} {x : String × Nat × Nat} {v : Nat}
    (h : reconstructed index x.2.1 = some v) :
    ∃ row, reconstruct index x = .ok row ∧ (row.holderAddress, row.balanceRaw) = (x.1, (v : Int)) := by
  cases index with
  | none => cases h
  | some index =>
    cases hray : rayMulHalfUp x.2.1 index with
    | error message =>
      rw [reconstructed, Option.bind_some, hray] at h
      cases h
    | ok value =>
      rw [reconstructed, Option.bind_some, hray] at h
      cases h
      refine ⟨⟨x.1, v, some x.2.1, "ray_reconstructed", x.2.2⟩, ?_, rfl⟩
      rw [reconstruct]
      dsimp only
      rw [hray]

theorem reconstruct_of_none {index : Option Nat} {x : String × Nat × Nat}
    (h : reconstructed index x.2.1 = none) :
    ∃ e, reconstruct index x = .error e ∧ e.subjectAddress = x.1 ∧ e.callKind = "ray_reconstruct" := by
  cases index with
  | none => exact ⟨_, rfl, rfl, rfl⟩
  | some index =>
    cases hray : rayMulHalfUp x.2.1 index with
    | error message =>
      refine ⟨{ indexUnavailable x with
        status := .malformedReturn
        message := message }, ?_, rfl, rfl⟩
      rw [reconstruct]
      dsimp only
      rw [hray]
    | ok value =>
      rw [reconstructed, Option.bind_some, hray] at h
      cases h

/-- The rows of the reconstruction, in the order of the scaled balances. -/
theorem rows_reconstruct (index : Option Nat) (scaled : List (String × Nat × Nat)) :
    (partition (scaled.map (reconstruct index))).1.map
        (fun row => (row.holderAddress, row.balanceRaw)) =
      ((scaled.map fun x => (x.1, x.2.1)).filterMap fun x =>
        (reconstructed index x.2).map fun v => (x.1, v)).map fun x => (x.1, (x.2 : Int)) := by
  rw [partition_fst]
  induction scaled with
  | nil => rfl
  | cons x rest ih =>
    rw [List.map_cons, List.map_cons, List.filterMap_cons, List.filterMap_cons]
    cases hvalue : reconstructed index x.2.1 with
    | none =>
      obtain ⟨e, he, -⟩ := reconstruct_of_none hvalue
      rw [he]
      exact ih
    | some v =>
      obtain ⟨row, hrow, hpair⟩ := reconstruct_of_some hvalue
      rw [hrow]
      exact congrArg₂ List.cons hpair ih

/-- The errors of the reconstruction are of the scaled balances that it cannot multiply. -/
theorem errors_reconstruct {index : Option Nat} {scaled : List (String × Nat × Nat)} {subject : String} :
    (∃ e ∈ (partition (scaled.map (reconstruct index))).2,
        e.subjectAddress = subject ∧ e.callKind = "ray_reconstruct") ↔
      ∃ value, (subject, value) ∈ scaled.map (fun x => (x.1, x.2.1)) ∧
        reconstructed index value = none := by
  simp only [mem_partition_snd, List.mem_map]
  constructor
  · rintro ⟨e, ⟨x, hx, herror⟩, rfl, -⟩
    cases hvalue : reconstructed index x.2.1 with
    | none =>
      obtain ⟨e', he', haddress, -⟩ := reconstruct_of_none hvalue
      rw [he'] at herror
      cases herror
      exact ⟨x.2.1, ⟨x, hx, by rw [haddress]⟩, hvalue⟩
    | some v =>
      obtain ⟨row, hrow, -⟩ := reconstruct_of_some hvalue
      rw [hrow] at herror
      cases herror
  · rintro ⟨value, ⟨x, hx, heq⟩, hnone⟩
    cases heq
    obtain ⟨e, he, haddress, hkind⟩ := reconstruct_of_none hnone
    exact ⟨e, ⟨x, hx, he⟩, haddress, hkind⟩

theorem kind_reconstruct {index : Option Nat} {scaled : List (String × Nat × Nat)} {e : CollectionError}
    (h : e ∈ (partition (scaled.map (reconstruct index))).2) : e.callKind = "ray_reconstruct" := by
  obtain ⟨x, -, herror⟩ := List.mem_map.mp (mem_partition_snd.mp h)
  cases hvalue : reconstructed index x.2.1 with
  | none =>
    obtain ⟨e', he', -, hkind⟩ := reconstruct_of_none hvalue
    rw [he'] at herror
    cases herror
    exact hkind
  | some v =>
    obtain ⟨row, hrow, -⟩ := reconstruct_of_some hvalue
    rw [hrow] at herror
    cases herror

theorem option_bind_graph {α β γ : Type} (s : α) (o : Option β) (g : β → Option γ) :
    ((o.map fun value => (s, value)).bind fun x => (g x.2).map fun v => (x.1, v)) =
      (o.bind g).map fun v => (s, v) := by
  cases o <;> rfl

section Reconstruction

variable {names : List String} {read : String → Option Nat} {scaled : List (String × Nat × Nat)}
  {index : Option Nat} {scaledErrors scalarErrors : List CollectionError}
  (hvalues : scaled.map (fun x => (x.1, x.2.1)) =
    names.filterMap fun s => (read s).map fun value => (s, value))
include hvalues

theorem rows_reconstruct_graph :
    (partition (scaled.map (reconstruct index))).1.map
        (fun row => (row.holderAddress, row.balanceRaw)) =
      (names.filterMap fun s => ((read s).bind (reconstructed index)).map fun v => (s, v)).map
        fun x => (x.1, (x.2 : Int)) := by
  rw [rows_reconstruct, hvalues, List.filterMap_filterMap]
  congr 2
  funext s
  exact option_bind_graph s _ (reconstructed index)

/-- A holder has an error when its scaled balance was not read or could not be reconstructed. -/
theorem exists_balance_error_iff {subject : String} (hsubject : subject ∈ names)
    (hscaled : scaledErrors.map (fun e => (e.subjectAddress, e.callKind)) =
      (names.filter fun s => read s = none).map fun s => (s, "scaledBalanceOf"))
    (hscalar : ∀ e ∈ scalarErrors, e.callKind ∈ indexFunction :: supplyNames) :
    (∃ e ∈ scaledErrors ++ scalarErrors ++ (partition (scaled.map (reconstruct index))).2,
        e.subjectAddress = subject ∧ e.callKind ∈ ["scaledBalanceOf", "ray_reconstruct"]) ↔
      (read subject).bind (reconstructed index) = none := by
  have hread : (∃ e ∈ scaledErrors, e.subjectAddress = subject ∧ e.callKind = "scaledBalanceOf") ↔ _ :=
    exists_error_iff hscaled
  rw [decide_eq_true_eq, and_iff_right hsubject] at hread
  have hray := @errors_reconstruct index scaled subject
  have hmem : ∀ value, (subject, value) ∈ scaled.map (fun x => (x.1, x.2.1)) ↔
      read subject = some value := by
    intro value
    rw [hvalues]
    simp only [List.mem_filterMap, Option.map_eq_some_iff]
    constructor
    · rintro ⟨s, -, v, hv, heq⟩
      cases heq
      exact hv
    · exact fun hv => ⟨subject, hsubject, value, hv, rfl⟩
  simp only [hmem] at hray
  have hkind : ∀ e ∈ scaledErrors, e.callKind = "scaledBalanceOf" := by
    intro e he
    have hpair : (e.subjectAddress, e.callKind) ∈
        (names.filter fun s => read s = none).map fun s => (s, "scaledBalanceOf") := by
      rw [← hscaled]
      exact List.mem_map_of_mem he
    obtain ⟨s, -, heq⟩ := List.mem_map.mp hpair
    exact (congrArg Prod.snd heq).symm
  constructor
  · rintro ⟨e, he, haddress, hkinds⟩
    rcases List.mem_append.mp he with he | he
    · rcases List.mem_append.mp he with he | he
      · rw [hread.mp ⟨e, he, haddress, hkind e he⟩, Option.bind_none]
      · -- The kinds of the scalars are others.
        have hdisjoint : ∀ k ∈ indexFunction :: supplyNames, k ∉ ["scaledBalanceOf", "ray_reconstruct"] := by
          decide
        exact absurd hkinds (hdisjoint _ (hscalar e he))
    · obtain ⟨value, hvalue, hnone⟩ := hray.mp ⟨e, he, haddress, kind_reconstruct he⟩
      rw [hvalue, Option.bind_some, hnone]
  · intro hnone
    cases hvalue : read subject with
    | none =>
      obtain ⟨e, he, haddress, hsame⟩ := hread.mpr hvalue
      exact ⟨e, List.mem_append_left _ (List.mem_append_left _ he), haddress, hsame ▸ .head _⟩
    | some value =>
      rw [hvalue, Option.bind_some] at hnone
      obtain ⟨e, he, haddress, hsame⟩ := hray.mpr ⟨value, hvalue, hnone⟩
      exact ⟨e, List.mem_append_right _ he, haddress, hsame ▸ .tail _ (.head _)⟩

end Reconstruction

theorem ATokenCollector.exists_materialize {batches : List VerifiedBatchResult}
    {decoded : DecodedExecution} (hrequest : self.request token frozen anchor integrityMode = .ok request)
    (hnodup : (request.specs.map (·.call.key)).Nodup)
    (h : decodeBatches request.specs anchor batches = .ok decoded) :
    ∃ result, ATokenCollector.materialize token frozen integrityMode request decoded = .ok result ∧
      Materialized (.aToken self token frozen) batches (.token result) := by
  obtain ⟨haddresses, hholders, -, supplies, spec, hscalars, hnames, hkey, hkind⟩ :=
    request_spec hrequest
  have hsupplies := readsScalar_scalarSpecs hnames
  obtain ⟨scaled, scaledErrors, hscaled, hvalues, hscaledErrors⟩ :=
    exists_subjects_split hnodup h (fun _ _ => reads_holderSpec) hholders fun _ =>
      TokenRequest.mem_specs_of_holder
  obtain ⟨scalars, scalarErrors, hsplit, hscalarValues, hscalarErrors⟩ :=
    exists_splitCalls hnodup h fun _ => TokenRequest.mem_specs_of_scalar
  have hindex : scalarValue scalars indexOutputName =
      returnOf batches s!"scalar/{indexOutputName}" := by
    refine scalarValue_eq (fun name => s!"scalar/{name}") hscalarValues (fun x hx => ?_)
      (.inl (by rw [hscalars]; simp))
    rw [hscalars] at hx
    rcases List.mem_append.mp hx with hx | hx
    · exact (hsupplies x hx).key
    · rw [List.mem_singleton.mp hx, hkey]
  have hscalarKinds : ∀ e ∈ scalarErrors, e.callKind ∈ indexFunction :: supplyNames :=
    kind_of_scalarErrors (fun x hx => by
      rw [hscalars] at hx
      rcases List.mem_append.mp hx with hx | hx
      · rw [(hsupplies x hx).kind]
        exact .tail _ (hsupplies x hx).name
      · rw [List.mem_singleton.mp hx, hkind]
        exact .head _) hscalarErrors
  unfold ATokenCollector.materialize
  simp only [hscaled, hsplit, except_ok_bind]
  refine ⟨_, rfl, ?_⟩
  rw [hindex]
  constructor
  · exact nodup_rows (rows_reconstruct_graph hvalues) haddresses
  · intro subject value
    exact mem_rows_iff (rows_reconstruct_graph hvalues)
  · intro subject hsubject
    exact exists_balance_error_iff hvalues hsubject hscaledErrors hscalarKinds

end AToken

end RpcStateIndexer
