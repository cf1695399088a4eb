import Mathlib.Data.List.Perm.Basic
import RpcStateIndexer.Collectors.Materialization

/-!
# Complete answers

An executor answers the calls of a collection with accepted batches, or the collection raises.  Of an
answer the count of successful calls, the errors and the scalars are told by what each key returned.
-/

namespace RpcStateIndexer

open Reasoning Program

/-! ## The answer of an executor -/

/-- The executor answers the calls of the specs with batches that are accepted. -/
structure AnsweredWith (executor : (op : ExecuteOp) → ExecuteAns op) (specs : List UIntCallSpec)
    (anchor : BlockRef) (batches : List VerifiedBatchResult) : Prop where
  answer : executor ⟨specs.map (·.call), anchor⟩ = .ok batches
  accepted : Accepted (specs.map (·.call.key)) anchor batches

/-- Each call of the specs returned one word. -/
def EveryCallReturned (specs : List UIntCallSpec) (batches : List VerifiedBatchResult) : Prop :=
  ∀ spec ∈ specs, (returnOf batches spec.call.key).isSome = true

theorem answeredBy_executeUintCalls {executor : (op : ExecuteOp) → ExecuteAns op}
    {specs : List UIntCallSpec} {anchor : BlockRef} {decoded : DecodedExecution}
    (hnodup : (specs.map (·.call.key)).Nodup) :
    answeredBy executor (executeUintCalls specs anchor) = .ok decoded ↔
      ∃ batches, AnsweredWith executor specs anchor batches ∧
        decodeBatches specs anchor batches = .ok decoded := by
  have hduplicate : duplicateKey [] (specs.map (·.call.key)) = none :=
    duplicateKey_eq_none_iff.mpr ⟨fun _ _ => List.not_mem_nil, hnodup⟩
  have hanswered : answeredBy executor (executeUintCalls specs anchor) =
      answeredBy executor (execute (specs.map (·.call)) anchor) >>= decodeBatches specs anchor := by
    rw [executeUintCalls, hduplicate]
    change answeredBy executor (execute (specs.map (·.call)) anchor >>= fun batches =>
      ofExcept (decodeBatches specs anchor batches)) = _
    rw [answeredBy_bind]
    congr 1
    funext batches
    exact answeredBy_ofExcept _ _
  rw [hanswered, except_bind_eq_ok_iff]
  refine exists_congr fun batches => ?_
  have hexecute : answeredBy executor (execute (specs.map (·.call)) anchor) = .ok batches ↔
      executor ⟨specs.map (·.call), anchor⟩ = .ok batches := by
    rw [execute, perform_bind, answeredBy]
    cases executor ⟨specs.map (·.call), anchor⟩ with
    | error fault => exact iff_of_false error_ne_ok error_ne_ok
    | ok other =>
      change (.ok other : Except CollectorFault _) = .ok batches ↔ _
      rw [Except.ok.injEq, Except.ok.injEq]
  rw [hexecute]
  constructor
  · rintro ⟨hanswer, hdecoded⟩
    exact ⟨⟨hanswer, (decodeBatches_eq_ok_iff.mp hdecoded).1⟩, hdecoded⟩
  · rintro ⟨⟨hanswer, -⟩, hdecoded⟩
    exact ⟨hanswer, hdecoded⟩

/-- The collection of a token returns a verified result. -/
def Verifies (executor : (op : ExecuteOp) → ExecuteAns op)
    (collection : CollectorProgram TokenCollectionResult) : Prop :=
  ∃ result, answeredBy executor collection = .ok result ∧ result.verified = true

/-- A collection returns what it makes of the answer to its request. -/
theorem answeredBy_collection {executor : (op : ExecuteOp) → ExecuteAns op} {anchor : BlockRef}
    {requested : Except String TokenRequest}
    {finish : TokenRequest → DecodedExecution → Except CollectorFault TokenCollectionResult}
    (hnodup : ∀ request, requested = .ok request → (request.specs.map (·.call.key)).Nodup)
    {result : TokenCollectionResult} :
    answeredBy executor (do
        let request ← ofExcept (orValueError requested)
        let decoded ← executeUintCalls request.specs anchor
        ofExcept (finish request decoded)) = .ok result ↔
      ∃ request batches decoded, requested = .ok request ∧
        AnsweredWith executor request.specs anchor batches ∧
        decodeBatches request.specs anchor batches = .ok decoded ∧
        finish request decoded = .ok result := by
  rw [answeredBy_bind, except_bind_eq_ok_iff]
  simp only [answeredBy_ofExcept, orValueError_eq_ok_iff, answeredBy_bind, except_bind_eq_ok_iff]
  constructor
  · rintro ⟨request, hrequest, decoded, hdecoded, hresult⟩
    obtain ⟨batches, hanswered, hdecode⟩ :=
      (answeredBy_executeUintCalls (hnodup request hrequest)).mp hdecoded
    exact ⟨request, batches, decoded, hrequest, hanswered, hdecode, hresult⟩
  · rintro ⟨request, batches, decoded, hrequest, hanswered, hdecode, hresult⟩
    exact ⟨request, hrequest, decoded,
      (answeredBy_executeUintCalls (hnodup request hrequest)).mpr ⟨batches, hanswered, hdecode⟩, hresult⟩

/-! ## What the keys returned -/

theorem returned_lt {raw : RawCallResult} {value : Nat} (h : returned raw = some value) :
    value < 2 ^ 256 := by
  unfold returned at h
  split at h
  · next hword =>
    obtain rfl := Option.some.inj h
    have hlt := ofBytesBE_lt raw.returndata
    rwa [hword.2] at hlt
  · cases h

theorem returnOf_lt {batches : List VerifiedBatchResult} {key : String} {value : Nat}
    (h : returnOf batches key = some value) : value < 2 ^ 256 := by
  obtain ⟨raw, -, hraw⟩ := Option.bind_eq_some_iff.mp h
  exact returned_lt hraw

theorem getD_returnOf_lt (batches : List VerifiedBatchResult) (key : String) :
    (returnOf batches key).getD 0 < 2 ^ 256 := by
  cases hreturn : returnOf batches key with
  | none => exact Nat.two_pow_pos 256
  | some value => exact returnOf_lt hreturn

section Decoded

variable {specs : List UIntCallSpec} {anchor : BlockRef} {batches : List VerifiedBatchResult}
  {decoded : DecodedExecution}

/-- What was not asked for was not returned. -/
theorem returnOf_eq_none (haccepted : Accepted (specs.map (·.call.key)) anchor batches) {key : String}
    (h : key ∉ specs.map (·.call.key)) : returnOf batches key = none := by
  have hfind : (rawResults batches).find? (fun raw => raw.key = key) = none := by
    rw [List.find?_eq_none]
    intro raw hraw hkey
    refine h ((haccepted.keys key).mp ?_)
    rw [← of_decide_eq_true hkey]
    exact List.mem_map_of_mem hraw
  rw [returnOf, hfind]
  rfl

variable (hnodup : (specs.map (·.call.key)).Nodup)
  (h : decodeBatches specs anchor batches = .ok decoded)
include hnodup h

theorem length_decoded : decoded.calls.length = specs.length := by
  obtain ⟨haccepted, rfl⟩ := decodeBatches_eq_ok_iff.mp h
  have hperm : ((rawResults batches).map RawCallResult.key).Perm (specs.map (·.call.key)) :=
    (List.perm_ext_iff_of_nodup haccepted.nodup hnodup).mpr haccepted.keys
  have hlength := congrArg List.length (keys_decoded hnodup haccepted)
  rw [hperm.length_eq, List.length_map, List.length_map] at hlength
  exact hlength

/-- The decoded calls are those that are found by their keys. -/
theorem mem_decoded_iff {call : DecodedUIntCall} :
    call ∈ decoded.calls ↔ ∃ spec ∈ specs, decoded.call spec.call.key = .ok call := by
  have hcall : ∀ spec ∈ specs, decoded.call spec.call.key = .ok call ↔ _ :=
    fun spec hspec => call_eq_ok_iff hnodup h hspec
  obtain ⟨-, rfl⟩ := decodeBatches_eq_ok_iff.mp h
  simp only [List.mem_filterMap, decodeResult_eq_some_iff hnodup]
  constructor
  · rintro ⟨result, hresult, spec, hspec, hkey, heq⟩
    exact ⟨spec, hspec, (hcall spec hspec).mpr ⟨result, hresult, hkey.symm, heq⟩⟩
  · rintro ⟨spec, hspec, hfound⟩
    obtain ⟨result, hresult, hkey, heq⟩ := (hcall spec hspec).mp hfound
    exact ⟨result, hresult, spec, hspec, hkey.symm, heq⟩

/-- The count of successful calls is full exactly when every call returned. -/
theorem complete_iff :
    (completenessCheck specs.length decoded).1 = true ↔ EveryCallReturned specs batches := by
  have hok : ∀ spec ∈ specs, ∀ call, decoded.call spec.call.key = .ok call →
      (call.observation.ok = true ↔ (returnOf batches spec.call.key).isSome = true) := by
    intro spec hspec call hcall
    obtain ⟨other, hother, -, hvalue⟩ := exists_call hnodup h hspec
    rw [hcall] at hother
    rw [UIntObservation.ok_iff_isSome, Except.ok.inj hother, hvalue]
  rw [completenessCheck, decide_eq_true_eq, ← length_decoded hnodup h, List.countP_eq_length]
  constructor
  · intro hall spec hspec
    obtain ⟨call, hcall, -⟩ := exists_call hnodup h hspec
    exact (hok spec hspec call hcall).mp
      (hall call ((mem_decoded_iff hnodup h).mpr ⟨spec, hspec, hcall⟩))
  · intro hall call hmem
    obtain ⟨spec, hspec, hcall⟩ := (mem_decoded_iff hnodup h).mp hmem
    exact (hok spec hspec call hcall).mpr (hall spec hspec)

/-- When every call returned, no subject has an error. -/
theorem exists_values {α : Type} {subjects : List (α × UIntCallSpec)}
    (hsubjects : ∀ x ∈ subjects, x.2 ∈ specs) (hall : EveryCallReturned specs batches) :
    ∃ values, splitCalls decoded subjects = .ok (values, []) ∧
      values.map (fun x => (x.1, x.2.1)) =
        subjects.filterMap fun x => (returnOf batches x.2.call.key).map fun value => (x.1, value) := by
  obtain ⟨values, errors, hsplit, hvalues, herrors⟩ := exists_splitCalls hnodup h hsubjects
  have hnone : (subjects.filter fun x => returnOf batches x.2.call.key = none) = [] := by
    refine List.filter_eq_nil_iff.mpr fun x hx hno => ?_
    have hreturned := hall _ (hsubjects x hx)
    rw [of_decide_eq_true hno] at hreturned
    cases hreturned
  rw [hnone, List.map_nil, List.map_eq_nil_iff] at herrors
  subst herrors
  exact ⟨values, hsplit, hvalues⟩

omit hnodup h in
/-- When every call returned, there is one value for each subject, in order. -/
theorem filterMap_returned {α : Type} {subjects : List (α × UIntCallSpec)}
    (hsubjects : ∀ x ∈ subjects, x.2 ∈ specs) (hall : EveryCallReturned specs batches) :
    (subjects.filterMap fun x => (returnOf batches x.2.call.key).map fun value => (x.1, value)) =
      subjects.map fun x => (x.1, (returnOf batches x.2.call.key).getD 0) := by
  rw [← List.filterMap_eq_map]
  refine List.filterMap_congr fun x hx => ?_
  obtain ⟨value, hvalue⟩ := Option.isSome_iff_exists.mp (hall _ (hsubjects x hx))
  rw [Function.comp, hvalue]
  rfl

end Decoded

/-- An executor that answers every call with a word. -/
theorem exists_answeredWith (answer : String → List UInt8) {specs : List UIntCallSpec}
    (anchor : BlockRef) (hnodup : (specs.map (·.call.key)).Nodup)
    (hsize : ∀ key ∈ specs.map (·.call.key), (utf8 key).length < 256 ^ 4)
    (hword : ∀ key, (answer key).length = 32) :
    ∃ batches, AnsweredWith (answerCalls answer) specs anchor batches ∧
      ∀ key ∈ specs.map (·.call.key), returnOf batches key = some (ofBytesBE (answer key)) := by
  have hkeys : (specs.map (·.call)).map ContractCall.key = specs.map (·.call.key) := List.map_map
  have hcalls : ∀ call ∈ specs.map (·.call),
      (utf8 call.key).length < 256 ^ 4 ∧ (answer call.key).length < 256 ^ 4 := by
    intro call hcall
    refine ⟨hsize _ (hkeys ▸ List.mem_map_of_mem hcall), ?_⟩
    rw [hword]
    decide
  obtain ⟨batches, hanswer, -, -, hround⟩ := acceptRound_answerCalls anchor (hkeys ▸ hnodup) hcalls
  obtain ⟨haccepted, hnumbered⟩ := acceptRound_eq_ok_iff.mp (hround uintMessages 0)
  rw [hkeys] at haccepted
  have hraw : rawResults batches = (specs.map (·.call)).map (answered answer) := by
    rw [← raw_numbered 0, ← hnumbered, List.map_map]
    rfl
  refine ⟨batches, ⟨hanswer, haccepted⟩, fun key hkey => ?_⟩
  rw [← hkeys] at hkey
  obtain ⟨call, hcall, rfl⟩ := List.mem_map.mp hkey
  have hfind : (rawResults batches).find? (fun raw => raw.key = call.key) =
      some (answered answer call) := by
    refine (find?_eq_some_iff_of_nodup haccepted.nodup).mpr ⟨?_, rfl⟩
    rw [hraw]
    exact List.mem_map_of_mem hcall
  rw [returnOf, hfind, Option.bind_some, returned, if_pos ⟨rfl, hword _⟩]
  rfl

/-! ## The keys of a request -/

/-- Texts that begin differently are different. -/
theorem append_ne_append {p q : String} (h : ¬ p.toList <+: q.toList) (h' : ¬ q.toList <+: p.toList)
    (x y : String) : p ++ x ≠ q ++ y := by
  intro heq
  have hp : p.toList <+: (p ++ x).toList := by
    rw [String.toList_append]
    exact List.prefix_append _ _
  have hq : q.toList <+: (p ++ x).toList := by
    rw [heq, String.toList_append]
    exact List.prefix_append _ _
  exact (List.prefix_or_prefix_of_prefix hp hq).elim h h'

section Keys

variable {keccak : String → List UInt8} {token : TokenConfig}

/-- What is read of the specs of holders, by the holders and their keys. -/
theorem map_holderSpecs {β : Type} {functionName : String}
    {calldata : String → Except String (List UInt8)} {holders : List String}
    {specs : List (String × UIntCallSpec)}
    (h : holders.mapM (holderSpec token functionName calldata) = .ok specs) (g : String → β) :
    specs.map (fun x => (x.1, g x.2.call.key)) =
      holders.map fun holder => (holder, g s!"{functionName}/{holder}") := by
  have hall := mapM_eq_ok_iff.mp h
  clear h
  induction hall with
  | nil => rfl
  | cons hx _ ih =>
    have hreads := reads_holderSpec hx
    rw [List.map_cons, List.map_cons, ih, hreads.named, hreads.keyed]

theorem keys_holderSpecs {functionName : String} {calldata : String → Except String (List UInt8)}
    {holders : List String} {specs : List (String × UIntCallSpec)}
    (h : holders.mapM (holderSpec token functionName calldata) = .ok specs) :
    specs.map (fun x => x.2.call.key) = holders.map fun holder => s!"{functionName}/{holder}" := by
  have hpairs := congrArg (List.map Prod.snd) (map_holderSpecs h id)
  rwa [List.map_map, List.map_map] at hpairs

theorem names_scalarSpecs {seen names : List String} {specs : List (String × UIntCallSpec)}
    (h : scalarSpecs keccak token seen names = .ok specs) :
    specs.map Prod.fst = names ∧ names.Nodup ∧ ∀ name ∈ names, name ∉ seen := by
  induction names generalizing seen specs with
  | nil =>
    cases h
    exact ⟨rfl, List.nodup_nil, List.forall_mem_nil _⟩
  | cons name names ih =>
    unfold scalarSpecs scalarSpec at h
    simp only [except_bind_eq_ok_iff, except_pure_eq_ok_iff, check_eq_ok_iff, decide_eq_true_eq] at h
    obtain ⟨-, hfresh, spec, ⟨bytes, -, rfl⟩, rest, hrest, rfl⟩ := h
    obtain ⟨hnames, hnodup, hseen⟩ := ih hrest
    refine ⟨by rw [List.map_cons, hnames], List.nodup_cons.mpr ⟨fun hmem => ?_, hnodup⟩,
      List.forall_mem_cons.mpr ⟨hfresh, fun other hother hmem => ?_⟩⟩
    · exact hseen name hmem List.mem_cons_self
    · exact hseen other hother (List.mem_cons_of_mem _ hmem)

theorem keys_scalarSpecs {seen names : List String} {specs : List (String × UIntCallSpec)}
    (h : scalarSpecs keccak token seen names = .ok specs) :
    specs.map (fun x => x.2.call.key) = names.map fun name => s!"scalar/{name}" := by
  rw [← (names_scalarSpecs h).1, List.map_map]
  exact List.map_congr_left fun x hx => (readsScalar_scalarSpecs h x hx).key

theorem nodup_prefixed {names : List String} (h : names.Nodup) (p : String) :
    (names.map fun name => p ++ name).Nodup :=
  h.map fun _ _ heq => (String.append_right_inj p).mp heq

/-- Keys of two kinds that begin differently do not meet. -/
theorem disjoint_prefixed {p q : String} (h : ¬ p.toList <+: q.toList) (h' : ¬ q.toList <+: p.toList)
    (names names' : List String) :
    (names.map fun name => p ++ name).Disjoint (names'.map fun name => q ++ name) := by
  intro key hkey hkey'
  obtain ⟨name, -, rfl⟩ := List.mem_map.mp hkey
  obtain ⟨name', -, heq⟩ := List.mem_map.mp hkey'
  exact append_ne_append h' h name' name heq

end Keys

end RpcStateIndexer
