import Mathlib.Data.Nat.Log
import RpcStateIndexer.Anchors.ResolverCorrect

/-!
# The contract of a resolution

What holds of a resolution whatever the oracle answers, how long its search takes, and both of these
beside the result against a chain served consistently.
-/

namespace RpcStateIndexer

open Reasoning Program AnchorResolver

/-! ## Against any oracle -/

/-- The two proof blocks enclose the boundary, are adjacent, and are not above the safe tip. -/
structure BoundaryProof (resolved : ResolvedAnchor) (boundary : Int) : Prop where
  anchor_before : (resolved.anchor.timestamp : Int) < boundary
  next_after : boundary ≤ (resolved.nextBlock.timestamp : Int)
  adjacent : resolved.nextBlock.number = resolved.anchor.number + 1
  linked : resolved.nextBlock.parentHash = resolved.anchor.blockHash
  final : resolved.nextBlock.number ≤ resolved.safeTip.number

theorem boundaryProof_of_valid {resolved : ResolvedAnchor} {boundary : Int}
    (hdate : utcDayEndTimestamp resolved.snapshotDate = .ok boundary)
    (h : validateResolvedAnchor resolved = .ok ()) : BoundaryProof resolved boundary := by
  simp only [validateResolvedAnchor, hdate, except_ok_bind, except_bind_eq_ok_iff,
    check_eq_ok_iff, decide_eq_true_eq] at h
  obtain ⟨-, hbefore, -, hafter, -, hadjacent, -, hlinked, hfinal⟩ := h
  exact ⟨hbefore, hafter, hadjacent, hlinked, hfinal⟩

/-- The environment in which every answer is possible. -/
def anyAnswer (req : RpcRequest) (w : Unit) (reply : RpcReply req) (w' : Unit) : Prop :=
  (fun _ : Sigma RpcReply => True) ⟨req, reply⟩ ∧ w' = w

theorem returns_confirm {snapshotDate : Nat} {boundary : Int} {tip anchor nextBlock : BlockRef}
    {source : String} {fingerprints : List String}
    (hdate : utcDayEndTimestamp snapshotDate = .ok boundary) :
    Returns anyAnswer (fun _ => True) (fun resolved _ => BoundaryProof resolved boundary)
      (confirm snapshotDate tip source anchor nextBlock fingerprints) () := by
  rw [confirm]
  apply (Returns.top _ _).bind
  intro confirmedAnchor _ _
  apply (Returns.top _ _).bind
  intro confirmedNext _ _
  apply Returns.ofExcept_bind trivial
  intro _ _
  apply Returns.ofExcept_bind trivial
  intro _ hvalid
  exact boundaryProof_of_valid hdate hvalid

/-- Nothing before `confirm` matters to the proof a resolution carries. -/
theorem returns_resolve (resolver : AnchorResolver) (snapshotDate : Nat) :
    Returns anyAnswer (fun _ => True)
      (fun resolved _ => ∃ boundary, utcDayEndTimestamp snapshotDate = .ok boundary ∧
        BoundaryProof resolved boundary)
      (resolver.resolve snapshotDate) () := by
  rw [resolve]
  apply Returns.ofExcept_bind trivial
  intro boundary hdate
  apply (Returns.top _ _).bind
  intro tip _ _
  by_cases hreached : (tip.1.timestamp : Int) < boundary
  · simp only [if_pos hreached]
    exact Returns.raise trivial
  · simp only [if_neg hreached]
    apply (Returns.top _ _).bind
    intro genesis _ _
    by_cases hgenesis : boundary ≤ (genesis.1.timestamp : Int)
    · simp only [if_pos hgenesis]
      exact Returns.raise trivial
    · simp only [if_neg hgenesis]
      apply (Returns.top _ _).bind
      intro ends _ _
      apply (Returns.top _ _).bind
      intro anchor _ _
      apply (Returns.top _ _).bind
      intro nextBlock _ _
      refine (returns_confirm hdate).mono ?_
      intro resolved _ hproof
      exact ⟨boundary, hdate, hproof⟩

/-! ## The length of the search -/

theorem runs_readByNumber_length {number : Nat} {t : List (Sigma RpcReply)}
    {r : Except AnchorException (BlockRef × String)} (h : Runs (readByNumber number) t r) :
    t.length = 1 := by
  obtain ⟨reply, t', rfl, hrest⟩ := runs_call_iff.mp h
  cases reply with
  | error e =>
    obtain ⟨rfl, -⟩ := runs_raise_iff.mp hrest
    rfl
  | ok served =>
    rcases runs_bind_iff.mp hrest with ⟨block, t₁, t₂, rfl, h₁, h₂⟩ | ⟨e, h₁, -⟩
    · obtain ⟨rfl, -⟩ := runs_ofExcept_iff.mp h₁
      obtain ⟨rfl, -⟩ := runs_ret_iff.mp h₂
      rfl
    · obtain ⟨rfl, -⟩ := runs_ofExcept_iff.mp h₁
      rfl

theorem runs_read_length {st : ReadState} {number : Nat} {t : List (Sigma RpcReply)}
    {r : Except AnchorException (BlockRef × ReadState)} (h : Runs (read st number) t r) :
    t.length ≤ 1 := by
  rw [AnchorResolver.read] at h
  cases hcached : st.cache.lookup number with
  | some block =>
    rw [hcached] at h
    obtain ⟨rfl, -⟩ := runs_ret_iff.mp h
    exact Nat.zero_le 1
  | none =>
    rw [hcached] at h
    rcases runs_bind_iff.mp h with ⟨served, t₁, t₂, rfl, h₁, h₂⟩ | ⟨e, h₁, -⟩
    · obtain ⟨rfl, -⟩ := runs_ret_iff.mp h₂
      rw [List.append_nil, runs_readByNumber_length h₁]
    · rw [runs_readByNumber_length h₁]

/-- A pass halves the gap, rounding up, and a gap of one is the end. -/
theorem clog_halves (gap half : Nat) (hgap : 1 < gap) (hhalf : 2 * half ≤ gap + 1) :
    Nat.clog 2 half + 1 ≤ Nat.clog 2 gap := by
  rw [Nat.clog_of_two_le (by decide) hgap]
  apply Nat.succ_le_succ
  apply Nat.clog_mono_right
  omega

/-- The search asks for at most as many blocks as the gap has binary digits. -/
theorem runs_search_length {boundary : Int} {low high : Nat} {st : ReadState}
    {t : List (Sigma RpcReply)} {r : Except AnchorException (Nat × Nat × ReadState)}
    (h : Runs (search boundary low high st) t r) : t.length ≤ Nat.clog 2 (high - low) := by
  induction hgap : high - low using Nat.strong_induction_on generalizing low high st t with
  | h gap ih =>
    rw [search] at h
    by_cases hadjacent : 1 < high - low
    · rw [if_pos hadjacent] at h
      rcases runs_bind_iff.mp h with ⟨served, t₁, t₂, rfl, h₁, h₂⟩ | ⟨e, h₁, -⟩
      · have hread := runs_read_length h₁
        rw [List.length_append]
        by_cases hmiddle : (served.1.timestamp : Int) < boundary
        · simp only [hmiddle, if_true] at h₂
          have hrest := ih _ (by omega) h₂ rfl
          have hhalf := clog_halves gap (high - (low + (high - low) / 2)) (by omega)
            (by omega)
          omega
        · simp only [hmiddle, if_false] at h₂
          have hrest := ih _ (by omega) h₂ rfl
          have hhalf := clog_halves gap (low + (high - low) / 2 - low) (by omega)
            (by omega)
          omega
      · have hread := runs_read_length h₁
        have hhalf := clog_halves gap 1 (by omega) (by omega)
        omega
    · rw [if_neg hadjacent] at h
      obtain ⟨rfl, -⟩ := runs_ret_iff.mp h
      exact Nat.zero_le _

/-! ## The contract -/

/-- The epoch seconds of the midnight after a date. -/
def utcMidnightAfter (snapshotDate : Nat) : Int := ((snapshotDate : Int) + 1 - epochDate) * 86400

theorem utcDayEndTimestamp_eq_ok_iff {snapshotDate : Nat} {boundary : Int} :
    utcDayEndTimestamp snapshotDate = .ok boundary ↔
      snapshotDate < lastDate ∧ boundary = utcMidnightAfter snapshotDate := by
  simp only [utcDayEndTimestamp, except_bind_eq_ok_iff, check_eq_ok_iff, decide_eq_true_eq,
    except_pure_eq_ok_iff, utcMidnightAfter]
  constructor
  · rintro ⟨-, hday, rfl⟩
    exact ⟨hday, rfl⟩
  · rintro ⟨hday, rfl⟩
    exact ⟨(), hday, rfl⟩

/-- Served consistently, a date resolves to the last block before its midnight or raises for a reason
of the chain; however it is served, what is returned is proven; and the search ends. -/
theorem resolve_contract (resolver : AnchorResolver) (snapshotDate : Nat) :
    (snapshotDate < lastDate → ∀ view : ChainView, ∀ t r,
      Runs (resolver.resolve snapshotDate) t r → (∀ x ∈ t, view.Answers x) →
        Resolves view resolver (utcMidnightAfter snapshotDate) r) ∧
    (∀ t resolved, Runs (resolver.resolve snapshotDate) t (.ok resolved) →
      BoundaryProof resolved (utcMidnightAfter snapshotDate)) ∧
    (∀ oracle : List (Sigma RpcReply) → (req : RpcRequest) → RpcReply req,
      ∃ t r, Runs (resolver.resolve snapshotDate) t r ∧
        ∀ earlier x later, t = earlier ++ x :: later → x.2 = oracle earlier x.1) ∧
    ∀ boundary low high st t r, Runs (search boundary low high st) t r →
      t.length ≤ Nat.clog 2 (high - low) := by
  refine ⟨fun hday view t r hrun ht => ?_, fun t resolved hrun => ?_, fun oracle => ?_, ?_⟩
  · exact (safe_resolve view resolver (utcDayEndTimestamp_eq_ok_iff.mpr ⟨hday, rfl⟩)).runs hrun ht
  · obtain ⟨boundary, hboundary, hproof⟩ :=
      Safe.runs (A := fun _ => True) (returns_resolve resolver snapshotDate) hrun fun _ _ => trivial
    obtain ⟨-, rfl⟩ := utcDayEndTimestamp_eq_ok_iff.mp hboundary
    exact hproof
  · obtain ⟨t, r, hrun, ht⟩ := exists_run_of_oracle oracle (resolver.resolve snapshotDate) []
    refine ⟨t, r, hrun, fun earlier x later hsplit => ?_⟩
    simpa using ht earlier x later hsplit
  · intro boundary low high st t r hrun
    exact runs_search_length hrun

/-- Three blocks: the first day of the epoch ends with the second. -/
def sampleBlock (n : Nat) : BlockRef :=
  ⟨n, hexText (List.replicate 64 (n + 1).digitChar), hexText (List.replicate 64 n.digitChar),
    86399 * min n 1 + (n - 1)⟩

def sampleView : ChainView where
  height := 2
  block := sampleBlock
  lookup parameter :=
    if parameter = "latest" ∨ parameter = "finalized" then some 2
    else (List.range 3).find? fun n => hex n = parameter
  number_eq _ := rfl
  parent_eq _ := rfl
  monotone m n hmn _ := by
    simp only [sampleBlock]
    omega
  lookup_le parameter n hn := by
    by_cases htag : parameter = "latest" ∨ parameter = "finalized"
    · rw [if_pos htag] at hn
      exact (Option.some.inj hn).symm.le
    · rw [if_neg htag] at hn
      have := List.mem_range.mp (List.mem_of_find?_eq_some hn)
      omega
  lookup_latest := rfl
  lookup_hex n hn := by
    interval_cases n <;> decide

def sampleResolver : AnchorResolver := ⟨"finalized", 64, by decide, by decide⟩

/-- The provider of the sample: the fields of the block a parameter refers to. -/
def sampleBlocks (req : RpcRequest) : RpcReply req :=
  match req.params with
  | .arr [.str parameter, _] =>
    match sampleView.lookup parameter with
    | some n => .ok (.obj [("number", .str (hex n)), ("timestamp", .str (hex (sampleBlock n).timestamp)),
        ("hash", .str (sampleBlock n).blockHash), ("parentHash", .str (sampleBlock n).parentHash)],
        ⟨"fingerprint"⟩)
    | none => .ok (.null, ⟨"fingerprint"⟩)
  | _ => .error (.failure "RpcResponseError" "")

theorem sampleBlocks_answers (req : RpcRequest) : sampleView.Answers ⟨req, sampleBlocks req⟩ := by
  rintro parameter rfl
  have hknown : ∀ n, sampleView.lookup parameter = some n → n ≤ 2 :=
    fun n hn => sampleView.lookup_le parameter n hn
  simp only [sampleBlocks, getBlock]
  cases hlookup : sampleView.lookup parameter with
  | none => exact .inl ⟨_, rfl⟩
  | some n =>
    have hn := hknown n hlookup
    have hhash : ∀ m ≤ 3, isHash (hexText (List.replicate 64 m.digitChar)) = true ∧
        (hexText (List.replicate 64 m.digitChar)).toLower
          = hexText (List.replicate 64 m.digitChar) := by
      intro m hm
      have hhex : (List.replicate 64 m.digitChar).all isLowerHexDigit = true := by
        interval_cases m <;> decide
      exact ⟨isHash_hexText (by simp) hhex, toLower_hexText hhex⟩
    obtain ⟨hown, hownLower⟩ := hhash (n + 1) (by omega)
    obtain ⟨hparent, hparentLower⟩ := hhash n (by omega)
    exact ⟨_, _, rfl, _, _, _, _, rfl, isHexQuantity_hex _, hexValue_hex _, rfl,
      isHexQuantity_hex _, hexValue_hex _, rfl, hown, hownLower, rfl, hparent, hparentLower⟩

/-- The resolution of the first day of the epoch, run to its end. -/
theorem resolve_contract_sample :
    (∀ x ∈ traceOf sampleBlocks (sampleResolver.resolve epochDate), sampleView.Answers x) ∧
      Resolves sampleView sampleResolver (utcMidnightAfter epochDate)
        (answeredBy sampleBlocks (sampleResolver.resolve epochDate)) ∧
      (sampleBlock 2).timestamp = utcMidnightAfter epochDate := by
  have hanswers : ∀ x ∈ traceOf sampleBlocks (sampleResolver.resolve epochDate),
      sampleView.Answers x := by
    intro x hx
    obtain ⟨req, reply⟩ := x
    obtain rfl : reply = sampleBlocks req := answer_of_mem_traceOf hx
    exact sampleBlocks_answers req
  refine ⟨hanswers, ?_, by decide⟩
  exact (resolve_contract sampleResolver epochDate).1 (by decide) sampleView _ _
    (runs_answeredBy _ _) hanswers

end RpcStateIndexer
