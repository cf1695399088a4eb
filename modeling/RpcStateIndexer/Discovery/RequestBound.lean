import RpcStateIndexer.Discovery.ScannerCorrect

/-!
# How many requests a scan issues

The stack grows when a range is split, but its weight does not: a range of `n` blocks counts `2 * n - 1`, so
its halves together count one less.  Every request lowers the weight, whatever the provider answers.
-/

namespace RpcStateIndexer

open Reasoning Program

namespace StrictLogScanner

variable {s : StrictLogScanner} {f : LogFilter}

/-! ## The weight of the stack -/

/-- Ranges that abut weigh two for each block, less one for each range. -/
theorem weight_of_tiles {a b : Nat} {ranges : List BlockRange} (h : TilesRange a b ranges) (hle : a ≤ b) :
    weight ranges + ranges.length = 2 * (b - a) := by
  induction ranges generalizing a with
  | nil =>
    obtain rfl := Tiles.nil_iff.mp h
    show 0 + 0 = 2 * (a - a)
    omega
  | cons r ranges ih =>
    obtain ⟨rfl, hrest⟩ := Tiles.cons_iff.mp h
    have hsize : r.size = r.endExclusive - r.start := rfl
    have hpos := r.size_pos
    have hstop : r.endExclusive ≤ b := hrest.le fun r _ => r.nonempty
    have htail := ih hrest hstop
    rw [weight_cons, List.length_cons]
    omega

theorem weight_chunks (s : StrictLogScanner) {start stop : Nat} (h : start ≤ stop) :
    weight (s.chunks start stop) + (s.chunks start stop).length = 2 * (stop - start) :=
  weight_of_tiles (s.tiles_chunks start stop h) h

/-! ## The requests -/

/-- The loop issues at most as many requests as its stack weighs. -/
theorem length_le_weight {st : ScanState} {t : List (Sigma RpcReply)} {r : Except DiscoveryException ScanState}
    (hrun : Runs (s.scanLoop f st) t r) : t.length ≤ weight st.pending := by
  induction st using scanLoop.induct s f generalizing t with
  | case1 completed logs =>
    rw [scanLoop] at hrun
    obtain ⟨rfl, -⟩ := runs_ret_iff.mp hrun
    exact Nat.zero_le _
  | case2 range pending completed logs ih =>
    rw [scanLoop] at hrun
    obtain ⟨reply, rest, rfl, hrest⟩ := runs_call_iff.mp hrun
    rw [List.length_cons]
    split at hrest
    · -- the pass raised, so this request is the last
      obtain ⟨rfl, -⟩ := runs_raise_iff.mp hrest
      have hpos := range.size_pos
      show 0 + 1 ≤ weight (range :: pending)
      rw [weight_cons]
      omega
    · next st' hpass =>
      have hlower := weight_afterReply hpass
      have hlength := ih reply st' hpass hrest
      exact Nat.succ_le_of_lt (hlength.trans_lt hlower)

/-- What a scan asks, however it ends. -/
theorem requests_of_runs {startBlock endBlock : Nat} {t : List (Sigma RpcReply)}
    {r : Except DiscoveryException DiscoveryScan} (hrun : Runs (s.scanFilter f startBlock endBlock) t r) :
    t.length + (s.chunks startBlock endBlock).length ≤ 2 * (endBlock - startBlock) ∧
      ∀ x ∈ t, AsksInside f startBlock endBlock x.1 := by
  refine ⟨?_, fun x hx => (s.asks_scanFilter f startBlock endBlock).runs hrun x hx⟩
  unfold scanFilter BlockRange.make at hrun
  split at hrun
  · next hlt =>
    have hscan : Runs (s.scanLoop f (s.initialState ⟨startBlock, endBlock, hlt⟩) >>= fun st =>
        ofExcept (finishScan ⟨startBlock, endBlock, hlt⟩ st)) t r := hrun
    have hchunks := s.weight_chunks hlt.le
    -- what comes after the loop asks nothing
    rcases runs_bind_iff.mp hscan with ⟨st, t₁, t₂, rfl, hloop, hfinish⟩ | ⟨e, hloop, -⟩
    · obtain ⟨rfl, -⟩ := runs_ofExcept_iff.mp hfinish
      have hlength : t₁.length ≤ weight (s.chunks startBlock endBlock) := length_le_weight hloop
      rw [List.append_nil]
      omega
    · have hlength : t.length ≤ weight (s.chunks startBlock endBlock) := length_le_weight hloop
      omega
  · next hnot =>
    obtain ⟨rfl, -⟩ := runs_raise_iff.mp hrun
    rw [chunks, dif_neg hnot]
    show 0 + 0 ≤ 2 * (endBlock - startBlock)
    omega

/-- Against every provider a scan of `n` blocks in `c` chunks ends after at most `2 * n - c` requests, each
of them for a range of blocks inside the requested one. -/
theorem scanFilter_ends (s : StrictLogScanner) (f : LogFilter) (startBlock endBlock : Nat)
    (oracle : List (Sigma RpcReply) → (request : RpcRequest) → RpcReply request) :
    ∃ t r, Runs (s.scanFilter f startBlock endBlock) t r ∧
      (∀ earlier x later, t = earlier ++ x :: later → x.2 = oracle earlier x.1) ∧
      t.length ≤ 2 * (endBlock - startBlock) - (s.chunks startBlock endBlock).length ∧
      ∀ x ∈ t, ∃ range : BlockRange, x.1 = getLogs f range ∧ range.start < range.endExclusive ∧
        startBlock ≤ range.start ∧ range.endExclusive ≤ endBlock := by
  obtain ⟨t, r, hrun, hanswers⟩ := exists_run_of_oracle oracle (s.scanFilter f startBlock endBlock) []
  obtain ⟨hlength, hinside⟩ := requests_of_runs hrun
  refine ⟨t, r, hrun, hanswers, by omega, fun x hx => ?_⟩
  obtain ⟨range, hrequest, hlo, hhi⟩ := hinside x hx
  exact ⟨range, hrequest, range.nonempty, hlo, hhi⟩

end StrictLogScanner

end RpcStateIndexer
