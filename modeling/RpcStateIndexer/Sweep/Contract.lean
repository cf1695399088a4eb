import RpcStateIndexer.Sweep.HonestStore
import RpcStateIndexer.Sweep.Requests

/-!
# The contract of the sweep service

One statement over every sequence of `advance` calls, and a call that satisfies it.
-/

namespace RpcStateIndexer

open Reasoning Program

/-- In every reachable store a completed range is backed by the wallet's logs in it.  From there, a
call of `advance` that returns leaves every block from the start to the anchor covered for every
wallet at every configured position; and wherever it stops, no request of it named a wallet over a
block that its reading of the wallet's coverage had found completed. -/
theorem sweep_sound {chains : Nat → Set NormalizedLog} {w : SweepStore}
    (h : SweepReachable chains w) :
    (∀ row ∈ w.ranges, row.status = .completed → ∀ l ∈ chains row.chainId,
      row.Contains l.blockNumber →
        l.topics[row.topicPosition]? = some (walletTopic row.walletAddress) →
          w.Attributes row.chainId row.walletAddress row.topicPosition l) ∧
    ∀ (svc : SweepService) (sweep : SweepConfig) (wallets : List String) (anchorBlock : Nat)
      (anchorHash : String) (p : SweepProgram Unit) (w' : SweepStore) (t : List (Sigma SweepAns)),
      (∀ wallet ∈ wallets, isAddress wallet = true) →
      Reaches (recorded (sweepEnv svc (chains svc.chainId)))
        (svc.advance sweep wallets anchorBlock anchorHash, w, []) (p, w', t) →
      (p = .ret () → ∀ position ∈ sweep.topicPositions, ∀ wallet ∈ wallets, ∀ block,
        sweep.startBlock ≤ block → block ≤ anchorBlock →
          w'.Covers svc.chainId wallet position block) ∧
      ∀ request reply, ⟨.rpc request, reply⟩ ∈ t →
        ∃ position ∈ sweep.topicPositions, svc.ScansUncovered position t request := by
  refine ⟨h.backed, ?_⟩
  intro svc sweep wallets anchorBlock anchorHash p w' t hwallets hrun
  constructor
  · rintro rfl position hposition wallet hwallet block hlo hhi
    have hreturn := SweepService.returns_advance (SweepStore.ScansAgree.kept svc
      (chains svc.chainId)) sweep hwallets anchorBlock anchorHash h.scansAgree
    obtain ⟨hagree, hall⟩ := Safe.returns hreturn h.scansAgree hrun.world
    exact (hall position hposition wallet hwallet block hlo hhi).covers hagree
  · exact (svc.trail_of_advance sweep hwallets anchorBlock anchorHash hrun.record).requests

/-! ## A sweep -/

theorem senderPosition_nonempty : [1] ≠ [] := List.cons_ne_nil 1 []

theorem senderPosition_ok : ∀ position ∈ [1], position = 1 ∨ position = 2 ∨ position = 3 :=
  fun _ h => .inl (List.mem_singleton.mp h)

theorem senderPosition_unique : [1].Nodup := List.nodup_singleton 1

theorem sampleCheckpoint_pos : 1 ≤ 3 := Nat.le_add_left 1 2

/-- One position of one wallet, from block 10 on in windows of three blocks. -/
def sampleSweep : SweepConfig where
  name := "treasury"
  topicPositions := [1]
  startBlock := 10
  checkpointBlocks := 3
  topicPositions_nonempty := senderPosition_nonempty
  topicPositions_ok := senderPosition_ok
  topicPositions_unique := senderPosition_unique
  checkpointBlocks_pos := sampleCheckpoint_pos

def sampleSweepService : SweepService := ⟨1, sampleScanner⟩

theorem sampleHolder_ok {digit : Char} (h : isLowerHexDigit digit = true) :
    isAddress (sampleHolder digit) = true :=
  isAddress_hexText (by simp) (by simp [h])

theorem walletTopic_sampleHolder {digit : Char} (h : isLowerHexDigit digit = true) :
    walletTopic (sampleHolder digit) = sampleHolderWord digit := by
  obtain ⟨body, -, -, hbody, hword⟩ := walletTopic_eq_hexText (sampleHolder_ok h)
  rw [hword, ← hexText_injective hbody]
  rfl

/-- The sender's log is attributed once the sweep has returned. -/
theorem sweep_sound_sample : ∃ w, SweepReachable (fun _ => {l | l ∈ [sampleLog]}) w ∧
    w.Attributes 1 (sampleHolder 'a') 1 sampleLog := by
  have haddress : ∀ wallet ∈ [sampleHolder 'a'], isAddress wallet = true := by
    simpa using sampleHolder_ok (by decide : isLowerHexDigit 'a' = true)
  have hempty : SweepStore.empty.RangesOk := by simp [SweepStore.RangesOk, SweepStore.empty]
  obtain ⟨w, hexec, -⟩ := sampleSweepService.exec_advance sample_serves sampleSweep
    (List.cons_ne_nil _ _) haddress (by decide : sampleSweep.startBlock ≤ 13) "0x" hempty
  have hrun := reaches_exec (honestSweep_allowed sampleSweepService 2 sample_serves.canonical)
    (sampleSweepService.advance sampleSweep [sampleHolder 'a'] 13 "0x") .empty
  rw [hexec] at hrun
  have hreach : SweepReachable (fun _ => {l | l ∈ [sampleLog]}) w :=
    .advance sampleSweepService sampleSweep _ 13 "0x" haddress .empty hrun
  refine ⟨w, hreach, ?_⟩
  -- block 11 is covered, so its log must be on file
  have hempty : SweepStore.empty.ScansAgree := by simp [SweepStore.ScansAgree, SweepStore.empty]
  have hreturn := SweepService.returns_advance (SweepStore.ScansAgree.kept sampleSweepService
    {l | l ∈ [sampleLog]}) sampleSweep haddress 13 "0x" hempty
  obtain ⟨-, hall⟩ := Safe.returns hreturn hempty hrun
  obtain ⟨row, hrow, ⟨hchain, hwallet, hposition⟩, hstatus, hin⟩ :=
    hall 1 (List.mem_singleton.mpr rfl) _ (List.mem_singleton.mpr rfl) 11 (by decide) (by decide)
  have hlog := (sweep_sound hreach).1 row hrow hstatus sampleLog (List.mem_singleton.mpr rfl) hin
  rw [hchain, hwallet, hposition, walletTopic_sampleHolder (by decide)] at hlog
  exact hlog rfl

end RpcStateIndexer
