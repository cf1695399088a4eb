import RpcStateIndexer.Catalog.Enumerate

/-!
# What a scan of the logs reads

The chain is its logs in block order, the deployment of each contract and the answers of its calls.  An
RPC answer that is not an error is exact; any call may fail.
-/

namespace RpcStateIndexer

open Reasoning Program

namespace CatalogEnumeration

/-! ## The chain -/

/-- A contract logs nothing before its deployment. -/
structure PoolChain where
  logs : List EventLog
  deployed : String → Nat
  call : String → List UInt8 → Int → Option (List UInt8)
  sorted : logs.Pairwise fun a b => a.blockNumber ≤ b.blockNumber
  deployed_le : ∀ log ∈ logs, deployed log.address ≤ log.blockNumber

/-- The log has the emitter and, where one is asked for, the first topic. -/
def EventLog.matches (address : String) (topic0 : Option String) (log : EventLog) : Bool :=
  log.address = address && topic0.all fun topic => log.topics.head? = some topic

theorem EventLog.address_of_matches {address : String} {topic0 : Option String} {log : EventLog}
    (h : log.matches address topic0 = true) : log.address = address := by
  simp only [EventLog.matches, Bool.and_eq_true, decide_eq_true_eq] at h
  exact h.1

namespace PoolChain

/-- The matching logs of the blocks from `lo` to `hi`. -/
def window (chain : PoolChain) (address : String) (topic0 : Option String) (lo hi : Int) : List EventLog :=
  chain.logs.filter fun log => log.matches address topic0 && lo ≤ log.blockNumber && log.blockNumber ≤ hi

/-- An answer that is not an error is what the chain says. -/
def Exact (chain : PoolChain) : Sigma CatalogAnswer → Prop
  | ⟨.getLogs address topic0 lo hi, answer⟩ =>
    ∀ logs : List EventLog, answer = .ok logs → logs = chain.window address topic0 lo hi
  | ⟨.getCode address block, answer⟩ =>
    ∀ code : String, answer = .ok code → (code ∉ noCode ↔ (chain.deployed address : Int) ≤ block)
  | ⟨.ethCall contract data block, answer⟩ =>
    ∀ returned : List UInt8, answer = .ok returned → chain.call contract data block = some returned
  | _ => True

variable {chain : PoolChain} {address : String} {topic0 : Option String}

theorem mem_window {lo hi : Int} {log : EventLog} : log ∈ chain.window address topic0 lo hi ↔
    log ∈ chain.logs ∧ log.matches address topic0 = true ∧ lo ≤ log.blockNumber ∧ log.blockNumber ≤ hi := by
  simp [window, and_assoc]

theorem window_eq_nil {lo hi : Int} (h : hi < lo) : chain.window address topic0 lo hi = [] := by
  rw [List.eq_nil_iff_forall_not_mem]
  intro log hlog
  obtain ⟨-, -, hlo, hhi⟩ := mem_window.mp hlog
  omega

/-- In a list in ascending order the items up to a bound come before the others. -/
theorem filter_append_filter {α : Type} {key : α → Int} {l : List α} (hsorted : l.Pairwise (key · ≤ key ·))
    (p : α → Bool) (mid : Int) :
    (l.filter fun a => p a && key a ≤ mid) ++ (l.filter fun a => p a && mid < key a) = l.filter p := by
  induction l with
  | nil => rfl
  | cons a l ih =>
    obtain ⟨hhead, htail⟩ := List.pairwise_cons.mp hsorted
    have hrest := ih htail
    by_cases hle : key a ≤ mid
    · have hnot : ¬ mid < key a := by omega
      cases hp : p a <;> simp [hp, hle, hnot, ← hrest]
    · -- the bound lies before the whole list
      have hnone : (l.filter fun a => p a && key a ≤ mid) = [] := by
        rw [List.filter_eq_nil_iff]
        intro b hb
        have := hhead b hb
        simp only [Bool.and_eq_true, decide_eq_true_eq, not_and]
        omega
      have hlt : mid < key a := by omega
      rw [hnone, List.nil_append] at hrest
      cases hp : p a <;> simp [hp, hle, hlt, hnone, hrest]

/-- A window is the windows of its parts, one after the other. -/
theorem window_append {lo mid hi : Int} (hlo : lo ≤ mid + 1) (hhi : mid ≤ hi) :
    chain.window address topic0 lo mid ++ chain.window address topic0 (mid + 1) hi =
      chain.window address topic0 lo hi := by
  have hsorted : chain.logs.Pairwise fun a b => ((a.blockNumber : Int) ≤ b.blockNumber) :=
    chain.sorted.imp fun hab => Int.ofNat_le.mpr hab
  have hsplit := filter_append_filter hsorted
    (fun log => log.matches address topic0 && lo ≤ log.blockNumber && log.blockNumber ≤ hi) mid
  refine Eq.trans ?_ hsplit
  unfold window
  congr 1
  · apply List.filter_congr
    intro log _
    by_cases hmid : (log.blockNumber : Int) ≤ mid
    · have hle : (log.blockNumber : Int) ≤ hi := by omega
      simp [hmid, hle]
    · simp [hmid]
  · apply List.filter_congr
    intro log _
    by_cases hmid : mid < (log.blockNumber : Int)
    · have hle : lo ≤ (log.blockNumber : Int) := by omega
      have hsucc : mid + 1 ≤ (log.blockNumber : Int) := by omega
      simp [hmid, hle, hsucc]
    · have hsucc : ¬ mid + 1 ≤ (log.blockNumber : Int) := by omega
      simp [hmid, hsucc]

end PoolChain

/-- An operation whose answer is raised when it is an error. -/
theorem runs_ask_bind {α : Type} {op : CatalogOp} {f : CatalogReply op → CatalogProgram α}
    {t : List (Sigma CatalogAnswer)} {r : Except EnumerationFault α} (h : Runs (ask op >>= f) t r) :
    (∃ fault, t = [⟨op, .error fault⟩] ∧ r = .error (.raised fault)) ∨
      ∃ reply rest, t = ⟨op, .ok reply⟩ :: rest ∧ Runs (f reply) rest r := by
  obtain ⟨answer, rest, rfl, hrest⟩ := runs_call_iff.mp h
  cases answer with
  | ok reply => exact .inr ⟨reply, rest, rfl, hrest⟩
  | error fault =>
    obtain ⟨rfl, rfl⟩ := runs_raise_iff.mp hrest
    exact .inl ⟨fault, rfl, rfl⟩

theorem runs_ask_bind_ok {α : Type} {op : CatalogOp} {f : CatalogReply op → CatalogProgram α}
    {t : List (Sigma CatalogAnswer)} {a : α} (h : Runs (ask op >>= f) t (.ok a)) :
    ∃ reply rest, t = ⟨op, .ok reply⟩ :: rest ∧ Runs (f reply) rest (.ok a) := by
  rcases runs_ask_bind h with ⟨fault, -, hfail⟩ | hreply
  · exact absurd hfail.symm error_ne_ok
  · exact hreply

/-! ## Runs of the generator -/

section ForLogs

variable {σ : Type} {address topic0 : String} {body : σ → EventLog → CatalogProgram σ} {lo hi : Int}
  {st st' : σ} {t : List (Sigma CatalogAnswer)}

/-- The last block of the chunk that starts at `lo`. -/
def chunkEnd (lo hi : Int) : Int := min (lo + maxRange - 1) hi

theorem chunkEnd_bounds {lo hi : Int} (hle : lo ≤ hi) : lo ≤ chunkEnd lo hi ∧ chunkEnd lo hi ≤ hi := by
  simp only [chunkEnd, maxRange]
  omega

/-- What holds of a window when it holds of what is left after its first chunk, and of the halves that the
chunk is split into, holds of every window. -/
@[elab_as_elim]
theorem window_induction {motive : Int → Int → Prop}
    (chunk : ∀ lo hi, lo ≤ hi → motive (chunkEnd lo hi + 1) hi →
      (lo < chunkEnd lo hi → motive lo ((lo + chunkEnd lo hi) / 2)) →
      (lo < chunkEnd lo hi → motive ((lo + chunkEnd lo hi) / 2 + 1) hi) → motive lo hi)
    (empty : ∀ lo hi, hi < lo → motive lo hi) (lo hi : Int) : motive lo hi := by
  have hsize : ∀ n lo hi, (hi + 1 - lo).toNat = n → motive lo hi := by
    intro n
    induction n using Nat.strongRecOn with
    | ind n ih =>
      intro lo hi hn
      by_cases hle : lo ≤ hi
      · have hstop := chunkEnd_bounds hle
        apply chunk lo hi hle
        · exact ih _ (by omega) _ _ rfl
        · exact fun hlt => ih _ (by omega) _ _ rfl
        · exact fun hlt => ih _ (by omega) _ _ rfl
      · exact empty lo hi (by omega)
  exact hsize _ lo hi rfl

/-- How a pass goes that returns: the chunk's logs and the chunks after it, or the chunk's halves, the
second of which goes on to the end of the window. -/
inductive Pass (address topic0 : String) (body : σ → EventLog → CatalogProgram σ) (lo hi : Int) (st st' : σ) :
    List (Sigma CatalogAnswer) → Prop
  | chunk {logs : List EventLog} {mid : σ} {t₁ t₂ : List (Sigma CatalogAnswer)}
      (hbody : Runs (logs.foldlM body st) t₁ (.ok mid))
      (hrest : Runs (forLogs address topic0 body (chunkEnd lo hi + 1) hi mid) t₂ (.ok st')) :
      Pass address topic0 body lo hi st st'
        (⟨.getLogs address (some topic0) lo (chunkEnd lo hi), .ok logs⟩ :: (t₁ ++ t₂))
  | halves {fault : CallFault} {mid : σ} {t₁ t₂ : List (Sigma CatalogAnswer)}
      (hcap : fault.isResultCap = true) (hlt : lo < chunkEnd lo hi)
      (hfirst : Runs (forLogs address topic0 body lo ((lo + chunkEnd lo hi) / 2) st) t₁ (.ok mid))
      (hsecond : Runs (forLogs address topic0 body ((lo + chunkEnd lo hi) / 2 + 1) hi mid) t₂ (.ok st')) :
      Pass address topic0 body lo hi st st'
        (⟨.getLogs address (some topic0) lo (chunkEnd lo hi), .error fault⟩ :: (t₁ ++ t₂))

theorem pass_of_runs (hle : lo ≤ hi) (h : Runs (forLogs address topic0 body lo hi st) t (.ok st')) :
    Pass address topic0 body lo hi st st' t := by
  rw [forLogs, if_pos hle] at h
  obtain ⟨answer, rest, rfl, hrest⟩ := runs_call_iff.mp h
  cases answer with
  | ok logs =>
    obtain ⟨mid, t₁, t₂, rfl, hbody, hnext⟩ := runs_bind_ok_iff.mp hrest
    exact .chunk hbody hnext
  | error fault =>
    dsimp only at hrest
    split at hrest
    · rename_i hsplit
      obtain ⟨mid, t₁, t₂, rfl, hfirst, hsecond⟩ := runs_bind_ok_iff.mp hrest
      exact .halves hsplit.1 hsplit.2 hfirst hsecond
    · exact absurd hrest not_runs_raise_ok

theorem runs_forLogs_of_lt (hlt : hi < lo) (h : Runs (forLogs address topic0 body lo hi st) t (.ok st')) :
    t = [] ∧ st' = st := by
  rw [forLogs, if_neg (by omega)] at h
  obtain ⟨rfl, hst⟩ := runs_ret_iff.mp h
  exact ⟨rfl, Except.ok.inj hst⟩

/-- A loop that returns has run its body on each matching log of the window once, in block order. -/
theorem exists_runs_foldlM {chain : PoolChain} (h : Runs (forLogs address topic0 body lo hi st) t (.ok st'))
    (hexact : ∀ x ∈ t, chain.Exact x) : ∃ t', t'.Sublist t ∧
      Runs ((chain.window address (some topic0) lo hi).foldlM body st) t' (.ok st') := by
  induction lo, hi using window_induction generalizing st t st' with
  | chunk lo hi hle ihnext ihfirst ihsecond =>
    have hstop := chunkEnd_bounds hle
    cases pass_of_runs hle h with
    | @chunk logs mid t₁ t₂ hbody hrest =>
      obtain ⟨hrequest, hlater⟩ := List.forall_mem_cons.mp hexact
      obtain ⟨t', hsub, hrun⟩ := ihnext hrest fun x hx => hlater x (List.mem_append_right _ hx)
      refine ⟨t₁ ++ t', ((List.Sublist.refl t₁).append hsub).cons _, ?_⟩
      obtain rfl : logs = _ := hrequest logs rfl
      rw [← PoolChain.window_append (by omega : lo ≤ chunkEnd lo hi + 1) hstop.2, List.foldlM_append]
      exact runs_bind_ok_iff.mpr ⟨mid, t₁, t', rfl, hbody, hrun⟩
    | @halves fault mid t₁ t₂ hcap hlt hfirst hsecond =>
      have hlater := (List.forall_mem_cons.mp hexact).2
      obtain ⟨u₁, hsub₁, hrun₁⟩ := ihfirst hlt hfirst
        fun x hx => hlater x (List.mem_append_left _ hx)
      obtain ⟨u₂, hsub₂, hrun₂⟩ := ihsecond hlt hsecond
        fun x hx => hlater x (List.mem_append_right _ hx)
      refine ⟨u₁ ++ u₂, (hsub₁.append hsub₂).cons _, ?_⟩
      have hsplit : chain.window address (some topic0) lo ((lo + chunkEnd lo hi) / 2) ++
          chain.window address (some topic0) ((lo + chunkEnd lo hi) / 2 + 1) hi =
            chain.window address (some topic0) lo hi := PoolChain.window_append (by omega) (by omega)
      rw [← hsplit, List.foldlM_append]
      exact runs_bind_ok_iff.mpr ⟨mid, u₁, u₂, rfl, hrun₁, hrun₂⟩
  | empty lo hi hlt =>
    obtain ⟨rfl, rfl⟩ := runs_forLogs_of_lt hlt h
    rw [PoolChain.window_eq_nil hlt]
    exact ⟨[], .refl _, .ret _⟩

/-- The log is in an answer to a request for its emitter and topic. -/
def Read (address : String) (topic0 : Option String) (log : EventLog) (t : List (Sigma CatalogAnswer)) :
    Prop :=
  ∃ lo hi, ∃ logs : List EventLog, ⟨.getLogs address topic0 lo hi, .ok logs⟩ ∈ t ∧ log ∈ logs

theorem Read.mono {topic0 : Option String} {log : EventLog} {t' : List (Sigma CatalogAnswer)}
    (h : Read address topic0 log t) (hsub : ∀ x ∈ t, x ∈ t') : Read address topic0 log t' := by
  obtain ⟨lo, hi, logs, hmem, hlog⟩ := h
  exact ⟨lo, hi, logs, hsub _ hmem, hlog⟩

/-- A loop that returns has read every matching log of the window. -/
theorem read_of_runs {chain : PoolChain} (h : Runs (forLogs address topic0 body lo hi st) t (.ok st'))
    (hexact : ∀ x ∈ t, chain.Exact x) {log : EventLog}
    (hlog : log ∈ chain.window address (some topic0) lo hi) : Read address (some topic0) log t := by
  induction lo, hi using window_induction generalizing st t st' with
  | chunk lo hi hle ihnext ihfirst ihsecond =>
    have hstop := chunkEnd_bounds hle
    cases pass_of_runs hle h with
    | @chunk logs mid t₁ t₂ hbody hrest =>
      obtain ⟨hrequest, hlater⟩ := List.forall_mem_cons.mp hexact
      rw [← PoolChain.window_append (by omega : lo ≤ chunkEnd lo hi + 1) hstop.2] at hlog
      rcases List.mem_append.mp hlog with hlog | hlog
      · obtain rfl : logs = _ := hrequest logs rfl
        exact ⟨lo, chunkEnd lo hi, _, List.mem_cons_self, hlog⟩
      · refine (ihnext hrest (fun x hx => hlater x (List.mem_append_right _ hx)) hlog).mono ?_
        exact fun x hx => List.mem_cons_of_mem _ (List.mem_append_right _ hx)
    | @halves fault mid t₁ t₂ hcap hlt hfirst hsecond =>
      have hlater := (List.forall_mem_cons.mp hexact).2
      have hsplit : chain.window address (some topic0) lo ((lo + chunkEnd lo hi) / 2) ++
          chain.window address (some topic0) ((lo + chunkEnd lo hi) / 2 + 1) hi =
            chain.window address (some topic0) lo hi := PoolChain.window_append (by omega) (by omega)
      rw [← hsplit] at hlog
      rcases List.mem_append.mp hlog with hlog | hlog
      · refine (ihfirst hlt hfirst (fun x hx => hlater x (List.mem_append_left _ hx)) hlog).mono ?_
        exact fun x hx => List.mem_cons_of_mem _ (List.mem_append_left _ hx)
      · refine (ihsecond hlt hsecond
          (fun x hx => hlater x (List.mem_append_right _ hx)) hlog).mono ?_
        exact fun x hx => List.mem_cons_of_mem _ (List.mem_append_right _ hx)
  | empty lo hi hlt =>
    rw [PoolChain.window_eq_nil hlt] at hlog
    cases hlog

/-- A loop whose body calls nothing ends with the fold over the matching logs. -/
theorem foldlM_of_runs {chain : PoolChain} {step : σ → EventLog → Except EnumerationFault σ}
    (h : Runs (foldLogs address topic0 step lo hi st) t (.ok st')) (hexact : ∀ x ∈ t, chain.Exact x) :
    (chain.window address (some topic0) lo hi).foldlM step st = .ok st' := by
  obtain ⟨t', -, hrun⟩ := exists_runs_foldlM h hexact
  exact (runs_foldlM_ofExcept_iff.mp hrun).2.symm

/-- `scan_logs` yields each matching log of the window once, in block order, or raises, whatever ranges the
provider rejects. -/
theorem scanLogs_exact {chain : PoolChain} {r : Except EnumerationFault (List EventLog)}
    (h : Runs (scanLogs address topic0 lo hi) t r) (hexact : ∀ x ∈ t, chain.Exact x) :
    r = .ok (chain.window address (some topic0) lo hi) ∨ ∃ fault, r = .error fault := by
  cases r with
  | error fault => exact .inr ⟨fault, rfl⟩
  | ok logs =>
    have hfold : ∀ (l acc : List EventLog),
        l.foldlM (fun acc log => (.ok (acc ++ [log]) : Except EnumerationFault _)) acc = .ok (acc ++ l) := by
      intro l
      induction l with
      | nil => exact fun acc => congrArg Except.ok (List.append_nil acc).symm
      | cons log l ih =>
        intro acc
        rw [List.foldlM_cons, except_ok_bind, ih, List.append_assoc, List.singleton_append]
    have hrun : Runs (foldLogs address topic0 (fun acc log => .ok (acc ++ [log])) lo hi []) t (.ok logs) := h
    have hlogs := foldlM_of_runs hrun hexact
    rw [hfold, List.nil_append] at hlogs
    exact .inl (congrArg Except.ok (Except.ok.inj hlogs).symm)

end ForLogs

/-! ## The deployment block -/

section Deployment

variable {chain : PoolChain} {address : String} {lo hi found block : Int} {t : List (Sigma CatalogAnswer)}

/-- No block below `lo` has code.  While none has been seen with code the search is for the first one up to
`hi`; after that it is for the first one up to `found`. -/
theorem block_of_search (h : Runs (searchDeployBlock address lo hi found) t (.ok block))
    (hexact : ∀ x ∈ t, chain.Exact x) (hlo : lo ≤ chain.deployed address) :
    (found = hi → block = min (chain.deployed address : Int) hi) ∧
      (found = hi + 1 → chain.deployed address ≤ found → block = chain.deployed address) := by
  induction lo, hi, found using searchDeployBlock.induct generalizing t with
  | case1 lo hi found hle mid ihlower =>
    rename_i ihupper
    rw [searchDeployBlock, if_pos hle] at h
    obtain ⟨answer, rest, rfl, hrest⟩ := runs_call_iff.mp h
    obtain ⟨hcode, hlater⟩ := List.forall_mem_cons.mp hexact
    cases answer with
    | error fault => exact absurd hrest not_runs_raise_ok
    | ok code =>
      have hcode := hcode code rfl
      dsimp only at hrest
      split at hrest
      · rename_i hhas
        have hdeployed := hcode.mp hhas
        obtain ⟨-, hfound⟩ := ihlower hrest hlater hlo
        have hblock := hfound (by omega) hdeployed
        constructor
        · intro _
          omega
        · intro _ _
          exact hblock
      · rename_i hnone
        have hlater' := mt hcode.mpr hnone
        exact ihupper hrest hlater (by omega)
  | case2 lo hi found hgt =>
    rw [searchDeployBlock, if_neg hgt] at h
    obtain rfl := Except.ok.inj (runs_ret_iff.mp h).2
    constructor
    · intro hfound
      omega
    · intro hfound hdeployed
      omega

theorem findDeployBlock_eq (h : Runs (findDeployBlock address hi) t (.ok block))
    (hexact : ∀ x ∈ t, chain.Exact x) : block = min (chain.deployed address : Int) hi :=
  (block_of_search h hexact (Int.natCast_nonneg _)).1 rfl

/-- Where a scan starts: at the explicit block, or at the deployment. -/
def lowOf (chain : PoolChain) (start : Option Int) (address : String) (hi : Int) : Int :=
  start.getD (min (chain.deployed address : Int) hi)

theorem lowBlock_eq {start : Option Int} (h : Runs (lowBlock start address hi) t (.ok block))
    (hexact : ∀ x ∈ t, chain.Exact x) : block = lowOf chain start address hi := by
  cases start with
  | some start => exact Except.ok.inj (runs_ret_iff.mp h).2
  | none => exact findDeployBlock_eq h hexact

end Deployment

end CatalogEnumeration

end RpcStateIndexer
