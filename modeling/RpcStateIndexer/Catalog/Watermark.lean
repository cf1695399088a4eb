import RpcStateIndexer.Catalog.Provider

/-!
# What the watermark stands for

Every run without an upper bound saves one watermark, whichever sources it scanned and wherever it started.
The watermark stands for the scanned blocks of every source only where no run leaves a gap.
-/

namespace RpcStateIndexer

open Reasoning Program

namespace CatalogEnumeration

variable {keccak : String → List UInt8} {chain : PoolChain} {t : List (Sigma CatalogAnswer)}

/-! ## What a run asks before it writes -/

/-- The operation is an RPC call of a scan. -/
def CatalogOp.IsCall : CatalogOp → Prop
  | .getLogs _ _ _ _ => True
  | .getCode _ _ => True
  | .ethCall _ _ _ => True
  | _ => False

theorem asks_ask {op : CatalogOp} (h : op.IsCall) : Asks CatalogOp.IsCall (ask op) :=
  ⟨h, fun answer => .ofExcept (answer.mapError EnumerationFault.raised)⟩

theorem asks_forLogs {σ : Type} {address topic0 : String} {body : σ → EventLog → CatalogProgram σ}
    (hbody : ∀ st log, Asks CatalogOp.IsCall (body st log)) (lo hi : Int) (st : σ) :
    Asks CatalogOp.IsCall (forLogs address topic0 body lo hi st) := by
  induction lo, hi using window_induction generalizing st with
  | chunk lo hi hle ihnext ihfirst ihsecond =>
    rw [forLogs, if_pos hle]
    refine ⟨trivial, fun answer => ?_⟩
    cases answer with
    | ok logs => exact .bind (.foldlM (fun st log _ => hbody st log) st) fun next => ihnext next
    | error fault =>
      dsimp only
      split
      · rename_i hsplit
        exact .bind (ihfirst hsplit.2 st) fun next => ihsecond hsplit.2 next
      · trivial
  | empty lo hi hlt =>
    rw [forLogs, if_neg (by omega)]
    trivial

theorem asks_foldLogs {σ : Type} {address topic0 : String}
    (step : σ → EventLog → Except EnumerationFault σ) (lo hi : Int) (st : σ) :
    Asks CatalogOp.IsCall (foldLogs address topic0 step lo hi st) :=
  asks_forLogs (fun st log => .ofExcept (step st log)) lo hi st

theorem asks_searchDeployBlock (address : String) (lo hi found : Int) :
    Asks CatalogOp.IsCall (searchDeployBlock address lo hi found) := by
  induction lo, hi, found using searchDeployBlock.induct with
  | case1 lo hi found hle mid ihlower =>
    rename_i ihupper
    rw [searchDeployBlock, if_pos hle]
    refine ⟨trivial, fun answer => ?_⟩
    cases answer with
    | ok code =>
      dsimp only
      split
      · exact ihlower
      · exact ihupper
    | error fault => trivial
  | case2 lo hi found hgt =>
    rw [searchDeployBlock, if_neg hgt]
    trivial

theorem asks_lowBlock (start : Option Int) (address : String) (hi : Int) :
    Asks CatalogOp.IsCall (lowBlock start address hi) := by
  cases start with
  | some start => trivial
  | none => exact asks_searchDeployBlock address 0 hi hi

theorem asks_poolTokenInfo (pool : String) (block : Int) :
    Asks CatalogOp.IsCall (poolTokenInfo keccak pool block) := by
  unfold poolTokenInfo
  split
  · trivial
  · refine ⟨trivial, fun answer => ?_⟩
    cases answer <;> trivial

theorem asks_firstAccepted (block : Int) (logs : List EventLog) :
    Asks CatalogOp.IsCall (firstAccepted keccak block logs) := by
  induction logs with
  | nil => trivial
  | cons log logs ih =>
    unfold firstAccepted
    split
    · apply Asks.bind (asks_poolTokenInfo _ _)
      intro info
      cases info with
      | some pairs => trivial
      | none => exact ih
    · exact ih

theorem asks_resolveV3Topic (hi : Int) : Asks CatalogOp.IsCall (resolveV3Topic keccak hi) :=
  .bind (asks_searchDeployBlock _ _ _ _) fun _ =>
    .bind (asks_ask trivial) fun logs => asks_firstAccepted _ logs

theorem asks_addBalancerV3 (block : Int) (st : CatalogScan) (log : EventLog) :
    Asks CatalogOp.IsCall (addBalancerV3 keccak block st log) := by
  apply Asks.bind (.ofExcept _)
  intro topic
  apply Asks.bind (asks_poolTokenInfo _ _)
  intro info
  cases info <;> trivial

theorem asks_enumerateSource (start : Option Int) (hi : Int) (st : CatalogScan) (src : String) :
    Asks CatalogOp.IsCall (enumerateSource keccak start hi st src) := by
  unfold enumerateSource
  split_ifs
  · exact .bind (asks_lowBlock _ _ _) fun lo => asks_foldLogs _ lo hi st
  · exact .bind (asks_lowBlock _ _ _) fun lo => asks_foldLogs _ lo hi st
  · exact .bind (asks_lowBlock _ _ _) fun lo =>
      .bind (asks_foldLogs _ lo hi _) fun _ => .bind (asks_foldLogs _ lo hi _) fun _ => trivial
  · exact .bind (asks_resolveV3Topic hi) fun _ =>
      .bind (asks_lowBlock _ _ _) fun lo => asks_forLogs (asks_addBalancerV3 hi) lo hi st
  · trivial

theorem asks_tokenMetadata (block : Int) (token : String) :
    Asks CatalogOp.IsCall (tokenMetadata block token) := by
  refine ⟨trivial, fun answer => ?_⟩
  cases answer with
  | error fault => trivial
  | ok symRaw =>
    refine ⟨trivial, fun answer => ?_⟩
    cases answer <;> trivial

/-! ## The sources a run has scanned -/

/-- A loop over the logs from the low block on has read them. -/
theorem read_of_scan {σ : Type} {address topic0 : String} {body : σ → EventLog → CatalogProgram σ}
    {start : Option Int} {hi : Int} {st st' : σ}
    (h : Runs (lowBlock start address hi >>= fun lo => forLogs address topic0 body lo hi st) t (.ok st'))
    (hexact : ∀ x ∈ t, chain.Exact x) {log : EventLog}
    (hlog : log ∈ chain.window address (some topic0) (lowOf chain start address hi) hi) :
    Read address (some topic0) log t := by
  obtain ⟨lo, t₁, t₂, rfl, hlow, hscan⟩ := runs_bind_ok_iff.mp h
  obtain ⟨hexact₁, hexact₂⟩ := List.forall_mem_append.mp hexact
  obtain rfl := lowBlock_eq hlow hexact₁
  exact (read_of_runs hscan hexact₂ hlog).mono fun x hx => List.mem_append_right _ hx

/-- A scan of the source that returns has read its creation events from its low block on. -/
theorem read_of_enumerateSource {v3Topic : String} {start : Option Int} {hi : Int} {st st' : CatalogScan}
    (source : PoolSource) (h : Runs (enumerateSource keccak start hi st source.name) t (.ok st'))
    (hexact : ∀ x ∈ t, chain.Exact x) (hfirst : RegistersFirst chain keccak v3Topic)
    (hanswered : source = .balancerV3 → ResolutionAnswered chain keccak hi t) {log : EventLog}
    (hlog : log ∈ chain.window source.address (some (source.creationTopic keccak v3Topic))
      (lowOf chain start source.address hi) hi) :
    Read source.address (some (source.creationTopic keccak v3Topic)) log t := by
  cases source with
  | uniswapV3 => exact read_of_scan h hexact hlog
  | swaprV3 => exact read_of_scan h hexact hlog
  | balancerV2 =>
    obtain ⟨lo, t₁, t₂, rfl, hlow, hscan⟩ := runs_bind_ok_iff.mp h
    obtain ⟨hexact₁, hexact₂⟩ := List.forall_mem_append.mp hexact
    obtain rfl := lowBlock_eq hlow hexact₁
    -- the registrations are the first of the two loops
    obtain ⟨registered, t₃, t₄, rfl, hregistered, -⟩ := runs_bind_ok_iff.mp hscan
    obtain ⟨hexact₃, -⟩ := List.forall_mem_append.mp hexact₂
    exact (read_of_runs hregistered hexact₃ hlog).mono
      fun x hx => List.mem_append_right _ (List.mem_append_left _ hx)
  | balancerV3 =>
    obtain ⟨topic, t₁, t₂, rfl, hresolve, hrest⟩ := runs_bind_ok_iff.mp h
    obtain ⟨hexact₁, hexact₂⟩ := List.forall_mem_append.mp hexact
    obtain rfl := resolveV3Topic_eq hresolve hexact₁ hfirst
      ((hanswered rfl).mono fun x hx => List.mem_append_left _ hx)
    exact (read_of_scan hrest hexact₂ hlog).mono fun x hx => List.mem_append_right _ hx

/-- A loop over the sources that returns has run each of them. -/
theorem exists_run_of_mem {start : Option Int} {hi : Int} {sources : List String} {st st' : CatalogScan}
    (h : Runs (sources.foldlM (enumerateSource keccak start hi) st) t (.ok st')) {src : String}
    (hsrc : src ∈ sources) : ∃ before after t', t'.Sublist t ∧
      Runs (enumerateSource keccak start hi before src) t' (.ok after) := by
  induction sources generalizing st t with
  | nil => cases hsrc
  | cons first sources ih =>
    rw [List.foldlM_cons] at h
    obtain ⟨next, t₁, t₂, rfl, hfirst, hrest⟩ := runs_bind_ok_iff.mp h
    rcases List.mem_cons.mp hsrc with rfl | hsrc
    · exact ⟨st, next, t₁, List.sublist_append_left t₁ t₂, hfirst⟩
    · obtain ⟨before, after, t', hsub, hrun⟩ := ih hrest hsrc
      exact ⟨before, after, t', hsub.trans (List.sublist_append_right t₁ t₂), hrun⟩

/-! ## The run that saves -/

/-- What a run did that got to saving the watermark. -/
structure Saves (keccak : String → List UInt8) (args : EnumerationArgs) (hi : Int)
    (t : List (Sigma CatalogAnswer)) : Prop where
  toBlock : args.toBlock = none
  head : ⟨.blockNumber, .ok (hi + 32 : Int)⟩ ∈ t
  scanned : ∃ (watermark : Option Int) (st : CatalogScan) (t' : List (Sigma CatalogAnswer)),
    ⟨.loadWatermark, .ok watermark⟩ ∈ t ∧ t'.Sublist t ∧
      Runs (args.sources.foldlM (enumerateSource keccak
        (scanStart args.fromBlock args.incremental watermark args.overlap) hi) .empty) t' (.ok st)

/-- A save comes after the part of a run that only calls. -/
theorem runs_bind_of_save {α β : Type} {p : CatalogProgram α} {f : α → CatalogProgram β}
    {r : Except EnumerationFault β} {block : Int} {answer : CatalogAnswer (.saveWatermark block)}
    (hp : Asks CatalogOp.IsCall p) (h : Runs (p >>= f) t r) (hmem : ⟨.saveWatermark block, answer⟩ ∈ t) :
    ∃ a t₁ t₂, t = t₁ ++ t₂ ∧ Runs p t₁ (.ok a) ∧ Runs (f a) t₂ r ∧
      ⟨.saveWatermark block, answer⟩ ∈ t₂ := by
  rcases runs_bind_iff.mp h with ⟨a, t₁, t₂, rfl, hfirst, hrest⟩ | ⟨e, hfirst, -⟩
  · rcases List.mem_append.mp hmem with hmem | hmem
    · exact (hp.runs hfirst _ hmem).elim
    · exact ⟨a, t₁, t₂, rfl, hfirst, hrest, hmem⟩
  · exact (hp.runs hfirst _ hmem).elim

/-- A save comes after an operation that is none. -/
theorem runs_ask_of_save {α : Type} {op : CatalogOp} {f : CatalogReply op → CatalogProgram α}
    {r : Except EnumerationFault α} {block : Int} {answer : CatalogAnswer (.saveWatermark block)}
    (hop : op ≠ .saveWatermark block) (h : Runs (ask op >>= f) t r)
    (hmem : ⟨.saveWatermark block, answer⟩ ∈ t) :
    ∃ reply rest, t = ⟨op, .ok reply⟩ :: rest ∧ Runs (f reply) rest r ∧
      ⟨.saveWatermark block, answer⟩ ∈ rest := by
  have hother : ∀ reply, (⟨.saveWatermark block, answer⟩ : Sigma CatalogAnswer) ≠ ⟨op, reply⟩ :=
    fun reply heq => hop (congrArg Sigma.fst heq).symm
  rcases runs_ask_bind h with ⟨fault, rfl, -⟩ | ⟨reply, rest, rfl, hrest⟩
  · exact absurd (List.mem_singleton.mp hmem) (hother _)
  · rcases List.mem_cons.mp hmem with heq | hmem
    · exact absurd heq (hother _)
    · exact ⟨reply, rest, rfl, hrest, hmem⟩

/-- The save is the last thing of the run. -/
def EndsWith (t : List (Sigma CatalogAnswer)) (block : Int) (answer : CatalogAnswer (.saveWatermark block)) :
    Prop :=
  ∃ front, t = front ++ [⟨.saveWatermark block, answer⟩] ∧ ∀ x ∈ front, x.1 ≠ .saveWatermark block

theorem EndsWith.append {block : Int} {answer : CatalogAnswer (.saveWatermark block)}
    {earlier : List (Sigma CatalogAnswer)} (h : EndsWith t block answer)
    (hearlier : ∀ x ∈ earlier, x.1 ≠ .saveWatermark block) : EndsWith (earlier ++ t) block answer := by
  obtain ⟨front, rfl, hfront⟩ := h
  exact ⟨earlier ++ front, (List.append_assoc ..).symm, List.forall_mem_append.mpr ⟨hearlier, hfront⟩⟩

theorem EndsWith.cons {block : Int} {answer : CatalogAnswer (.saveWatermark block)}
    {x : Sigma CatalogAnswer} (h : EndsWith t block answer) (hx : x.1 ≠ .saveWatermark block) :
    EndsWith (x :: t) block answer :=
  EndsWith.append h (List.forall_mem_singleton.mpr hx)

/-- A part of the run that has the save is all of it. -/
theorem EndsWith.eq_nil {block : Int} {answer : CatalogAnswer (.saveWatermark block)}
    {rest : List (Sigma CatalogAnswer)} (h : EndsWith (t ++ rest) block answer)
    (hmem : ⟨.saveWatermark block, answer⟩ ∈ t) : rest = [] := by
  obtain ⟨front, heq, hfront⟩ := h
  rcases List.eq_nil_or_concat rest with rfl | ⟨init, last, rfl⟩
  · rfl
  · rw [List.concat_eq_append, ← List.append_assoc] at heq
    obtain ⟨rfl, -⟩ := List.append_inj' heq rfl
    exact absurd rfl (hfront _ (List.mem_append_left _ hmem))

theorem ne_save_of_asks {α : Type} {p : CatalogProgram α} {r : Except EnumerationFault α}
    (hp : Asks CatalogOp.IsCall p) (h : Runs p t r) (block : Int) : ∀ x ∈ t, x.1 ≠ .saveWatermark block := by
  intro x hx heq
  have hcall := hp.runs h x hx
  rw [heq] at hcall
  exact hcall

/-- Saving is the last thing that writing does, and it is done without an upper bound only. -/
theorem saves_of_writeCatalog {toBlock : Option Int} {hi : Int} {st : CatalogScan}
    {r : Except EnumerationFault Unit} (h : Runs (writeCatalog toBlock hi st) t r) {block : Int}
    {answer : CatalogAnswer (.saveWatermark block)} (hmem : ⟨.saveWatermark block, answer⟩ ∈ t) :
    toBlock = none ∧ block = hi ∧ EndsWith t block answer := by
  have hmetadata : Asks CatalogOp.IsCall ((sortedSet st.tokens).mapM (tokenMetadata hi)) :=
    .mapM fun token _ => asks_tokenMetadata hi token
  obtain ⟨metadata, t₁, t₂, rfl, hfirst, hrest, hmem⟩ := runs_bind_of_save hmetadata h hmem
  obtain ⟨written, t₃, rfl, hsave, hmem⟩ := runs_ask_of_save (by intro heq; cases heq) hrest hmem
  cases toBlock with
  | none =>
    obtain ⟨saved, t₄, rfl, hend⟩ := runs_call_iff.mp hsave
    obtain ⟨rfl, -⟩ := runs_ofExcept_iff.mp hend
    cases List.mem_singleton.mp hmem
    have hlast : EndsWith [⟨.saveWatermark hi, saved⟩] hi saved := ⟨[], rfl, List.forall_mem_nil _⟩
    refine ⟨rfl, rfl, (hlast.cons ?_).append (ne_save_of_asks hmetadata hfirst hi)⟩
    intro heq
    cases heq
  | some bound =>
    obtain ⟨rfl, -⟩ := runs_ret_iff.mp hsave
    exact absurd hmem List.not_mem_nil

/-- A run that saved a watermark has saved `head - 32`, after it scanned each of its sources. -/
theorem saves_of_main {args : EnumerationArgs} {r : Except EnumerationFault (List PoolRow)}
    (h : Runs (main keccak args) t r) {hi : Int} {answer : CatalogAnswer (.saveWatermark hi)}
    (hmem : ⟨.saveWatermark hi, answer⟩ ∈ t) :
    Saves keccak args hi t ∧ EndsWith t hi answer := by
  obtain ⟨head, t₁, rfl, h₁, hmem⟩ := runs_ask_of_save (by intro heq; cases heq) h hmem
  obtain ⟨watermark, t₂, rfl, h₂, hmem⟩ := runs_ask_of_save (by intro heq; cases heq) h₁ hmem
  have hscan : Asks CatalogOp.IsCall (args.sources.foldlM (enumerateSource keccak
      (scanStart args.fromBlock args.incremental watermark args.overlap) (highBlock args.toBlock head))
      .empty) := .foldlM (fun st src _ => asks_enumerateSource _ _ st src) _
  obtain ⟨st, t₃, t₄, rfl, hsources, h₃, hmem⟩ := runs_bind_of_save hscan h₂ hmem
  have hwrite : ∃ r', Runs (writeCatalog args.toBlock (highBlock args.toBlock head) st) t₄ r' := by
    rcases runs_bind_iff.mp h₃ with ⟨_, t₅, t₆, rfl, hwrite, hreturn⟩ | ⟨e, hwrite, -⟩
    · obtain ⟨rfl, -⟩ := runs_ret_iff.mp hreturn
      rw [List.append_nil]
      exact ⟨_, hwrite⟩
    · exact ⟨_, hwrite⟩
  obtain ⟨r', hwrite⟩ := hwrite
  obtain ⟨htoBlock, rfl, hends⟩ := saves_of_writeCatalog hwrite hmem
  have hhead : ∀ head : Int, highBlock none head + 32 = head := fun head => Int.sub_add_cancel head 32
  refine ⟨⟨htoBlock, ?_, watermark, st, t₃, ?_, ?_, hsources⟩, ?_⟩
  · rw [htoBlock, hhead head]
    exact List.mem_cons_self
  · exact List.mem_cons_of_mem _ List.mem_cons_self
  · exact ((List.sublist_append_left t₃ _).cons _).cons _
  · have htail := hends.append (ne_save_of_asks hscan hsources _)
    exact (htail.cons (by intro heq; cases heq)).cons (by intro heq; cases heq)

/-- A run that returned, and has no upper bound, saved its watermark. -/
theorem save_of_main {args : EnumerationArgs} {pools : List PoolRow} (h : Runs (main keccak args) t (.ok pools))
    (hunbounded : args.toBlock = none) :
    ∃ head : Int, ⟨.blockNumber, .ok head⟩ ∈ t ∧ ⟨.saveWatermark (head - 32), .ok ()⟩ ∈ t := by
  obtain ⟨head, t₁, rfl, h₁⟩ := runs_ask_bind_ok h
  obtain ⟨watermark, t₂, rfl, h₂⟩ := runs_ask_bind_ok h₁
  obtain ⟨st, t₃, t₄, rfl, -, h₃⟩ := runs_bind_ok_iff.mp h₂
  obtain ⟨_, t₅, t₆, rfl, hwrite, -⟩ := runs_bind_ok_iff.mp h₃
  obtain ⟨metadata, t₇, t₈, rfl, -, h₄⟩ := runs_bind_ok_iff.mp hwrite
  obtain ⟨_, t₉, rfl, h₅⟩ := runs_ask_bind_ok h₄
  have hsave : Runs (ask (.saveWatermark (highBlock args.toBlock head)) >>= .ret) t₉ (.ok ()) := by
    rw [bind_ret]
    exact (if_pos hunbounded : ite _ _ _ = ask (.saveWatermark _)) ▸ h₅
  obtain ⟨saved, t₁₀, rfl, -⟩ := runs_ask_bind_ok hsave
  obtain rfl : saved = () := rfl
  have hhi : ∀ block : Int, highBlock args.toBlock block = block - 32 := fun _ => by
    rw [hunbounded, highBlock]
  refine ⟨head, List.mem_cons_self, ?_⟩
  rw [← hhi head]
  simp

/-! ## Histories -/

inductive WatermarkFile where
  | absent
  | holds (head : Int)
  | unreadable
  deriving DecidableEq

namespace WatermarkFile

def head : WatermarkFile → Option Int
  | .holds head => some head
  | _ => none

/-- Reading the file returns what it holds, or raises. -/
def Read (file : WatermarkFile) : Sigma CatalogAnswer → Prop
  | ⟨.loadWatermark, answer⟩ =>
    ∀ watermark : Option Int, answer = .ok watermark → file ≠ .unreadable ∧ watermark = file.head
  | _ => True

/-- A save that raised may have left the old file, a part of the new one, or all of it. -/
def After (file : WatermarkFile) (t : List (Sigma CatalogAnswer)) (file' : WatermarkFile) : Prop :=
  ((∀ hi answer, ⟨.saveWatermark hi, answer⟩ ∉ t) ∧ file' = file) ∨
    ∃ hi, ∃ answer : Except CallFault Unit, ⟨.saveWatermark hi, answer⟩ ∈ t ∧
      (file' = .holds hi ∨ (∃ fault, answer = .error fault) ∧ (file' = file ∨ file' = .unreadable))

end WatermarkFile

/-- A run of `main`, or the part of one up to where it was stopped. -/
structure Attempt (keccak : String → List UInt8) (chain : PoolChain) (args : EnumerationArgs)
    (file : WatermarkFile) (t : List (Sigma CatalogAnswer)) (file' : WatermarkFile) : Prop where
  runs : ∃ rest r, Runs (main keccak args) (t ++ rest) r
  exact : ∀ x ∈ t, chain.Exact x
  read : ∀ x ∈ t, file.Read x
  after : file.After t file'

/-- The traces of the runs so far, none with an upper bound, and the watermark file they left. -/
inductive History (keccak : String → List UInt8) (chain : PoolChain)
    (meets : EnumerationArgs → WatermarkFile → List (Sigma CatalogAnswer) → Prop) :
    List (List (Sigma CatalogAnswer)) → WatermarkFile → Prop
  | nil : History keccak chain meets [] .absent
  | run {past : List (List (Sigma CatalogAnswer))} {file file' : WatermarkFile} {args : EnumerationArgs}
      {t : List (Sigma CatalogAnswer)} (earlier : History keccak chain meets past file)
      (unbounded : args.toBlock = none) (condition : meets args file t)
      (attempt : Attempt keccak chain args file t file') : History keccak chain meets (past ++ [t]) file'

/-- Every pool-creation event of every source up to the watermark was read by some run. -/
def WatermarkSound (keccak : String → List UInt8) (chain : PoolChain) (v3Topic : String)
    (past : List (List (Sigma CatalogAnswer))) (file : WatermarkFile) : Prop :=
  ∀ head, file = .holds head → ∀ source : PoolSource, ∀ log ∈ chain.logs,
    log.matches source.address (some (source.creationTopic keccak v3Topic)) = true →
      (log.blockNumber : Int) ≤ head →
        ∃ t ∈ past, Read source.address (some (source.creationTopic keccak v3Topic)) log t

/-- The run leaves no gap in the source: it is not deployed by then, or the watermark is there already, or the
run scans it from no later than its deployment or the block after the watermark. -/
def Continues (keccak : String → List UInt8) (chain : PoolChain) (args : EnumerationArgs)
    (file : WatermarkFile) (t : List (Sigma CatalogAnswer)) (hi : Int) (source : PoolSource) : Prop :=
  hi < chain.deployed source.address ∨ (∃ head, file = .holds head ∧ hi ≤ head) ∨
    source.name ∈ args.sources ∧
      (∀ start, scanStart args.fromBlock args.incremental file.head args.overlap = some start →
        start ≤ chain.deployed source.address ∨ ∃ head, file = .holds head ∧ start ≤ head + 1) ∧
      (source = .balancerV3 → ResolutionAnswered chain keccak hi t)

/-- A run that gets to saving leaves no gap in any source. -/
def LeavesNoGap (keccak : String → List UInt8) (chain : PoolChain) (args : EnumerationArgs)
    (file : WatermarkFile) (t : List (Sigma CatalogAnswer)) : Prop :=
  ∀ head : Int, ⟨.blockNumber, .ok head⟩ ∈ t → (∃ hi answer, ⟨.saveWatermark hi, answer⟩ ∈ t) →
    ∀ source, Continues keccak chain args file t (head - 32) source

/-- One run: what is new up to its watermark, it has read. -/
theorem WatermarkSound.attempt {v3Topic : String} {past : List (List (Sigma CatalogAnswer))}
    {file file' : WatermarkFile} {args : EnumerationArgs}
    (hsound : WatermarkSound keccak chain v3Topic past file)
    (hfirst : RegistersFirst chain keccak v3Topic) (hgap : LeavesNoGap keccak chain args file t)
    (hattempt : Attempt keccak chain args file t file') :
    WatermarkSound keccak chain v3Topic (past ++ [t]) file' := by
  -- what the old watermark stands for was read by an earlier run
  have hold : ∀ head, file = .holds head → ∀ source : PoolSource, ∀ log ∈ chain.logs,
      log.matches source.address (some (source.creationTopic keccak v3Topic)) = true →
        (log.blockNumber : Int) ≤ head →
          ∃ t' ∈ past ++ [t], Read source.address (some (source.creationTopic keccak v3Topic)) log t' := by
    intro head hfile source log hlog hmatches hle
    obtain ⟨t', ht', hread⟩ := hsound head hfile source log hlog hmatches hle
    exact ⟨t', List.mem_append_left _ ht', hread⟩
  intro head hfile' source log hlog hmatches hle
  rcases hattempt.after with ⟨-, rfl⟩ | ⟨hi, answer, hmem, hsaved⟩
  · exact hold head hfile' source log hlog hmatches hle
  rcases hsaved with rfl | ⟨-, rfl | rfl⟩
  · obtain rfl : hi = head := by cases hfile'; rfl
    obtain ⟨rest, r, hrun⟩ := hattempt.runs
    obtain ⟨hsaves, hends⟩ := saves_of_main hrun (List.mem_append_left _ hmem)
    -- nothing comes after the save, so the run was not stopped
    obtain rfl := hends.eq_nil hmem
    rw [List.append_nil] at hsaves
    obtain ⟨watermark, st, t', hload, hsub, hsources⟩ := hsaves.scanned
    obtain ⟨-, rfl⟩ := hattempt.read _ hload watermark rfl
    have hcontinues := hgap _ hsaves.head ⟨hi, answer, hmem⟩ source
    rw [show hi + 32 - 32 = hi by omega] at hcontinues
    have hdeployed := chain.deployed_le log hlog
    rw [EventLog.address_of_matches hmatches] at hdeployed
    rcases hcontinues with hlate | ⟨old, hfile, hold'⟩ | ⟨hsource, hstart, hanswered⟩
    · omega
    · exact hold old hfile source log hlog hmatches (by omega)
    · by_cases hlow : lowOf chain (scanStart args.fromBlock args.incremental file.head args.overlap)
          source.address hi ≤ log.blockNumber
      · obtain ⟨before, after, t'', hsub', hrun'⟩ := exists_run_of_mem hsources hsource
        have hmemt : ∀ x ∈ t'', x ∈ t := fun x hx => hsub.subset (hsub'.subset hx)
        have hread := read_of_enumerateSource source hrun' (fun x hx => hattempt.exact x (hmemt x hx)) hfirst
          (fun hv3 => (hanswered hv3).mono hmemt)
          (PoolChain.mem_window.mpr ⟨hlog, hmatches, hlow, hle⟩)
        exact ⟨t, List.mem_append_right _ (List.mem_singleton.mpr rfl), hread.mono hmemt⟩
      · -- the event lies below the scan, so below the old watermark
        unfold lowOf at hlow
        cases hscanStart : scanStart args.fromBlock args.incremental file.head args.overlap with
        | none =>
          rw [hscanStart, Option.getD_none] at hlow
          omega
        | some start =>
          rw [hscanStart, Option.getD_some] at hlow
          rcases hstart start hscanStart with hearly | ⟨old, hfile, hnext⟩
          · omega
          · exact hold old hfile source log hlog hmatches (by omega)
  · exact hold head hfile' source log hlog hmatches hle
  · cases hfile'

/-- In every history whose saving runs leave no gap, the watermark stands for events that were all read. -/
theorem watermark_sound_of_no_gap {v3Topic : String} {past : List (List (Sigma CatalogAnswer))}
    {file : WatermarkFile} (hfirst : RegistersFirst chain keccak v3Topic)
    (h : History keccak chain (LeavesNoGap keccak chain) past file) :
    WatermarkSound keccak chain v3Topic past file := by
  induction h with
  | nil =>
    intro head hfile
    cases hfile
  | run earlier unbounded condition attempt ih => exact ih.attempt hfirst condition attempt

/-! ## A run over one source -/

/-- The digests of the event signatures that the source hashes. -/
def knownDigests (signature : String) : List UInt8 :=
  if signature = "PoolCreated(address,address,uint24,int24,address)" then
    fromHex "783cca1c0412dd0d695e784568c96da2e9c22ff989357a2e8b1d9b2b4e6b7118".toList
  else if signature = "Pool(address,address,address)" then
    fromHex "91ccaa7a278130b65168c3a0c8d3bcae84cf5e43704342bd3ec0b59e59c036db".toList
  else if signature = "PoolRegistered(bytes32,address,uint8)" then
    fromHex "3c13bc30b8e878c53fd2a36b679409c073afd75950be43d8858768e956fbc20e".toList
  else if signature = "TokensRegistered(bytes32,address[],address[])" then
    fromHex "f5847d3f2197b16cdcd2098ec95d0905cd1abdaf415f07bb7cef2bba8ac5dec4".toList
  else if signature = "getPoolTokenInfo(address)" then
    fromHex "67e0e076d495f3a96d56721bd10f21f192ceb7e91f2ad099b5b185aff80ebebd".toList
  else []

def sampleTopic : String := hexText (List.replicate 64 '1')

/-- A log of a factory at block 0. -/
def factoryLog (address topic0 : String) : EventLog :=
  ⟨address, [topic0, sampleTopic, sampleTopic, sampleTopic], List.replicate 64 0, 0⟩

/-- A chain with one log, at block 0, and contracts that are deployed there, or later. -/
def oneLogChain (log : EventLog) (deployed : String → Nat) (h : deployed log.address = 0) : PoolChain where
  logs := [log]
  deployed := deployed
  call := fun _ _ _ => none
  sorted := List.pairwise_singleton _ _
  deployed_le := by
    intro other hother
    rw [List.mem_singleton] at hother
    rw [hother, h]
    exact Nat.zero_le _

/-- `--sources uniswap_v3`, full history. -/
def oneSourceArgs : EnumerationArgs := ⟨["uniswap_v3"], none, none, false, 10000⟩

/-- The run at head 32, when the factory has no logs. -/
def oneSourceTrace (keccak : String → List UInt8) : List (Sigma CatalogAnswer) :=
  [⟨.blockNumber, .ok (32 : Int)⟩, ⟨.loadWatermark, .ok (none : Option Int)⟩,
    ⟨.getCode uniswapV3Factory 0, .ok "0x60"⟩,
    ⟨.getLogs uniswapV3Factory (some (topicUniswap keccak)) 0 0, .ok ([] : List EventLog)⟩,
    ⟨.writeOutput [] [], .ok ()⟩, ⟨.saveWatermark 0, .ok ()⟩]

theorem runs_oneSource (keccak : String → List UInt8) :
    Runs (main keccak oneSourceArgs) (oneSourceTrace keccak) (.ok []) := by
  have hsearch : Runs (findDeployBlock uniswapV3Factory 0)
      [⟨.getCode uniswapV3Factory 0, .ok "0x60"⟩] (.ok 0) := by
    unfold findDeployBlock
    rw [searchDeployBlock, if_pos le_rfl]
    refine .call ?_
    show Runs (if "0x60" ∉ noCode then searchDeployBlock uniswapV3Factory 0 (0 - 1) 0 else _) [] (.ok 0)
    rw [if_pos (by decide), searchDeployBlock, if_neg (by decide)]
    exact .ret 0
  have hlogs : Runs (enumUniswap keccak 0 0 .empty)
      [⟨.getLogs uniswapV3Factory (some (topicUniswap keccak)) 0 0, .ok ([] : List EventLog)⟩]
      (.ok .empty) := by
    unfold enumUniswap foldLogs
    rw [forLogs, if_pos le_rfl]
    refine .call ?_
    show Runs (forLogs _ _ _ 1 0 CatalogScan.empty) [] (.ok .empty)
    rw [forLogs, if_neg (by decide)]
    exact .ret _
  have hsource : Runs (enumerateSource keccak none 0 .empty "uniswap_v3") ([_] ++ [_]) (.ok .empty) :=
    runs_bind_ok_iff.mpr ⟨0, _, _, rfl, hsearch, hlogs⟩
  have hsources : Runs (["uniswap_v3"].foldlM (enumerateSource keccak none 0) .empty) ([_, _] ++ [])
      (.ok .empty) := runs_bind_ok_iff.mpr ⟨.empty, _, [], rfl, hsource, .ret _⟩
  have hwrite : Runs (writeCatalog none 0 .empty) [⟨.writeOutput [] [], .ok ()⟩, ⟨.saveWatermark 0, .ok ()⟩]
      (.ok ()) := .call (.call (.ret ()))
  have hrest : Runs (writeCatalog none 0 .empty >>= fun _ => (.ret [] : CatalogProgram (List PoolRow)))
      ([_, _] ++ []) (.ok []) := runs_bind_ok_iff.mpr ⟨(), _, [], rfl, hwrite, .ret []⟩
  have hscanned : Runs (["uniswap_v3"].foldlM (enumerateSource keccak none 0) .empty >>= fun st =>
      writeCatalog none 0 st >>= fun _ => .ret st.pools) (_ ++ _) (.ok []) :=
    runs_bind_ok_iff.mpr ⟨.empty, _, _, rfl, hsources, hrest⟩
  exact .call (.call hscanned)

/-- That run, on a chain whose one log is not the factory's, leaves the watermark 0. -/
theorem attempt_oneSource {log : EventLog} {deployed : String → Nat} {h : deployed log.address = 0}
    (hother : log.address ≠ uniswapV3Factory) (hfactory : deployed uniswapV3Factory = 0) :
    Attempt keccak (oneLogChain log deployed h) oneSourceArgs .absent (oneSourceTrace keccak) (.holds 0) where
  runs := ⟨[], .ok [], runs_oneSource keccak⟩
  exact := by
    have hwindow : ([] : List EventLog) = (oneLogChain log deployed h).window uniswapV3Factory
        (some (topicUniswap keccak)) 0 0 := by
      show [] = [log].filter _
      rw [List.filter_cons_of_neg (by simp [EventLog.matches, hother]), List.filter_nil]
    intro x hx
    simp only [oneSourceTrace, List.mem_cons, List.not_mem_nil, or_false] at hx
    rcases hx with rfl | rfl | rfl | rfl | rfl | rfl
    · trivial
    · trivial
    · intro code hcode
      obtain rfl := Except.ok.inj hcode
      show "0x60" ∉ noCode ↔ (deployed uniswapV3Factory : Int) ≤ 0
      rw [hfactory]
      decide
    · intro logs hlogs
      obtain rfl := Except.ok.inj hlogs
      exact hwindow
    · trivial
    · trivial
  read := by
    intro x hx
    simp only [oneSourceTrace, List.mem_cons, List.not_mem_nil, or_false] at hx
    rcases hx with rfl | rfl | rfl | rfl | rfl | rfl
    · trivial
    · intro watermark hwatermark
      obtain rfl := Except.ok.inj hwatermark
      exact ⟨by decide, rfl⟩
    · trivial
    · trivial
    · trivial
    · trivial
  after := by
    refine .inr ⟨0, .ok (), ?_, .inl rfl⟩
    exact .tail _ (.tail _ (.tail _ (.tail _ (.tail _ (.head _)))))

/-- A chain without a log of the vault has none of a pool before its registration. -/
theorem registersFirst_of_no_vault (hnone : ∀ log ∈ chain.logs, log.address ≠ balancerV3Vault)
    (v3Topic : String) : RegistersFirst chain keccak v3Topic := by
  intro earlier log later hlogs hvault
  refine absurd hvault (hnone log ?_)
  rw [hlogs]
  exact List.mem_append_right _ List.mem_cons_self

/-- One pool of Swapr, when every contract is deployed from the start. -/
def swaprChain : PoolChain :=
  oneLogChain (factoryLog swaprAlgebraFactory (topicAlgebra knownDigests)) (fun _ => 0) rfl

/-- Only Uniswap was scanned, and the watermark advanced over a pool of Swapr. -/
theorem one_source_advances_the_watermark :
    RegistersFirst swaprChain knownDigests sampleTopic ∧
      History knownDigests swaprChain (fun _ _ _ => True) [oneSourceTrace knownDigests] (.holds 0) ∧
      ¬ WatermarkSound knownDigests swaprChain sampleTopic [oneSourceTrace knownDigests] (.holds 0) := by
  have hnone : ∀ log ∈ swaprChain.logs, log.address ≠ balancerV3Vault := by
    intro log hlog
    rw [List.mem_singleton.mp hlog]
    decide
  refine ⟨registersFirst_of_no_vault hnone _, ?_, ?_⟩
  · exact .run .nil rfl trivial (attempt_oneSource (by decide) rfl)
  · intro hsound
    obtain ⟨t, ht, lo, hi, logs, hmem, -⟩ := hsound 0 rfl .swaprV3 _ (List.mem_singleton.mpr rfl)
      (by simp [EventLog.matches, factoryLog, PoolSource.address, PoolSource.creationTopic]) le_rfl
    rw [List.mem_singleton] at ht
    subst ht
    simp only [oneSourceTrace, List.mem_cons, List.not_mem_nil, or_false] at hmem
    rcases hmem with heq | heq | heq | heq | heq | heq
    · cases heq
    · cases heq
    · cases heq
    · have haddress : swaprAlgebraFactory = uniswapV3Factory := by
        injection congrArg Sigma.fst heq
      exact absurd haddress (by decide)
    · cases heq
    · cases heq

/-! ## Runs that leave no gap -/

/-- A run that a provider answers, and that returns, leaves the watermark of its head. -/
theorem attempt_provider {head : Int} {fails : String → List UInt8 → Int → Bool} {args : EnumerationArgs}
    {file : WatermarkFile} {pools : List PoolRow} (hreadable : file ≠ .unreadable)
    (hunbounded : args.toBlock = none)
    (h : answeredBy (provider chain head file.head fails) (main keccak args) = .ok pools) :
    Attempt keccak chain args file (traceOf (provider chain head file.head fails) (main keccak args))
      (.holds (head - 32)) where
  runs := ⟨[], _, by
    rw [List.append_nil]
    exact runs_answeredBy _ _⟩
  exact := exact_of_mem_traceOf
  read := by
    rintro ⟨op, answer⟩ hx
    obtain rfl : answer = provider chain head file.head fails op := answer_of_mem_traceOf hx
    cases op with
    | loadWatermark =>
      intro watermark hwatermark
      exact ⟨hreadable, (Except.ok.inj hwatermark).symm⟩
    | _ => trivial
  after := by
    have hrun := runs_answeredBy (provider chain head file.head fails) (main keccak args)
    rw [h] at hrun
    obtain ⟨head', hhead, hsave⟩ := save_of_main hrun hunbounded
    obtain rfl : head' = head := Except.ok.inj (answer_of_mem_traceOf hhead)
    exact .inr ⟨head' - 32, .ok (), hsave, .inl rfl⟩

/-- `--sources uniswap_v3`, with an overlap of three blocks. -/
def uniswapArgs (incremental : Bool) : EnumerationArgs := ⟨["uniswap_v3"], none, none, incremental, 3⟩

/-- Two pools of Uniswap, at blocks 0 and 12, and other contracts that come later. -/
def uniswapChain : PoolChain where
  logs := [factoryLog uniswapV3Factory (topicUniswap knownDigests),
    { factoryLog uniswapV3Factory (topicUniswap knownDigests) with blockNumber := 12 }]
  deployed := fun address => if address = uniswapV3Factory then 0 else 100
  call := fun _ _ _ => none
  sorted := List.pairwise_pair.mpr (Nat.zero_le _)
  deployed_le := by
    intro log hlog
    rcases List.mem_pair.mp hlog with rfl | rfl <;> exact Nat.zero_le _

def uniswapProvider (head : Int) (file : WatermarkFile) : (op : CatalogOp) → CatalogAnswer op :=
  provider uniswapChain head file.head fun _ _ _ => false

/-- The logs have their topics, so the run returns. -/
theorem answeredBy_uniswapChain (head : Int) (file : WatermarkFile) (incremental : Bool) :
    ∃ pools, answeredBy (uniswapProvider head file) (main knownDigests (uniswapArgs incremental)) =
      .ok pools := by
  have hparsed : ∀ logs : List EventLog, logs ⊆ uniswapChain.logs → ∀ st,
      ∃ st', logs.foldlM (addParsed uniswapPool) st = .ok st' := by
    intro logs hlogs
    induction logs with
    | nil => exact fun st => ⟨st, rfl⟩
    | cons log logs ih =>
      intro st
      obtain ⟨row, hrow⟩ : ∃ row, uniswapPool log = .ok row := by
        rcases List.mem_pair.mp (hlogs List.mem_cons_self) with rfl | rfl <;> exact ⟨_, rfl⟩
      rw [List.foldlM_cons, addParsed, hrow]
      exact ih (fun x hx => hlogs (List.mem_cons_of_mem _ hx)) _
  obtain ⟨st, hst⟩ := hparsed (uniswapChain.window uniswapV3Factory (some (topicUniswap knownDigests))
    (lowOf uniswapChain (scanStart none incremental file.head 3) uniswapV3Factory (head - 32)) (head - 32))
    (List.filter_subset_self _) .empty
  refine ⟨st.pools, ?_⟩
  show answeredBy _ (List.foldlM (enumerateSource knownDigests (scanStart none incremental file.head 3)
    (head - 32)) .empty ["uniswap_v3"] >>= _) = _
  rw [answeredBy_bind, answeredBy_foldlM, List.foldlM_cons]
  have hsource : answeredBy (uniswapProvider head file) (enumerateSource knownDigests
      (scanStart none incremental file.head 3) (head - 32) .empty "uniswap_v3") = .ok st :=
    (answeredBy_scan _ _ _).trans hst
  rw [hsource, except_ok_bind, List.foldlM_nil, pure_bind, answeredBy_bind]
  exact congrArg (· >>= _) (answeredBy_writeCatalog (head - 32) st)

/-- The runs of `--sources uniswap_v3`, at a head before the other contracts. -/
def uniswapTrace (head : Int) (file : WatermarkFile) (incremental : Bool) : List (Sigma CatalogAnswer) :=
  traceOf (uniswapProvider head file) (main knownDigests (uniswapArgs incremental))

theorem leavesNoGap_uniswapTrace {head : Int} {file : WatermarkFile} {incremental : Bool}
    (hhead : head < 132) (hstart : incremental = true → ∃ old : Int, file = .holds old ∧ 0 ≤ old) :
    LeavesNoGap knownDigests uniswapChain (uniswapArgs incremental) file
      (uniswapTrace head file incremental) := by
  intro head' hmem _ source
  obtain rfl : head' = head := Except.ok.inj (answer_of_mem_traceOf hmem)
  cases source with
  | uniswapV3 =>
    refine .inr (.inr ⟨List.mem_singleton.mpr rfl, fun start hscan => ?_, fun hv3 => by cases hv3⟩)
    cases incremental with
    | false => cases hscan
    | true =>
      obtain ⟨old, rfl, hold⟩ := hstart rfl
      obtain rfl : max 0 (old - 3) = start := Option.some.inj hscan
      exact .inr ⟨old, rfl, by omega⟩
  | swaprV3 => exact .inl (show head' - 32 < 100 by omega)
  | balancerV2 => exact .inl (show head' - 32 < 100 by omega)
  | balancerV3 => exact .inl (show head' - 32 < 100 by omega)

/-- A full run at head 40, and an incremental one at head 47 that starts at block 5: between them they read
both pools. -/
theorem watermark_sound_of_no_gap_sample : uniswapChain.logs.length = 2 ∧
    ∀ log ∈ uniswapChain.logs, ∃ t ∈ [uniswapTrace 40 .absent false, uniswapTrace 47 (.holds 8) true],
      Read uniswapV3Factory (some (topicUniswap knownDigests)) log t := by
  obtain ⟨_, hfirst⟩ := answeredBy_uniswapChain 40 .absent false
  obtain ⟨_, hsecond⟩ := answeredBy_uniswapChain 47 (.holds 8) true
  have hnone : ∀ log ∈ uniswapChain.logs, log.address ≠ balancerV3Vault := by
    intro log hlog
    rcases List.mem_pair.mp hlog with rfl | rfl <;> decide
  have hsound := watermark_sound_of_no_gap (registersFirst_of_no_vault hnone sampleTopic)
    (.run (.run .nil rfl (leavesNoGap_uniswapTrace (by decide) (fun h => absurd h Bool.false_ne_true))
      (attempt_provider (by decide) rfl hfirst)) rfl
      (leavesNoGap_uniswapTrace (by decide) (fun _ => ⟨8, rfl, by decide⟩))
      (attempt_provider (by decide) rfl hsecond))
  -- Both logs are of the first source and at or below block 15.
  refine ⟨rfl, fun log hlog => hsound 15 rfl .uniswapV3 log hlog ?_ ?_⟩
  · rcases List.mem_pair.mp hlog with rfl | rfl <;>
      simp [EventLog.matches, factoryLog, PoolSource.address, PoolSource.creationTopic]
  · rcases List.mem_pair.mp hlog with rfl | rfl <;> decide

end CatalogEnumeration

end RpcStateIndexer
