import RpcStateIndexer.Census.AttemptWorld

/-!
# What an attempt persists

The observations of a result, table by table.  Chunking and grouping by batch do not show in what is
stored: the rows are those of the result, in the order of the inserts.
-/

namespace RpcStateIndexer

open Reasoning Program

/-! ## Chunks -/

/-- Consecutive slices up to an index, joined. -/
theorem flatten_slices {α : Type} (rows : List α) (n k : Nat) :
    ((List.range k).map fun i => (rows.drop (i * n)).take n).flatten = rows.take (k * n) := by
  induction k with
  | zero => simp
  | succ k ih =>
    rw [List.range_succ, List.map_append, List.flatten_append, ih, Nat.succ_mul, List.take_add]
    simp

theorem chunks_flatten {α : Type} (rows : List α) : (chunks rows).flatten = rows := by
  rw [chunks, flatten_slices]
  apply List.take_of_length_le
  -- The number of chunks is the length divided by the chunk size, rounded up.
  have hceil := Nat.lt_mul_div_succ (rows.length + insertChunkRows - 1)
    (show 0 < insertChunkRows by decide)
  simp only [insertChunkRows] at hceil ⊢
  omega

/-! ## Tables of observations -/

/-- An insert into one table of observations, whose rows carry the attempt that `owner` reads. -/
structure ObservationTable {α : Type} (owner : α → Uuid) (table : List α → CensusWrite) : Prop where
  owned : ∀ {id rows}, (∀ row ∈ rows, owner row = id) → (table rows).Owned id
  not_state : ∀ rows row, table rows ≠ .attemptState row
  write_nil : ∀ s : CensusStore, s.write (table []) = s
  write_append : ∀ (s : CensusStore) rows new,
    (s.write (table rows)).write (table new) = s.write (table (rows ++ new))
  publications : ∀ (s : CensusStore) rows, (s.write (table rows)).publications = s.publications

namespace ObservationTable

theorem universeMembers : ObservationTable (fun r => r.scope.attemptId) .universeMembers where
  owned h := h
  not_state _ _ := nofun
  write_nil s := by simp [CensusStore.write]
  write_append s _ _ := by simp [CensusStore.write]
  publications _ _ := rfl

theorem terminalErrors : ObservationTable (fun r => r.scope.attemptId) .terminalErrors where
  owned h := h
  not_state _ _ := nofun
  write_nil s := by simp [CensusStore.write]
  write_append s _ _ := by simp [CensusStore.write]
  publications _ _ := rfl

theorem tokenBalances : ObservationTable (fun r => r.scope.attemptId) .tokenBalances where
  owned h := h
  not_state _ _ := nofun
  write_nil s := by simp [CensusStore.write]
  write_append s _ _ := by simp [CensusStore.write]
  publications _ _ := rfl

theorem tokenScalars : ObservationTable (fun r => r.scope.attemptId) .tokenScalars where
  owned h := h
  not_state _ _ := nofun
  write_nil s := by simp [CensusStore.write]
  write_append s _ _ := by simp [CensusStore.write]
  publications _ _ := rfl

theorem poolBalances : ObservationTable (fun r => r.scope.attemptId) .poolBalances where
  owned h := h
  not_state _ _ := nofun
  write_nil s := by simp [CensusStore.write]
  write_append s _ _ := by simp [CensusStore.write]
  publications _ _ := rfl

theorem poolClState : ObservationTable (fun r => r.scope.attemptId) .poolClState where
  owned h := h
  not_state _ _ := nofun
  write_nil s := by simp [CensusStore.write]
  write_append s _ _ := by simp [CensusStore.write]
  publications _ _ := rfl

theorem poolTicks : ObservationTable (fun r => r.scope.attemptId) .poolTicks where
  owned h := h
  not_state _ _ := nofun
  write_nil s := by simp [CensusStore.write]
  write_append s _ _ := by simp [CensusStore.write]
  publications _ _ := rfl

end ObservationTable

/-! ## The stored rows of a result -/

namespace CensusRunner

/-- Everything `_persist_universe` and `_persist_token_result` insert. -/
def tokenTables (scope : AttemptScope) (frozen : FrozenUniverse) (r : TokenCollectionResult) :
    Except CensusException CensusStore := do
  let members ← universeMemberRows scope frozen
  let balances ← r.balances.mapM
    (storedRow scope r.toCollectionOutcome BalanceRow.batchSequence)
  let scalars ← r.scalars.mapM (storedRow scope r.toCollectionOutcome ScalarRow.batchSequence)
  return (((({} : CensusStore).write (.universeMembers members)).write
    (.tokenBalances balances)).write (.tokenScalars (scalarGroups r scalars).flatten)).write
      (.terminalErrors (errorRows scope .token r.errors))

/-- Everything `_persist_pool_result` inserts. -/
def poolTables (scope : AttemptScope) (r : PoolCollectionResult) :
    Except CensusException CensusStore := do
  let balances ← (r.balances.map fun row => { row with poolAddress := scope.targetAddress }).mapM
    (storedRow scope r.toCollectionOutcome PoolBalanceRow.batchSequence)
  return (({} : CensusStore).write (.poolBalances balances)).write
    (.terminalErrors (errorRows scope .pool r.errors))

/-- Everything `_persist_pool_cl_result` inserts. -/
def poolClTables (scope : AttemptScope) (r : PoolClCollectionResult) :
    Except CensusException CensusStore := do
  let state ← storedRow scope r.toCollectionOutcome PoolClStateRow.batchSequence
    { r.state with poolAddress := scope.targetAddress }
  let ticks ← (r.ticks.map fun row => { row with poolAddress := scope.targetAddress }).mapM
    (storedRow scope r.toCollectionOutcome PoolTickRow.batchSequence)
  return ((({} : CensusStore).write (.poolClState [state])).write (.poolTicks ticks)).write
    (.terminalErrors (errorRows scope .pool r.errors))

end CensusRunner

theorem storedRow_scope {α : Type} {scope : AttemptScope} {outcome : CollectionOutcome}
    {batchSequence : α → Nat} {row : α} {stored : Stored α}
    (h : storedRow scope outcome batchSequence row = .ok stored) :
    stored.scope = scope ∧ stored.row = row := by
  simp only [storedRow, except_bind_eq_ok_iff, except_pure_eq_ok_iff] at h
  obtain ⟨source, -, rfl⟩ := h
  exact ⟨rfl, rfl⟩

theorem mapM_storedRow_scope {α : Type} {scope : AttemptScope} {outcome : CollectionOutcome}
    {batchSequence : α → Nat} {rows : List α} {stored : List (Stored α)}
    (h : rows.mapM (storedRow scope outcome batchSequence) = .ok stored) :
    ∀ row ∈ stored, row.scope = scope := by
  intro row hrow
  obtain ⟨a, -, ha⟩ := exists_of_mem_mapM h hrow
  exact (storedRow_scope ha).1

theorem universeMemberRows_scope {scope : AttemptScope} {frozen : FrozenUniverse}
    {rows : List UniverseMemberRow} (h : CensusRunner.universeMemberRows scope frozen = .ok rows) :
    ∀ row ∈ rows, row.scope.attemptId = scope.attemptId := by
  intro row hrow
  obtain ⟨⟨holder, ordinal⟩, -, hx⟩ := exists_of_mem_mapM h hrow
  cases hlookup : frozen.sources.lookup holder with
  | none => simp [hlookup] at hx
  | some sources =>
    simp only [hlookup, Except.ok.injEq] at hx
    rw [← hx]

theorem errorRows_scope (scope : AttemptScope) (kind : TargetKind)
    (errors : List CollectionError) :
    ∀ row ∈ CensusRunner.errorRows scope kind errors, row.scope.attemptId = scope.attemptId := by
  intro row hrow
  obtain ⟨error, -, rfl⟩ := List.mem_map.mp hrow
  rfl

/-! ## Inserting them -/

section Persist

variable {id : Uuid} {X : CensusStore} {states : List AttemptRow} {log : List (Sigma CensusAns)}
  {w : AttemptWorld} {C : AttemptWorld → Prop}

/-- Inserting groups of rows one after another stores their concatenation. -/
theorem returns_insertGroups {α : Type} {owner : α → Uuid} {table : List α → CensusWrite}
    (htable : ObservationTable owner table) {groups : List (List α)}
    (howned : ∀ group ∈ groups, ∀ row ∈ group, owner row = id)
    (hC : ∀ X' w', X'.publications = X.publications → At id X' states log w' → C w')
    (h : At id X states log w) :
    Returns (censusEnv id) C (fun _ w' => At id (X.write (table groups.flatten)) states log w')
      (groups.forM fun group => insert (table group)) w := by
  -- The invariant: the groups inserted so far, and those that are left, make up all of them.
  refine (Returns.forM (fun left w' => ∃ done, done ++ left = groups ∧
    At id (X.write (table done.flatten)) states log w') ⟨[], rfl, ?_⟩ ?_).mono ?_
  · rw [List.flatten_nil, htable.write_nil]
    exact h
  · rintro group left w' ⟨done, hdone, hat⟩
    have hgroup : ∀ row ∈ group, owner row = id := howned group (by simp [← hdone])
    refine (returns_insert hat (htable.owned hgroup) (htable.not_state _) ?_).mono ?_
    · rintro w'' (hw | hw)
      · exact hC _ _ (htable.publications _ _) hw
      · exact hC _ _ ((htable.publications _ _).trans (htable.publications _ _)) hw
    · intro _ w'' hw
      refine ⟨done ++ [group], by simp [← hdone], ?_⟩
      rw [htable.write_append] at hw
      simpa using hw
  · rintro - w' ⟨done, hdone, hat⟩
    rw [List.append_nil] at hdone
    rwa [← hdone]

theorem returns_insertChunked {α : Type} {owner : α → Uuid} {table : List α → CensusWrite}
    (htable : ObservationTable owner table) {rows : List α} (howned : ∀ row ∈ rows, owner row = id)
    (hC : ∀ X' w', X'.publications = X.publications → At id X' states log w' → C w')
    (h : At id X states log w) :
    Returns (censusEnv id) C (fun _ w' => At id (X.write (table rows)) states log w')
      (insertChunked table rows) w := by
  have howned' : ∀ group ∈ chunks rows, ∀ row ∈ group, owner row = id := by
    intro group hgroup row hrow
    apply howned
    rw [← chunks_flatten rows]
    exact List.mem_flatten.mpr ⟨group, hgroup, hrow⟩
  have hgroups := returns_insertGroups htable howned' hC h
  rwa [chunks_flatten] at hgroups

/-- Rows that are inserted unless there are none. -/
theorem returns_insertUnlessEmpty {α : Type} [DecidableEq α] {owner : α → Uuid}
    {table : List α → CensusWrite} (htable : ObservationTable owner table) {rows : List α}
    (howned : ∀ row ∈ rows, owner row = id)
    (hC : ∀ X' w', X'.publications = X.publications → At id X' states log w' → C w')
    (h : At id X states log w) :
    Returns (censusEnv id) C (fun _ w' => At id (X.write (table rows)) states log w')
      (if rows ≠ [] then insert (table rows) else pure () : CensusProgram Unit) w := by
  by_cases hrows : rows = []
  · rw [if_neg (by simpa using hrows), hrows]
    show At id (X.write (table [])) states log w
    rw [htable.write_nil]
    exact h
  · rw [if_pos hrows]
    apply returns_insert h (htable.owned howned) (htable.not_state _)
    rintro w' (hw | hw)
    · exact hC _ _ rfl hw
    · exact hC _ _ (htable.publications _ _) hw

end Persist

end RpcStateIndexer
